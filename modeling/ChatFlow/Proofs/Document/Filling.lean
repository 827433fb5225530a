import ChatFlow.Proofs.Document.Blocks
import ChatFlow.Proofs.Document.Matching

/-! The second pass puts the same contents into the same nodes, whatever the order in which it reads
them: only the slots of calls depend on that order. -/
namespace ChatFlow.Document
open Flow Expr
variable {ω η α β : Type}

theorem mapM_cons_ends {read : α → Reading β} {a : α} {as : List α} {bs : List β} {n n₂ : Nat} :
    ((a :: as).mapM read).run n = .ok (bs, n₂) ↔ ∃ b n₁ rest, (read a).run n = .ok (b, n₁) ∧
      (as.mapM read).run n₁ = .ok (rest, n₂) ∧ bs = b :: rest := by
  rw [List.mapM_cons, StateT.run_bind, bind_eq_ok]
  constructor
  · rintro ⟨⟨b, n₁⟩, hb, h⟩
    rw [StateT.run_bind] at h
    obtain ⟨⟨rest, n'⟩, hrest, h⟩ := bind_eq_ok.1 h
    cases pure_eq_ok.1 h
    exact ⟨b, n₁, rest, hb, hrest, rfl⟩
  · rintro ⟨b, n₁, rest, hb, hrest, rfl⟩
    exact ⟨(b, n₁), hb, bind_eq_ok.2 ⟨(rest, n₂), hrest, rfl⟩⟩

/-- Readings in another order yield the same values with other slots. -/
theorem exists_slots_of_perm {read : α → Reading β} {f : (Nat → Nat) → β → β} {as as' : List α}
    (hcomp : ∀ slots slots' b, f slots' (f slots b) = f (slots' ∘ slots) b) (h : as.Perm as')
    (hread : ∀ a ∈ as, ∀ slots, Moves slots (f slots) (read a) (read a)) {n n₁ : Nat} {bs : List β}
    (hr : (as.mapM read).run n = .ok (bs, n₁)) :
    ∃ (slots : Equiv.Perm Nat) (bs' : List β), (∀ j, j < n ∨ n₁ ≤ j → slots j = j) ∧
      (as'.mapM read).run n = .ok (bs', n₁) ∧ (bs.map (f slots)).Perm bs' := by
  induction h generalizing n n₁ bs with
  | nil =>
    cases hr
    exact ⟨.refl Nat, [], fun _ _ => rfl, rfl, .refl _⟩
  | cons a _ ih =>
    obtain ⟨b, n', rest, hb, hrest, rfl⟩ := mapM_cons_ends.1 hr
    obtain ⟨slots, rest', hfix, hrest', hperm⟩ := ih (fun a ha => hread a (List.mem_cons_of_mem _ ha)) hrest
    obtain ⟨u, rfl, hmoves⟩ := hread a List.mem_cons_self slots n b n' hb
    refine ⟨slots, f slots b :: rest', fun j hj => hfix j (hj.imp_left fun hlt => Nat.lt_add_right u hlt), ?_,
      hperm.cons _⟩
    have hb' := hmoves n fun j hj => hfix _ (Or.inl (Nat.add_lt_add_left hj n))
    exact mapM_cons_ends.2 ⟨_, _, rest', hb', hrest', rfl⟩
  | swap a a' as =>
    obtain ⟨b', n', rest, hb', hrest, rfl⟩ := mapM_cons_ends.1 hr
    obtain ⟨b, n'', rest, hb, hrest, rfl⟩ := mapM_cons_ends.1 hrest
    -- The slots of the two values are exchanged, and all others stay.
    obtain ⟨u, rfl, -⟩ := hread a' (by simp) id n b' n' hb'
    obtain ⟨v, rfl, -⟩ := hread a (by simp) id (n + u) b n'' hb
    let slots := above n (exchange u v)
    have hfirst : ∀ j < u, slots (n + j) = n + v + j := fun j hj => by
      rw [above_add, exchange_of_lt hj, Nat.add_assoc]
    have hsecond : ∀ j < v, slots (n + u + j) = n + j := fun j hj => by
      rw [Nat.add_assoc, above_add, exchange_add_of_lt hj]
    have hrest_fix : ∀ j, slots (n + u + v + j) = n + v + u + j := fun j => by
      rw [Nat.add_assoc, Nat.add_assoc, above_add, exchange_add]
      omega
    obtain ⟨_, hu, hmoves'⟩ := hread a' (by simp) slots n b' _ hb'
    obtain ⟨_, hv, hmoves⟩ := hread a (by simp) slots _ b _ hb
    obtain ⟨w, rfl, hmoves_rest⟩ :=
      moves_mapM (fun a ha => hread a (by simp [ha]) slots) _ rest _ hrest
    cases Nat.add_left_cancel hu
    cases Nat.add_left_cancel hv
    refine ⟨slots, f slots b :: f slots b' :: rest.map (f slots), fun j hj => ?_, ?_, .swap ..⟩
    · rcases hj with hlt | hge
      · exact above_of_lt _ hlt
      · obtain ⟨k, rfl⟩ := Nat.exists_eq_add_of_le hge
        rw [Nat.add_assoc (n + u + v), hrest_fix]
        omega
    · have hsize : n + v + u + w = n + u + v + w := by omega
      refine mapM_cons_ends.2 ⟨_, _, _, hmoves n hsecond, ?_, rfl⟩
      refine mapM_cons_ends.2 ⟨_, _, _, hmoves' (n + v) hfirst, ?_, rfl⟩
      exact hsize ▸ hmoves_rest (n + v + u) fun j _ => hrest_fix j
  | trans h _ ih ih' =>
    obtain ⟨slots, bs', hfix, hbs', hperm⟩ := ih hread hr
    obtain ⟨slots', bs'', hfix', hbs'', hperm'⟩ := ih' (fun a ha => hread a (h.mem_iff.2 ha)) hbs'
    refine ⟨slots.trans slots', bs'', fun j hj => ?_, hbs'', ?_⟩
    · rw [Equiv.trans_apply, hfix j hj, hfix' j hj]
    · have hmap := (hperm.map (f slots')).trans hperm'
      rw [List.map_map] at hmap
      exact (List.map_congr_left fun b _ => (hcomp slots slots' b).symm) ▸ hmap

variable {l : Library ω η} {bare bare' g g' : Flow.Graph ω η} {pending pending' : List (NodeId × Parts)}
  {ids : Equiv.Perm NodeId} {ρ : Renaming}

/-- Reads what is pending for one node. -/
def readContent (l : Library ω η) (bare : Flow.Graph ω η) (p : NodeId × Parts) :
    Reading (NodeId × Subject.Content ω η) := do
  return (p.1, ← Subject.content ⟨l, bare, p.1⟩ p.2)

/-- The graph with contents put into its nodes. -/
def fillAll (g : Flow.Graph ω η) (contents : List (NodeId × Subject.Content ω η)) : Flow.Graph ω η :=
  contents.foldl (fun g c => g.modify c.1 c.2.fill) g

/-- The second pass reads everything and puts it into the graph. -/
theorem populateAll_eq_ok {n n₁ : Nat} :
    (pending.foldlM (fun g (id, parts) => populate l bare g id parts) g).run n = .ok (g', n₁) ↔
      ∃ contents, (pending.mapM (readContent l bare)).run n = .ok (contents, n₁) ∧
        g' = fillAll g contents := by
  induction pending generalizing g n with
  | nil =>
    constructor
    · intro h
      cases h
      exact ⟨[], rfl, rfl⟩
    · rintro ⟨contents, h, rfl⟩
      cases h
      rfl
  | cons p rest ih =>
    rw [List.foldlM_cons, StateT.run_bind, bind_eq_ok]
    constructor
    · rintro ⟨⟨g₁, n'⟩, hp, h⟩
      have hp : (populate l bare g p.1 p.2).run n = .ok (g₁, n') := hp
      unfold populate at hp
      rw [StateT.run_bind] at hp
      obtain ⟨⟨c, n''⟩, hc, hp⟩ := bind_eq_ok.1 hp
      cases hp
      obtain ⟨contents, hcontents, rfl⟩ := ih.1 h
      exact ⟨(p.1, c) :: contents,
        mapM_cons_ends.2 ⟨_, _, _, bind_eq_ok.2 ⟨(c, n''), hc, rfl⟩, hcontents, rfl⟩, rfl⟩
    · rintro ⟨contents, h, rfl⟩
      obtain ⟨c, n', rest', hc, hrest, rfl⟩ := mapM_cons_ends.1 h
      rw [readContent, StateT.run_bind] at hc
      obtain ⟨⟨c, n''⟩, hcontent, hp⟩ := bind_eq_ok.1 hc
      cases hp
      exact ⟨(g.modify p.1 c.fill, n''), bind_eq_ok.2 ⟨(c, n''), hcontent, rfl⟩,
        ih.2 ⟨rest', hrest, rfl⟩⟩

@[simp] theorem size_fillAll (g : Flow.Graph ω η) (contents : List (NodeId × Subject.Content ω η)) :
    (fillAll g contents).size = g.size := by
  induction contents generalizing g with
  | nil => rfl
  | cons c rest ih => exact (ih _).trans (Graph.size_modify ..)

theorem node_fillAll_of_notMem {contents : List (NodeId × Subject.Content ω η)} {id : NodeId}
    (h : id ∉ contents.map Prod.fst) : (fillAll g contents).node id = g.node id := by
  induction contents generalizing g with
  | nil => rfl
  | cons c rest ih =>
    rw [List.map_cons, List.mem_cons, not_or] at h
    exact (ih h.2).trans (Graph.node_modify_of_ne c.2.fill h.1)

/-- Content that is put in once is what the node has in the end. -/
theorem node_fillAll {contents : List (NodeId × Subject.Content ω η)} {id : NodeId}
    {c : Subject.Content ω η} (hnodup : (contents.map Prod.fst).Nodup) (hc : (id, c) ∈ contents)
    (hid : id < g.size) : (fillAll g contents).node id = c.fill (g.node id) := by
  induction contents generalizing g with
  | nil => cases hc
  | cons c' rest ih =>
    rw [List.map_cons, List.nodup_cons] at hnodup
    have hsize : id < (g.modify c'.1 c'.2.fill).size := by simpa using hid
    rcases List.mem_cons.1 hc with rfl | hmem
    · refine (node_fillAll_of_notMem hnodup.1).trans ?_
      rw [Graph.node_modify c.fill hid, if_pos rfl]
    · have hne : id ≠ c'.1 := fun heq => hnodup.1 (heq ▸ List.mem_map_of_mem hmem)
      refine (ih hnodup.2 hmem hsize).trans ?_
      rw [Graph.node_modify_of_ne c'.2.fill hne]

theorem fill_rename (c : Subject.Content ω η) (n : Node ω η) (slots : Nat → Nat) :
    (c.rename ρ).fill (n.rename ⟨ρ.ids, slots⟩) = (c.fill n).rename ρ := by
  cases hs : n.spec <;>
    simp [Subject.Content.fill, Subject.Content.rename, Node.rename, NodeSpec.rename, hs]

/-- The same contents in the same nodes, up to a renaming and in another order. -/
theorem matches_fillAll {contents contents' : List (NodeId × Subject.Content ω η)}
    (h : bare.Matches (.ofIds ρ.ids) bare') (hids : (contents.map Prod.fst).Perm bare.ids)
    (hperm : (contents.map (Prod.map ρ.ids (Subject.Content.rename ρ))).Perm contents') :
    (fillAll bare contents).Matches ρ (fillAll bare' contents') := by
  have hlt {id : NodeId} : ρ.ids id < bare.size ↔ id < bare.size := h.lt_iff
  refine ⟨h.bijective, by simpa using h.size_eq, fun {id} => by simpa using hlt, fun {id} hid => ?_⟩
  rw [size_fillAll] at hid
  have hnodup : (contents.map Prod.fst).Nodup := hids.nodup_iff.2 List.nodup_range
  have hmap : (contents'.map Prod.fst).Perm ((contents.map Prod.fst).map ρ.ids) := by
    simpa [List.map_map, Function.comp_def] using (hperm.map Prod.fst).symm
  have hnodup' : (contents'.map Prod.fst).Nodup :=
    hmap.nodup_iff.2 (hnodup.map h.bijective.injective)
  obtain ⟨⟨_, c⟩, hc, rfl⟩ := List.mem_map.1 (hids.mem_iff.2 (List.mem_range.2 hid))
  have hc' : (ρ.ids _, c.rename ρ) ∈ contents' := hperm.mem_iff.1 (List.mem_map_of_mem hc)
  have hid' := h.size_eq ▸ h.lt_iff.2 hid
  rw [node_fillAll hnodup' hc' hid', node_fillAll hnodup hc hid]
  have hnode := h.node_eq hid
  rw [Renaming.ids_ofIds] at hnode
  rw [hnode]
  exact fill_rename c _ id

theorem fst_readContents {n n₁ : Nat} {contents : List (NodeId × Subject.Content ω η)}
    (h : (pending.mapM (readContent l bare)).run n = .ok (contents, n₁)) :
    contents.map Prod.fst = pending.map Prod.fst := by
  induction pending generalizing n contents with
  | nil =>
    cases h
    rfl
  | cons p rest ih =>
    obtain ⟨c, n', rest', hc, hrest, rfl⟩ := mapM_cons_ends.1 h
    rw [readContent, StateT.run_bind] at hc
    obtain ⟨⟨c, n''⟩, -, hp⟩ := bind_eq_ok.1 hc
    cases hp
    rw [List.map_cons, List.map_cons, ih hrest]

theorem moves_readContent {ids : NodeId → NodeId} (h : bare.Matches (.ofIds ids) bare')
    (hb : bare.Bare l.members) (hb' : bare'.Bare l.members) (hd : bare.Distinct) {p : NodeId × Parts}
    (hp : p.1 < bare.size) (slots : Nat → Nat) :
    Moves slots (Prod.map ids (Subject.Content.rename ⟨ids, slots⟩)) (readContent l bare p)
      (readContent l bare' (Prod.map ids id p)) := by
  have hs : Subject.Matches ⟨ids, slots⟩ (⟨l, bare, p.1⟩ : Subject ω η) ⟨l, bare', ids p.1⟩ :=
    ⟨rfl, h.of_ids hb rfl, rfl, hp, hd, hb.wellFormed, hb'.wellFormed⟩
  exact moves_bind (Subject.moves_content hs p.2) fun c => moves_pure rfl

/-- The second pass does not depend on the order of the forms either. -/
theorem exists_filled {d d' : Declarations ω η} {filled : Flow.Graph ω η} {n : Nat} (h : d.Alike ids d')
    (hb : d.draft.graph.Bare l.members) (hb' : d'.draft.graph.Bare l.members)
    (hd : d.draft.graph.Distinct) (hpending : (d.draft.pending.map Prod.fst).Perm d.draft.graph.ids)
    (hfilled : (d.draft.pending.foldlM (fun g (id, parts) => populate l d.draft.graph g id parts)
      d.draft.graph).run 0 = .ok (filled, n)) :
    ∃ (slots : Equiv.Perm Nat) (filled' : Flow.Graph ω η),
      (d'.draft.pending.foldlM (fun g (id, parts) => populate l d'.draft.graph g id parts)
        d'.draft.graph).run 0 = .ok (filled', n) ∧ filled.Matches ⟨ids, slots⟩ filled' := by
  obtain ⟨contents, hcontents, rfl⟩ := populateAll_eq_ok.1 hfilled
  have hlt {p : NodeId × Parts} (hp : p ∈ d.draft.pending) : p.1 < d.draft.graph.size :=
    List.mem_range.1 (hpending.mem_iff.1 (List.mem_map_of_mem hp))
  -- First the same order and other identifiers, then another order and other slots.
  obtain ⟨u, hu, hmoved⟩ := moves_mapM (fun p hp => moves_readContent h.graph hb hb' hd (hlt hp) id)
    0 contents n hcontents
  have hrenamed : ((d.draft.pending.map (Prod.map ids id)).mapM (readContent l d'.draft.graph)).run 0 =
      .ok (contents.map (Prod.map ids (Subject.Content.rename ⟨ids, id⟩)), n) := by
    rw [List.mapM_map]
    exact hu ▸ hmoved 0 fun j _ => rfl
  have hself : ∀ p ∈ d.draft.pending.map (Prod.map ids id), ∀ slots,
      Moves slots (Prod.map (fun id => id) (Subject.Content.rename ⟨fun id => id, slots⟩))
        (readContent l d'.draft.graph p) (readContent l d'.draft.graph p) := by
    intro p' hp' slots
    obtain ⟨p, hp, rfl⟩ := List.mem_map.1 hp'
    exact moves_readContent hb'.matches_self hb' hb' (hd.of_matches h.graph)
      (h.graph.size_eq ▸ h.graph.lt_iff.2 (hlt hp)) slots
  have hcomp (slots slots' : Nat → Nat) (c : NodeId × Subject.Content ω η) :
      Prod.map (fun id => id) (Subject.Content.rename ⟨fun id => id, slots'⟩)
        (Prod.map (fun id => id) (Subject.Content.rename ⟨fun id => id, slots⟩) c) =
      Prod.map (fun id => id) (Subject.Content.rename ⟨fun id => id, slots' ∘ slots⟩) c :=
    Prod.ext rfl (Subject.Content.rename_rename ..)
  obtain ⟨slots, contents', -, hcontents', hperm⟩ := exists_slots_of_perm hcomp h.pending hself hrenamed
  refine ⟨slots, _, populateAll_eq_ok.2 ⟨contents', hcontents', rfl⟩, ?_⟩
  rw [List.map_map, Prod.map_comp_map] at hperm
  refine matches_fillAll h.graph (fst_readContents hcontents ▸ hpending) ?_
  simpa [Function.comp_def, Renaming.trans] using hperm

end ChatFlow.Document
