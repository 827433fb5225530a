import ChatFlow.Flow.Route
import ChatFlow.Proofs.Flow.Paths
import ChatFlow.Proofs.Results

/-! What holds of every hop of a route, taken at the position from which it is fired. -/
namespace ChatFlow.Flow
variable {ω η : Type}

/-- A property of every hop of a list, each at the position to which the hops before it lead. -/
def Along (g : Graph ω η) (P : Navigation → Hop ω η → Prop) : Navigation → List (Hop ω η) → Prop
  | _, [] => True
  | n, h :: rest => P n h ∧ Along g P (n.advance g h) rest

/-- The position after some hops. -/
def Navigation.follow (n : Navigation) (g : Graph ω η) (hops : List (Hop ω η)) : Navigation :=
  hops.foldl (fun n h => n.advance g h) n

section
variable {g : Graph ω η} {P : Navigation → Hop ω η → Prop} {n : Navigation} {h : Hop ω η}
  {hops before after : List (Hop ω η)}

@[simp] theorem Navigation.advance_current (n : Navigation) (g : Graph ω η) (h : Hop ω η) :
    (n.advance g h).current = some h.target := rfl

/-- A hop leaves some of the trees waiting that waited before; only a jump into another tree adds the one
that it leaves. -/
theorem Navigation.callersAfter_cases (n : Navigation) (g : Graph ω η) (h : Hop ω η) :
    (n.callersAfter g h).Sublist n.callers ∨
      ∃ t id, h.via = some t ∧ t.move = .jump ∧ n.current = some id ∧ g.tree id ≠ g.tree h.target ∧
        n.callersAfter g h = n.callers ++ [⟨g.tree id, t.site⟩] := by
  unfold callersAfter
  split
  · next t hvia =>
    split
    · exact Or.inl (List.dropLast_sublist _)
    · exact Or.inl (List.Sublist.refl _)
    · next hmove =>
      split
      · next id hid =>
        split
        · next haway => exact Or.inr ⟨t, id, hvia, hmove, hid, haway, rfl⟩
        · exact Or.inl (List.Sublist.refl _)
      · exact Or.inl (List.Sublist.refl _)
  · split
    · exact Or.inl (List.nil_sublist _)
    · exact Or.inl (List.Sublist.refl _)

/-- A hop leaves no tree waiting that did not wait before, but that of the jump which it fires. -/
theorem Navigation.mem_callersAfter {c : Caller} (hc : c ∈ n.callersAfter g h) :
    c ∈ n.callers ∨ ∃ t id, h.via = some t ∧ n.current = some id ∧ c = ⟨g.tree id, t.site⟩ := by
  rcases n.callersAfter_cases g h with hsub | ⟨t, id, hvia, _, hid, _, hcallers⟩
  · exact Or.inl (hsub.subset hc)
  · rw [hcallers] at hc
    rcases List.mem_append.1 hc with hc | hc
    · exact Or.inl hc
    · exact Or.inr ⟨t, id, hvia, hid, List.mem_singleton.1 hc⟩

theorem along_append :
    Along g P n (before ++ after) ↔ Along g P n before ∧ Along g P (n.follow g before) after := by
  induction before generalizing n with
  | nil => simp [Along, Navigation.follow]
  | cons h rest ih => simp [Along, Navigation.follow, ih, and_assoc]

theorem Along.at_split (ha : Along g P n hops) (hs : hops = before ++ h :: after) :
    P (n.follow g before) h := by
  subst hs
  exact (along_append.1 ha).2.1

theorem along_iff_at_split : Along g P n hops ↔
    ∀ before h after, hops = before ++ h :: after → P (n.follow g before) h := by
  refine ⟨fun ha _ _ _ hs => ha.at_split hs, ?_⟩
  intro hall
  induction hops generalizing n with
  | nil => trivial
  | cons h rest ih =>
    refine ⟨hall [] h rest rfl, ih fun before h' after hs => ?_⟩
    exact hall (h :: before) h' after (by rw [hs, List.cons_append])

theorem along_iff_mem {Q : Hop ω η → Prop} :
    Along g (fun _ h => Q h) n hops ↔ ∀ h ∈ hops, Q h := by
  induction hops generalizing n with
  | nil => simp [Along]
  | cons h rest ih => simp [Along, ih]

theorem Along.of_isPrefix (ha : Along g P n hops) (hp : before <+: hops) : Along g P n before := by
  obtain ⟨rest, rfl⟩ := hp
  exact (along_append.1 ha).1

theorem Along.imp₂ {Q R : Navigation → Hop ω η → Prop} (hr : ∀ n h, P n h → Q n h → R n h)
    (hp : Along g P n hops) (hq : Along g Q n hops) : Along g R n hops := by
  induction hops generalizing n with
  | nil => trivial
  | cons h rest ih => exact ⟨hr n h hp.1 hq.1, ih hp.2 hq.2⟩

theorem along_true (hops : List (Hop ω η)) : Along g (fun _ _ => True) n hops := by
  induction hops generalizing n with
  | nil => trivial
  | cons h rest ih => exact ⟨trivial, ih⟩

end

namespace Router
variable {r : Router ω η} {n : Navigation} {t : Transition ω η} {h : Hop ω η}
  {hops : List (Hop ω η)} {left : Nat} {e : FlowError}

/-- Everything that firing a transition can do, unless it is dropped. -/
theorem step_eq_some (hs : r.step n t = some h) :
    r.gated n.current (r.targetOf t n) = some h.target ∧
      h = .between r.graph n.current h.target (r.commonWith n.current h.target) (some t)
        (r.completedBy t n) := by
  obtain ⟨target, ht, rfl⟩ := Option.map_eq_some_iff.1 hs
  exact ⟨ht, rfl⟩

theorem step_via (hs : r.step n t = some h) : h.via = some t := by
  rw [(step_eq_some hs).2]
  rfl

theorem step_origin (hs : r.step n t = some h) : h.origin = n.current := by
  rw [(step_eq_some hs).2]
  rfl

theorem step_resumes (hs : r.step n t = some h) : h.resumes = r.completedBy t n := by
  rw [(step_eq_some hs).2]
  rfl

/-- A jump aims at its target wherever it is fired. -/
theorem targetOf_jump (hmove : t.move = .jump) {target : NodeId} (ht : t.target = some target) :
    r.targetOf t n = target := by
  simp [targetOf, hmove, ht]

theorem chain_of_no_followUp (hnone : h.followUp? r.graph = none) (left : Nat) :
    r.chain n h left = .ok [h] := by
  rw [chain, hnone]

theorem chain_zero_eq_ok : r.chain n h 0 = .ok hops ↔ h.followUp? r.graph = none ∧ hops = [h] := by
  rw [chain]
  cases h.followUp? r.graph <;> simp [eq_comm (a := hops)]

theorem chain_zero_eq_error : r.chain n h 0 = .error e ↔
    (∃ t, h.followUp? r.graph = some t) ∧ e = .transitionChain r.limit := by
  rw [chain]
  cases h.followUp? r.graph <;> simp [eq_comm (a := e)]

/-- While hops are left, it does not matter whether no transition is due or the one that is due is denied. -/
theorem chain_succ (r : Router ω η) (n : Navigation) (h : Hop ω η) (left : Nat) :
    r.chain n h (left + 1) =
      match (h.followUp? r.graph).bind (r.step (n.advance r.graph h)) with
      | none => .ok [h]
      | some next => (h :: ·) <$> r.chain (n.advance r.graph h) next left := by
  rw [chain]
  cases ht : h.followUp? r.graph with
  | none => rfl
  | some t =>
    simp only [Option.bind_some]
    cases hs : r.step (n.advance r.graph h) t <;> rfl

theorem chain_succ_eq_ok : r.chain n h (left + 1) = .ok hops ↔
    ((h.followUp? r.graph).bind (r.step (n.advance r.graph h)) = none ∧ hops = [h]) ∨
    ∃ next rest, (h.followUp? r.graph).bind (r.step (n.advance r.graph h)) = some next ∧
      r.chain (n.advance r.graph h) next left = .ok rest ∧ hops = h :: rest := by
  rw [chain_succ]
  cases (h.followUp? r.graph).bind (r.step (n.advance r.graph h)) with
  | none => simp [eq_comm (a := hops)]
  | some next => simp [map_eq_ok, eq_comm (a := hops)]

theorem chain_succ_eq_error : r.chain n h (left + 1) = .error e ↔
    ∃ next, (h.followUp? r.graph).bind (r.step (n.advance r.graph h)) = some next ∧
      r.chain (n.advance r.graph h) next left = .error e := by
  rw [chain_succ]
  cases (h.followUp? r.graph).bind (r.step (n.advance r.graph h)) with
  | none => simp
  | some next => simp [map_eq_error]

/-- A chain ends with its first hop, or goes on with the hop that this one's follow-up fires. -/
theorem chain_eq_ok (hc : r.chain n h left = .ok hops) :
    hops = [h] ∨ ∃ t h' left' rest, h.followUp? r.graph = some t ∧ left = left' + 1 ∧
      r.step (n.advance r.graph h) t = some h' ∧
      r.chain (n.advance r.graph h) h' left' = .ok rest ∧ hops = h :: rest := by
  cases left with
  | zero => exact Or.inl (chain_zero_eq_ok.1 hc).2
  | succ left =>
    rcases chain_succ_eq_ok.1 hc with ⟨_, hend⟩ | ⟨h', rest, hnext, hrest, hgoes⟩
    · exact Or.inl hend
    · obtain ⟨t, ht, hs⟩ := Option.bind_eq_some_iff.1 hnext
      exact Or.inr ⟨t, h', left, rest, ht, rfl, hs, hrest, hgoes⟩

/-- What holds of the first hop holds along a chain if it passes from each hop to its follow-up, where it
may be taken for granted that the hops are as some other property says. -/
theorem chain_along_while {P K : Navigation → Hop ω η → Prop}
    (next : ∀ n h t h', P n h → K n h → h.followUp? r.graph = some t →
      r.step (n.advance r.graph h) t = some h' → P (n.advance r.graph h) h')
    (first : P n h) (hc : r.chain n h left = .ok hops) (hk : Along r.graph K n hops) :
    Along r.graph P n hops := by
  induction left generalizing n h hops with
  | zero =>
    rcases chain_eq_ok hc with rfl | ⟨_, _, _, _, _, hleft, _⟩
    · exact ⟨first, trivial⟩
    · cases hleft
  | succ left ih =>
    rcases chain_eq_ok hc with rfl | ⟨t, h', _, rest, ht, hleft, hs, hrest, rfl⟩
    · exact ⟨first, trivial⟩
    · cases hleft
      exact ⟨first, ih (next n h t h' first hk.1 ht hs) hrest hk.2⟩

/-- What holds of the first hop and passes from each hop to its follow-up holds along a chain. -/
theorem chain_along {P : Navigation → Hop ω η → Prop}
    (next : ∀ n h t h', P n h → h.followUp? r.graph = some t →
      r.step (n.advance r.graph h) t = some h' → P (n.advance r.graph h) h')
    (first : P n h) (hc : r.chain n h left = .ok hops) : Along r.graph P n hops :=
  chain_along_while (fun n h t h' hp _ => next n h t h' hp) first hc
    (along_true hops)

/-- A transition that is not denied starts a chain. -/
theorem follow_eq_ok (hf : r.follow n t = .ok (some hops)) :
    ∃ h, r.step n t = some h ∧ r.chain n h r.limit = .ok hops := by
  unfold follow at hf
  cases hs : r.step n t with
  | none => simp [hs] at hf
  | some h =>
    rw [hs] at hf
    obtain ⟨hops', hc, he⟩ := map_eq_ok.1 hf
    cases he
    exact ⟨h, rfl, hc⟩

theorem chain_head (hc : r.chain n h left = .ok hops) : ∃ rest, hops = h :: rest := by
  rcases chain_eq_ok hc with rfl | ⟨_, _, _, rest, _, _, _, _, rfl⟩
  · exact ⟨[], rfl⟩
  · exact ⟨rest, rfl⟩

end Router
end ChatFlow.Flow
