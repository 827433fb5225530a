import ChatFlow.Proofs.Flow.Routes

/-! Along a route, nodes are left from the innermost one outwards and entered inwards; a node is left
again only after it has been entered again. -/
namespace ChatFlow.Flow
variable {ω η : Type} {g : Graph ω η} {r : Router ω η} {n : Navigation} {h : Hop ω η}
  {hops before after : List (Hop ω η)} {active : List NodeId} {id : NodeId}

/-- The routes that can be resolved at a position. -/
inductive Router.Resolves (r : Router ω η) (n : Navigation) : List (Hop ω η) → Prop where
  | routeTo {target : NodeId} {hops : List (Hop ω η)} (h : r.routeTo n target = .ok hops) :
    Resolves r n hops
  | enterTree {tree : NodeId} {hops : List (Hop ω η)} (h : r.enterTree n tree = .ok hops) :
    Resolves r n hops
  | follow {t : Transition ω η} {hops : List (Hop ω η)} (h : r.follow n t = .ok (some hops)) :
    Resolves r n hops

/-- The active nodes after a hop: those it leaves are taken off the inner end, and those it enters
are put on there. -/
def Hop.activate (active : List NodeId) (h : Hop ω η) : List NodeId :=
  active.rdrop h.exits.length ++ h.enters

/-- A hop leaves the inner end of the active path and enters the rest of the path to its target. -/
structure Hop.Fits (g : Graph ω η) (active : List NodeId) (h : Hop ω η) : Prop where
  exits_suffix : h.exits.reverse <:+ active
  nodup_exits : h.exits.Nodup
  enters_inactive : ∀ id ∈ h.enters, id ∉ active.rdrop h.exits.length
  activate_eq : h.activate active = g.pathTo h.target

/-- A hop that starts where the session stands and joins the two paths. -/
def Hop.Moves (g : Graph ω η) (n : Navigation) (h : Hop ω η) : Prop :=
  h.origin = n.current ∧ h.Joins g

@[simp] theorem Hop.rdrop_exits (kept : List NodeId) (h : Hop ω η) :
    (kept ++ h.exits.reverse).rdrop h.exits.length = kept := by
  simp [List.rdrop]

theorem Hop.Moves.fits (hm : h.Moves g n) : h.Fits g (n.path g) := by
  obtain ⟨ho, kept, hpath, htarget⟩ := hm
  rw [ho] at hpath
  have hkept : (n.path g).rdrop h.exits.length = kept := by
    rw [Navigation.path, hpath, rdrop_exits]
  refine ⟨⟨kept, hpath.symm⟩, ?_, ?_, ?_⟩
  · have hnd := n.nodup_path g
    rw [Navigation.path, hpath] at hnd
    exact List.nodup_reverse.1 hnd.of_append_right
  · have hnd := g.nodup_pathTo h.target
    rw [htarget] at hnd
    rw [hkept]
    intro id hid hmem
    exact (List.disjoint_of_nodup_append hnd) hmem hid
  · rw [Hop.activate, hkept, htarget]

namespace Router

theorem mem_of_commonWith {origin : Option NodeId} {target c : NodeId}
    (hc : r.commonWith origin target = some c) :
    c ∈ r.graph.ancestors target ∧ ∀ id, origin = some id → c ∈ r.graph.ancestors id := by
  obtain ⟨id, hid, hc⟩ := Option.bind_eq_some_iff.1 hc
  obtain ⟨ha, hb⟩ := Graph.mem_of_commonAncestor hc
  refine ⟨hb, ?_⟩
  intro id' hid'
  rw [hid] at hid'
  cases hid'
  exact ha

theorem between_commonWith_moves (r : Router ω η) (n : Navigation) (target : NodeId)
    (via : Option (Transition ω η)) (resumes : List (Transition ω η)) :
    (Hop.between r.graph n.current target (r.commonWith n.current target) via resumes).Moves
      r.graph n := by
  refine ⟨rfl, Hop.between_joins (fun c => mem_of_commonWith) fun ho => ?_⟩
  simp [commonWith, ho]

theorem step_moves {t : Transition ω η} (hs : r.step n t = some h) : h.Moves r.graph n := by
  rw [(step_eq_some hs).2]
  exact between_commonWith_moves ..

/-- A resolved route is a chain within the whole limit. -/
theorem Resolves.chain (hr : r.Resolves n hops) : ∃ h, r.chain n h r.limit = .ok hops := by
  cases hr with
  | routeTo hr => exact ⟨_, hr⟩
  | enterTree hr => exact ⟨_, hr⟩
  | follow hr =>
    obtain ⟨h, _, hc⟩ := follow_eq_ok hr
    exact ⟨h, hc⟩

theorem Resolves.ne_nil (hr : r.Resolves n hops) : hops ≠ [] := by
  obtain ⟨first, hc⟩ := hr.chain
  obtain ⟨rest, rfl⟩ := chain_head hc
  exact List.cons_ne_nil first rest

/-- Every hop of a route starts where the hop before it ends. -/
theorem Resolves.moves (hr : r.Resolves n hops) : Along r.graph (Hop.Moves r.graph) n hops := by
  have next : ∀ n h t h', Hop.Moves r.graph n h → h.followUp? r.graph = some t →
      r.step (n.advance r.graph h) t = some h' → Hop.Moves r.graph (n.advance r.graph h) h' :=
    fun _ _ _ _ _ _ hs => step_moves hs
  cases hr with
  | routeTo hr => exact chain_along next (between_commonWith_moves ..) hr
  | enterTree hr =>
    exact chain_along next ⟨rfl, Hop.between_joins (fun _ hc => by cases hc) (fun _ => rfl)⟩ hr
  | follow hr =>
    obtain ⟨h, hs, hc⟩ := follow_eq_ok hr
    exact chain_along next (step_moves hs) hc

end Router

/-- Taking hops off and on the path keeps it the path of the current node. -/
theorem foldl_activate_eq_path (ha : Along g (Hop.Moves g) n hops) :
    hops.foldl Hop.activate (n.path g) = (n.follow g hops).path g := by
  induction hops generalizing n with
  | nil => rfl
  | cons h rest ih =>
    have hpath : h.activate (n.path g) = (n.advance g h).path g := ha.1.fits.activate_eq
    rw [List.foldl_cons, hpath]
    exact ih ha.2

theorem Along.fits (ha : Along g (Hop.Moves g) n hops) (hs : hops = before ++ h :: after) :
    h.Fits g (before.foldl Hop.activate (n.path g)) := by
  have hbefore := ha.of_isPrefix ⟨h :: after, hs.symm⟩
  rw [foldl_activate_eq_path hbefore]
  exact (ha.at_split hs).fits

theorem not_mem_foldl_activate (hid : id ∉ active) (he : ∀ h ∈ hops, id ∉ h.enters) :
    id ∉ hops.foldl Hop.activate active := by
  induction hops generalizing active with
  | nil => exact hid
  | cons h rest ih =>
    refine ih ?_ fun h' hh' => he h' (List.mem_cons_of_mem _ hh')
    rw [Hop.activate, List.mem_append, not_or]
    exact ⟨fun hmem => hid (List.mem_of_mem_take hmem), he h List.mem_cons_self⟩

/-- A node that is left is inactive until it is entered. -/
theorem Hop.Fits.not_mem_activate (hf : h.Fits g active) (hn : active.Nodup) (hid : id ∈ h.exits)
    (he : id ∉ h.enters) : id ∉ h.activate active := by
  obtain ⟨kept, rfl⟩ := hf.exits_suffix
  rw [activate, rdrop_exits, List.mem_append, not_or]
  exact ⟨fun hk => List.disjoint_of_nodup_append hn hk (List.mem_reverse.2 hid), he⟩

/-- Along every route from a position, each hop leaves the inner end of the active path, innermost
node first, and enters the rest of the path to its target. So no node is left that is not active,
none is entered that is active, and none is left twice without being entered in between. -/
theorem route_exits_and_enters (hr : r.Resolves n hops) :
    (∀ before h after, hops = before ++ h :: after →
      h.Fits r.graph (before.foldl Hop.activate (n.path r.graph))) ∧
    ∀ before first between second after id,
      hops = before ++ first :: between ++ second :: after →
      id ∈ first.exits → id ∈ second.exits → ∃ h ∈ first :: between, id ∈ h.enters := by
  have ha := hr.moves
  refine ⟨fun before h after hs => ha.fits hs, ?_⟩
  intro before first between second after id hs h₁ h₂
  by_contra hne
  have henters : ∀ h ∈ first :: between, id ∉ h.enters := fun h hh he => hne ⟨h, hh, he⟩
  have hs₁ : hops = before ++ first :: (between ++ second :: after) := by simp [hs]
  have hbefore := ha.of_isPrefix ⟨first :: (between ++ second :: after), hs₁.symm⟩
  have hnodup : (before.foldl Hop.activate (n.path r.graph)).Nodup := by
    rw [foldl_activate_eq_path hbefore]
    exact Navigation.nodup_path _ _
  have hout := (ha.fits hs₁).not_mem_activate hnodup h₁ (henters first List.mem_cons_self)
  have hstill := not_mem_foldl_activate hout fun h hh => henters h (List.mem_cons_of_mem _ hh)
  have hactive := (ha.fits hs).exits_suffix.subset (List.mem_reverse.2 h₂)
  rw [List.foldl_append, List.foldl_cons] at hactive
  exact hstill hactive

/-- A branch of the first tree jumps to the second, which returns to its caller. -/
def errand : Router Unit Unit where
  graph := ⟨[
    { Node.fresh "Main" (.tree ⟨.none, none, none, none⟩) with children := [1] },
    { Node.fresh "Go" (.branch ⟨.none, none⟩) with
      parent := some 0, depth := 1, transitions := [⟨.jump, some 2, .plain, [], some ⟨1, 0⟩⟩] },
    { Node.fresh "Side" (.tree ⟨.none, none, none, none⟩) with
      tree := 2, transitions := [⟨.caller, none, .plain, [], some ⟨2, 0⟩⟩] }], ∅⟩
  limit := 16
  gate := none

/-- The branch is entered, left together with its tree, and the tree is entered again. -/
theorem errand_exits_and_enters : ∃ hops, errand.routeTo (.standing 0) 1 = .ok hops ∧
    (hops.map fun h => (h.exits, h.enters)) = [([], [1]), ([1, 0], [2]), ([2], [0])] ∧
    ∀ before h after, hops = before ++ h :: after →
      h.Fits errand.graph (before.foldl Hop.activate ((Navigation.standing 0).path errand.graph)) := by
  have hok : (errand.routeTo (.standing 0) 1).isOk = true := by decide +kernel
  refine ⟨_, eq_ok_of_isOk hok, by decide +kernel, ?_⟩
  exact (route_exits_and_enters (.routeTo (eq_ok_of_isOk hok))).1

end ChatFlow.Flow
