import ChatFlow.Proofs.Flow.EntryExit
import ChatFlow.Proofs.Flow.Sound

/-! A tree that is not left stays the current one, and the actions of a hop belong to the trees at its
ends. -/
namespace ChatFlow.Flow
variable {ω η : Type} {g : Graph ω η} {n : Navigation} {h : Hop ω η} {a : Action ω η}
  {hops before after : List (Hop ω η)} {tree : NodeId}

/-- Whether the current node of a position belongs to a tree. -/
def Navigation.StandsIn (n : Navigation) (g : Graph ω η) (tree : NodeId) : Prop :=
  n.current.map g.tree = some tree

theorem Navigation.follow_append (n : Navigation) (g : Graph ω η) (before after : List (Hop ω η)) :
    n.follow g (before ++ after) = (n.follow g before).follow g after := List.foldl_append

theorem Navigation.follow_cons (n : Navigation) (g : Graph ω η) (h : Hop ω η)
    (rest : List (Hop ω η)) : n.follow g (h :: rest) = (n.advance g h).follow g rest := rfl

theorem Navigation.exists_current_of_follow (hops : List (Hop ω η)) (hne : hops ≠ []) :
    ∃ id, (n.follow g hops).current = some id := by
  induction hops generalizing n with
  | nil => exact absurd rfl hne
  | cons h rest ih =>
    by_cases hrest : rest = []
    · subst hrest
      exact ⟨h.target, rfl⟩
    · exact ih hrest

theorem Navigation.current_follow (n : Navigation) (g : Graph ω η) (hne : hops ≠ []) :
    (n.follow g hops).current = hops.getLast?.map Hop.target := by
  obtain ⟨before, last, rfl⟩ := (List.eq_nil_or_concat' hops).resolve_left hne
  rw [follow_append, List.getLast?_concat]
  rfl

namespace Hop

theorem Joins.tree_of_exits (hg : g.WellFormed) (hj : h.Joins g) {id : NodeId} (hid : id ∈ h.exits) :
    ∃ o, h.origin = some o ∧ g.tree id = g.tree o := by
  obtain ⟨kept, hpath, _⟩ := hj
  have hmem : id ∈ (h.origin.map g.pathTo).getD [] := by
    rw [hpath]
    exact List.mem_append_right _ (List.mem_reverse.2 hid)
  cases ho : h.origin with
  | none => simp [ho] at hmem
  | some o =>
    have hmem : id ∈ g.ancestors o := by simpa [ho, Graph.pathTo] using hmem
    exact ⟨o, rfl, hg.tree_of_mem_ancestors hmem⟩

theorem Joins.tree_of_enters (hg : g.WellFormed) (hj : h.Joins g) {id : NodeId}
    (hid : id ∈ h.enters) : g.tree id = g.tree h.target := by
  obtain ⟨kept, _, hpath⟩ := hj
  have hmem : id ∈ g.pathTo h.target := by
    rw [hpath]
    exact List.mem_append_right _ hid
  exact hg.tree_of_mem_ancestors (List.mem_reverse.1 hmem)

/-- A hop that does not leave the tree of its origin ends in it. -/
theorem Joins.tree_target (hg : g.WellFormed) (hj : h.Joins g) {o : NodeId} (ho : h.origin = some o)
    (hlt : o < g.size) (hleft : g.tree o ∉ h.exits) : g.tree h.target = g.tree o := by
  obtain ⟨kept, hpath, htarget⟩ := hj
  have hroot : g.tree o ∈ kept ++ h.exits.reverse := by
    rw [← hpath, ho]
    exact List.mem_reverse.2 (hg.tree_mem_ancestors hlt).1
  have hkept : g.tree o ∈ kept :=
    (List.mem_append.1 hroot).resolve_right fun hmem => hleft (List.mem_reverse.1 hmem)
  have hmem : g.tree o ∈ g.ancestors h.target := by
    apply List.mem_reverse.1
    change g.tree o ∈ g.pathTo h.target
    rw [htarget]
    exact List.mem_append_left _ hkept
  rw [← hg.tree_of_mem_ancestors hmem, hg.tree_of_mem_ancestors (hg.tree_mem_ancestors hlt).1]

theorem tree_of_exitActions (hg : g.Sound) (hj : h.Joins g) (ha : a ∈ h.exitActions g) :
    ∃ o, h.origin = some o ∧ a.tree = g.tree o := by
  obtain ⟨id, hid, ha⟩ := List.mem_flatMap.1 ha
  obtain ⟨o, ho, htree⟩ := hj.tree_of_exits hg.wellFormed hid
  exact ⟨o, ho, ((hg.owns id).exitActions_of a ha).2.trans htree⟩

theorem tree_of_entryActions (hg : g.Sound) (hj : h.Joins g) (ha : a ∈ h.entryActions g) :
    a.tree = g.tree h.target := by
  unfold entryActions at ha
  split at ha
  · exact ((hg.owns h.target).reentryActions_of a ha).2
  · obtain ⟨id, hid, ha⟩ := List.mem_flatMap.1 ha
    exact ((hg.owns id).actions_of a ha).2.trans (hj.tree_of_enters hg.wellFormed hid)

/-- A hop that joins its paths and starts where a session stands in the graph. -/
structure Sits (g : Graph ω η) (n : Navigation) (h : Hop ω η) : Prop where
  moves : h.Moves g n
  within : h.Within g n

theorem Sits.standsIn (hg : g.WellFormed) (hs : h.Sits g n) (hn : n.StandsIn g tree)
    (hleft : tree ∉ h.exits) : (n.advance g h).StandsIn g tree := by
  obtain ⟨o, ho, rfl⟩ := Option.map_eq_some_iff.1 hn
  have horigin : h.origin = some o := hs.moves.1.trans ho
  have htarget := hs.moves.2.tree_target hg horigin (hs.within.position.current_lt ho) hleft
  rw [Navigation.StandsIn, Navigation.advance_current, Option.map_some, htarget]

end Hop

theorem Along.sits (hm : Along g (Hop.Moves g) n hops) (hw : Along g (Hop.Within g) n hops) :
    Along g (Hop.Sits g) n hops :=
  hm.imp₂ (fun _ _ => Hop.Sits.mk) hw

/-- A tree in which a session stands stays the current one while no hop leaves it. -/
theorem Along.standsIn (hg : g.WellFormed) (ha : Along g (Hop.Sits g) n hops)
    (hn : n.StandsIn g tree) (hleft : ∀ h ∈ hops, tree ∉ h.exits) :
    (n.follow g hops).StandsIn g tree := by
  induction hops generalizing n with
  | nil => exact hn
  | cons h rest ih =>
    apply ih ha.2 (ha.1.standsIn hg hn (hleft h List.mem_cons_self))
    intro h' hh'
    exact hleft h' (List.mem_cons_of_mem _ hh')

end ChatFlow.Flow
