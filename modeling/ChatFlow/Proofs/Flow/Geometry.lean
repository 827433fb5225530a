import ChatFlow.Proofs.Flow.EntryExit
import ChatFlow.Proofs.Flow.Insertions

/-! Which nodes a hop leaves and enters: the ends of the two paths behind what they have in common. -/
namespace ChatFlow
variable {α : Type} [DecidableEq α] {a : α} {l m p s t : List α}

/-- What two lists start with in common. -/
def commonPrefix : List α → List α → List α
  | a :: l, b :: m => if a = b then a :: commonPrefix l m else []
  | _, _ => []

/-- The common prefix is the longest one: what both lists start with, it starts with. -/
theorem isPrefix_commonPrefix : p <+: commonPrefix l m ↔ p <+: l ∧ p <+: m := by
  induction l generalizing p m with
  | nil =>
    rw [commonPrefix]
    · exact ⟨fun h => ⟨h, (List.prefix_nil.1 h) ▸ List.nil_prefix⟩, And.left⟩
    · nofun
  | cons a l ih =>
    cases m with
    | nil =>
      rw [commonPrefix]
      · exact ⟨fun h => ⟨(List.prefix_nil.1 h) ▸ List.nil_prefix, h⟩, And.right⟩
      · nofun
    | cons b m =>
      rw [commonPrefix]
      cases p with
      | nil => simp
      | cons c p =>
        by_cases hab : a = b
        · subst hab
          rw [if_pos rfl, List.cons_prefix_cons, ih, List.cons_prefix_cons, List.cons_prefix_cons]
          tauto
        · rw [if_neg hab, List.cons_prefix_cons, List.cons_prefix_cons]
          refine ⟨fun h => absurd (List.prefix_nil.1 h) (List.cons_ne_nil _ _), ?_⟩
          rintro ⟨⟨rfl, -⟩, ⟨rfl, -⟩⟩
          exact absurd rfl hab

/-- Behind it the lists go on with different elements. -/
theorem commonPrefix_append (h : ∀ a ∈ t, a ∉ s) (p : List α) :
    commonPrefix (p ++ s) (p ++ t) = p := by
  induction p with
  | nil =>
    cases s with
    | nil => cases t <;> rfl
    | cons a s =>
      cases t with
      | nil => rfl
      | cons b t =>
        have hne : a ≠ b := by
          rintro rfl
          exact h a List.mem_cons_self List.mem_cons_self
        rw [List.nil_append, List.nil_append, commonPrefix, if_neg hne]
  | cons a p ih => rw [List.cons_append, List.cons_append, commonPrefix, if_pos rfl, ih]

/-- Nothing before the element that is found passes the test. -/
theorem not_of_mem_takeWhile {f : α → Bool} (h : l.find? f = some a) :
    ∀ b ∈ l.takeWhile (· ≠ a), f b = false := by
  induction l with
  | nil => cases h
  | cons c l ih =>
    by_cases hc : f c = true
    · rw [List.find?_cons_of_pos hc] at h
      cases h
      rw [List.takeWhile_cons, if_neg (by simp)]
      exact fun b hb => absurd hb List.not_mem_nil
    · rw [List.find?_cons_of_neg hc] at h
      intro b hb
      rcases List.mem_cons.1 ((List.takeWhile_subset _) hb) with rfl | hmem
      · exact Bool.eq_false_iff.2 hc
      · rw [List.takeWhile_cons] at hb
        split at hb
        · rcases List.mem_cons.1 hb with rfl | hb
          · exact Bool.eq_false_iff.2 hc
          · exact ih h b hb
        · cases hb

namespace Flow
variable {ω η : Type} {g : Graph ω η} {r : Router ω η} {a b c id target : NodeId}
  {via : Option (Transition ω η)}

namespace Graph

theorem getLast?_pathTo (g : Graph ω η) (id : NodeId) : (g.pathTo id).getLast? = some id := by
  rw [pathTo, List.getLast?_reverse, ancestors_eq]
  rfl

theorem pathTo_ne_nil (g : Graph ω η) (id : NodeId) : g.pathTo id ≠ [] := by
  intro h
  have hlast := g.getLast?_pathTo id
  rw [h] at hlast
  cases hlast

/-- Nodes of one tree have an ancestor in common. -/
theorem WellFormed.commonAncestor?_isSome (hw : g.WellFormed) (ha : a < g.size) (hb : b < g.size) :
    (g.commonAncestor? a b).isSome ↔ g.tree a = g.tree b := by
  unfold commonAncestor?
  split
  · rename_i htree
    refine iff_of_true (List.find?_isSome.2 ⟨g.tree b, (hw.tree_mem_ancestors hb).1, ?_⟩) htree
    rw [List.contains_iff_mem, ← htree]
    exact (hw.tree_mem_ancestors ha).1
  · rename_i htree
    exact iff_of_false (by simp) htree

end Graph

namespace Router

/-- A jump enters no node that was active before. -/
theorem enters_inactive (hw : r.graph.WellFormed) (via : Option (Transition ω η)) :
    ∀ id ∈ (r.jump (some a) target via).enters, id ∉ r.graph.ancestors a := by
  intro id hid hmem
  have henters : id ∈ (r.graph.ancestors target).takeWhile
      (some · ≠ r.graph.commonAncestor? a target) := List.mem_reverse.1 hid
  have htarget : id ∈ r.graph.ancestors target := List.takeWhile_subset _ henters
  have htree : r.graph.tree a = r.graph.tree target :=
    (hw.tree_of_mem_ancestors hmem).symm.trans (hw.tree_of_mem_ancestors htarget)
  cases hc : r.graph.commonAncestor? a target with
  | none =>
    rw [Graph.commonAncestor?, if_pos htree, List.find?_eq_none] at hc
    exact hc id htarget (List.contains_iff_mem.2 hmem)
  | some c =>
    rw [hc] at henters
    rw [Graph.commonAncestor?, if_pos htree] at hc
    have hnot := not_of_mem_takeWhile hc id (by simpa using henters)
    exact Bool.eq_false_iff.1 hnot (List.contains_iff_mem.2 hmem)

/-- Both paths start with the one of the deepest common ancestor. -/
theorem jump_paths (r : Router ω η) (a target : NodeId) (via : Option (Transition ω η)) :
    r.graph.pathTo a = ((r.graph.commonAncestor? a target).map r.graph.pathTo).getD [] ++
        (r.jump (some a) target via).exits.reverse ∧
      r.graph.pathTo target = ((r.graph.commonAncestor? a target).map r.graph.pathTo).getD [] ++
        (r.jump (some a) target via).enters :=
  Hop.between_paths (fun _ hc => r.mem_of_commonWith (hc : r.commonWith (some a) target = _)) nofun

theorem commonPrefix_pathTo (hw : r.graph.WellFormed) (a target : NodeId) :
    commonPrefix (r.graph.pathTo a) (r.graph.pathTo target) =
      ((r.graph.commonAncestor? a target).map r.graph.pathTo).getD [] := by
  obtain ⟨hpath, htarget⟩ := r.jump_paths a target none
  have hnew : ∀ id ∈ (r.jump (some a) target none).enters,
      id ∉ (r.jump (some a) target none).exits.reverse := by
    intro id hid hmem
    exact enters_inactive hw none id hid (List.takeWhile_subset _ (List.mem_reverse.1 hmem))
  rw [hpath, htarget]
  exact commonPrefix_append hnew _

/-- No node is entered exactly if the target was active before. -/
theorem enters_isEmpty (hw : r.graph.WellFormed) (via : Option (Transition ω η)) :
    (r.jump (some a) target via).enters.isEmpty ↔ target ∈ r.graph.ancestors a := by
  obtain ⟨hpath, htarget⟩ := r.jump_paths a target via
  have hlast := r.graph.getLast?_pathTo target
  rw [List.isEmpty_iff]
  constructor
  · intro hnil
    rw [hnil, List.append_nil] at htarget
    rw [← List.mem_reverse]
    change target ∈ r.graph.pathTo a
    rw [hpath, ← htarget]
    exact List.mem_append_left _ (List.mem_of_getLast? hlast)
  · intro hmem
    by_contra hne
    rw [htarget, List.getLast?_append_of_ne_nil _ hne] at hlast
    exact enters_inactive hw via target (List.mem_of_getLast? hlast) hmem

theorem transitionActions_jump (r : Router ω η) (a target : NodeId) (via : Option (Transition ω η)) :
    (r.jump (some a) target via).transitionActions r.graph = via.elim [] fun t =>
      if t.move = .jump ∧ r.graph.tree a ≠ r.graph.tree target then [] else t.actions := by
  have hcrosses : (r.jump (some a) target via).crossesTrees r.graph = true ↔
      r.graph.tree a ≠ r.graph.tree target := decide_eq_true_iff
  cases via with
  | none => rfl
  | some t =>
    refine (List.append_nil _).trans ?_
    exact if_congr (and_congr_right fun _ => hcrosses) rfl rfl

theorem entryActions_jump (hw : r.graph.WellFormed) (via : Option (Transition ω η)) :
    (r.jump (some a) target via).entryActions r.graph =
      if target ∈ r.graph.ancestors a then (r.graph.node target).reentryActions
      else (r.jump (some a) target via).enters.flatMap fun id => (r.graph.node id).actions :=
  if_congr (enters_isEmpty hw via) rfl rfl

/-- A jump in a graph that is built by insertions, as seen from the paths of its ends. With `kept` for the
longest prefix that these have in common, the nodes left and entered are what comes behind it, and the
actions are those of the nodes left, of the transition and of the nodes entered. -/
theorem jump_geometry (hg : r.graph.Built) (ha : a < r.graph.size) (ht : target < r.graph.size)
    (via : Option (Transition ω η)) :
    let h := r.jump (some a) target via
    let kept := commonPrefix (r.graph.pathTo a) (r.graph.pathTo target)
    (∀ p, p <+: kept ↔ p <+: r.graph.pathTo a ∧ p <+: r.graph.pathTo target) ∧
      h.common = kept.getLast? ∧
      (kept = [] ↔ r.graph.tree a ≠ r.graph.tree target) ∧
      r.graph.pathTo a = kept ++ h.exits.reverse ∧
      r.graph.pathTo target = kept ++ h.enters ∧
      h.actions r.graph =
        (h.exits.flatMap fun id => (r.graph.node id).exitActions) ++
        (via.elim [] fun t =>
          if t.move = .jump ∧ r.graph.tree a ≠ r.graph.tree target then [] else t.actions) ++
        if target ∈ r.graph.ancestors a then (r.graph.node target).reentryActions
        else h.enters.flatMap fun id => (r.graph.node id).actions := by
  have hw := hg.arranged.wellFormed
  obtain ⟨hpath, htarget⟩ := r.jump_paths a target via
  intro h kept
  have hkept : kept = ((r.graph.commonAncestor? a target).map r.graph.pathTo).getD [] :=
    commonPrefix_pathTo hw a target
  refine ⟨fun p => isPrefix_commonPrefix, ?_, ?_, ?_, ?_, ?_⟩
  · rw [hkept]
    change r.graph.commonAncestor? a target = _
    cases r.graph.commonAncestor? a target with
    | none => rfl
    | some c => exact (r.graph.getLast?_pathTo c).symm
  · rw [hkept, Ne, ← hw.commonAncestor?_isSome ha ht]
    cases r.graph.commonAncestor? a target with
    | none => simp
    | some c => simpa using r.graph.pathTo_ne_nil c
  · rw [hkept]
    exact hpath
  · rw [hkept]
    exact htarget
  · rw [Hop.actions, transitionActions_jump, entryActions_jump hw]
    rfl

/-- An action that does nothing. -/
def tagged (name : String) : Action Unit Unit := ⟨.call name fun _ => pure (), none, 0, 0⟩

/-- A node that says when it is entered and when it is left. -/
def room (name : String) (parent : Option NodeId) : Node Unit Unit :=
  let spec : NodeSpec Unit Unit := match parent with
    | none => .tree ⟨.none, none, none, none⟩
    | some _ => .branch ⟨.none, none⟩
  { Node.fresh name spec with
    actions := [tagged ("enter " ++ name)]
    exitActions := [tagged ("leave " ++ name)] }

/-- With a room more, or as it was if the name is taken. -/
def extended (g : Graph Unit Unit) (name : String) (parent : Option NodeId) : Graph Unit Unit :=
  (g.insert (room name parent) parent false).toOption.getD g

theorem built_extended {g : Graph Unit Unit} (hg : g.Built) (name : String) (parent : Option NodeId)
    (hp : ∀ p, parent = some p → p < g.size) : (extended g name parent).Built := by
  rw [extended]
  cases h : g.insert (room name parent) parent false with
  | error e => exact hg
  | ok g' =>
    refine hg.insert ⟨rfl, ?_, hp⟩ h
    cases parent <;> rfl

/-- A tree with a hall between two rooms, and another tree. -/
def house : Router Unit Unit where
  graph := extended (extended (extended (extended (extended .empty "House" none) "Hall" (some 0))
    "Kitchen" (some 1)) "Study" (some 1)) "Shed" none
  limit := 16
  gate := none

def toStudy : Transition Unit Unit := ⟨.jump, some 3, .plain, [tagged "walk"], none⟩

/-- From one room to the other, the hall stays active. -/
theorem house_geometry :
    let h := house.jump (some 2) 3 (some toStudy)
    let kept := commonPrefix (house.graph.pathTo 2) (house.graph.pathTo 3)
    (house.graph.Built ∧ 2 < house.graph.size ∧ 3 < house.graph.size) ∧
    ((∀ p, p <+: kept ↔ p <+: house.graph.pathTo 2 ∧ p <+: house.graph.pathTo 3) ∧
      h.common = kept.getLast? ∧
      (kept = [] ↔ house.graph.tree 2 ≠ house.graph.tree 3) ∧
      house.graph.pathTo 2 = kept ++ h.exits.reverse ∧
      house.graph.pathTo 3 = kept ++ h.enters ∧
      h.actions house.graph =
        (h.exits.flatMap fun id => (house.graph.node id).exitActions) ++
        ((some toStudy).elim [] fun t =>
          if t.move = .jump ∧ house.graph.tree 2 ≠ house.graph.tree 3 then [] else t.actions) ++
        if 3 ∈ house.graph.ancestors 2 then (house.graph.node 3).reentryActions
        else h.enters.flatMap fun id => (house.graph.node id).actions) ∧
    h.common = some 1 ∧ h.exits = [2] ∧ h.enters = [3] ∧
      (h.actions house.graph).map Action.label = ["call leave Kitchen", "call walk", "call enter Study"] := by
  have hbuilt : house.graph.Built := by
    refine built_extended (built_extended (built_extended (built_extended (built_extended .empty
      "House" none ?_) "Hall" (some 0) ?_) "Kitchen" (some 1) ?_) "Study" (some 1) ?_) "Shed" none ?_
    all_goals rintro _ ⟨⟩
    all_goals decide +kernel
  have hfrom : 2 < house.graph.size := by decide +kernel
  have hto : 3 < house.graph.size := by decide +kernel
  exact ⟨⟨hbuilt, hfrom, hto⟩, jump_geometry hbuilt hfrom hto (some toStudy), by decide +kernel⟩

end Router
end Flow
end ChatFlow
