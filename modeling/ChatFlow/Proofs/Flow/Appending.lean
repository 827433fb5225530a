import ChatFlow.Proofs.Flow.Renaming
import ChatFlow.Proofs.Flow.Sound

/-! Graphs put one after the other, the identifiers of the second one moved up. Branches are inserted below
the nodes of the second one as if these were alone. -/
namespace ChatFlow.Flow
open Expr
variable {ω η : Type}

namespace Graph
variable {g g' c : Graph ω η} {n : Node ω η} {id p t : NodeId} {name : String} {isDefault : Bool}

/-- Graphs with the same nodes and the same roles are equal. -/
theorem eq_of_node_eq (hs : g.size = g'.size) (hr : g.roles = g'.roles)
    (hn : ∀ id < g.size, g.node id = g'.node id) : g = g' := by
  obtain ⟨nodes, roles⟩ := g
  obtain ⟨nodes', roles'⟩ := g'
  cases hr
  congr 1
  refine List.ext_getElem hs fun id hid hid' => ?_
  have h : (nodes[id]?).getD default = (nodes'[id]?).getD default := by
    simpa [node] using hn id hid
  simpa [List.getElem?_eq_getElem hid, List.getElem?_eq_getElem hid'] using h

/-- The first graph with the nodes of the second one after its own. -/
def append (g c : Graph ω η) : Graph ω η :=
  { g with nodes := g.nodes ++ c.nodes.map (Node.rename (.after g.size)) }

@[simp] theorem size_append (g c : Graph ω η) : (g.append c).size = g.size + c.size := by
  simp [append, size]

theorem node_append_of_lt (h : id < g.size) : (g.append c).node id = g.node id := by
  have hid : id < g.nodes.length := h
  simp [node, append, List.getElem?_append_left hid]

theorem node_append_add (h : id < c.size) :
    (g.append c).node (g.size + id) = (c.node id).rename (.after g.size) := by
  have hid : id < c.nodes.length := h
  simp [node, append, size, List.getElem?_append_right, List.getElem?_eq_getElem hid]

theorem append_empty (g : Graph ω η) : g.append empty = g := by
  simp [append, empty]

theorem append_append (g g' c : Graph ω η) : (g.append g').append c = g.append (g'.append c) := by
  have hafter : Renaming.trans (.after g'.size) (.after g.size) = .after (g.append g').size := by
    rw [size_append, Renaming.after, Renaming.after, Renaming.ofIds_trans]
    exact congrArg Renaming.ofIds (funext fun id => (Nat.add_assoc ..).symm)
  simp only [append, List.map_append, List.append_assoc, List.map_map, Function.comp_def,
    Node.rename_rename, hafter]

theorem node_append_cases (g c : Graph ω η) (id : NodeId) :
    (g.append c).node (g.size + id) = (c.node id).rename (.after g.size) ∨
      c.node id = default ∧ (g.append c).node (g.size + id) = default := by
  rcases Nat.lt_or_ge id c.size with hlt | hge
  · exact Or.inl (node_append_add hlt)
  · exact Or.inr ⟨node_of_size_le hge, node_of_size_le (by simpa using hge)⟩

theorem name_append_add (id : NodeId) : ((g.append c).node (g.size + id)).name = (c.node id).name := by
  rcases node_append_cases g c id with h | ⟨h, h'⟩
  · rw [h]
    rfl
  · rw [h, h']

theorem path_append_add (id : NodeId) : (g.append c).path (g.size + id) = c.path id := by
  rcases node_append_cases g c id with h | ⟨h, h'⟩
  · rw [Graph.path, h]
    rfl
  · rw [Graph.path, Graph.path, h, h']

theorem mem_trees_append (h : id ∈ g.trees) : id ∈ (g.append c).trees := by
  obtain ⟨hlt, hroot⟩ := mem_trees.1 h
  refine mem_trees.2 ⟨?_, ?_⟩
  · rw [size_append]
    exact Nat.lt_add_right _ hlt
  · rw [parent, node_append_of_lt hlt]
    exact hroot

theorem mem_trees_append_add (h : id ∈ c.trees) : g.size + id ∈ (g.append c).trees := by
  obtain ⟨hlt, hroot⟩ := mem_trees.1 h
  refine mem_trees.2 ⟨?_, ?_⟩
  · rw [size_append]
    exact Nat.add_lt_add_left hlt _
  · rw [parent, node_append_add hlt]
    exact congrArg (Option.map _) hroot

/-- A branch of a tree after other nodes is not found among these. -/
theorem branchNamed?_append (hg : g.WellFormed) (t : NodeId) (name : String) :
    (g.append c).branchNamed? (g.size + t) name = (c.branchNamed? t name).map (g.size + ·) := by
  have hold : g.ids.find? (fun id => ((g.append c).parent id).isSome &&
      (g.append c).tree id == g.size + t && ((g.append c).node id).name == name) = none := by
    rw [List.find?_eq_none]
    intro id hid
    have hlt := List.mem_range.1 hid
    have htree : (g.append c).tree id < g.size := by
      rw [Graph.tree, node_append_of_lt hlt]
      exact hg.tree_lt hlt
    simp [Nat.ne_of_lt (Nat.lt_of_lt_of_le htree (Nat.le_add_right g.size t))]
  have hnew : (fun id => ((g.append c).parent (g.size + id)).isSome &&
      (g.append c).tree (g.size + id) == g.size + t && ((g.append c).node (g.size + id)).name == name) =
      fun id => (c.parent id).isSome && c.tree id == t && (c.node id).name == name := by
    funext id
    rw [name_append_add, parent, tree, parent, tree]
    rcases node_append_cases g c id with h | ⟨h, h'⟩
    · have hinj : Function.Injective (g.size + · : NodeId → NodeId) := fun _ _ => Nat.add_left_cancel
      simp only [h, Node.rename, Renaming.after, Renaming.ofIds, Option.isSome_map]
      rw [hinj.beq_eq]
    · rw [h, h']
      rfl
  rw [branchNamed?, ids, size_append, List.range_add, List.find?_append, ← ids, hold, Option.none_or,
    List.find?_map, ← ids]
  exact congrArg (fun q => (c.ids.find? q).map (g.size + ·)) hnew

theorem push_append (g c : Graph ω η) (n : Node ω η) :
    (g.append c).push (n.rename (.after g.size)) = g.append (c.push n) := by
  simp [push, append]

theorem modify_append {f f' : Node ω η → Node ω η} (hp : p < c.size)
    (hf : ∀ n, f' (n.rename (.after g.size)) = (f n).rename (.after g.size)) :
    (g.append c).modify (g.size + p) f' = g.append (c.modify p f) := by
  refine eq_of_node_eq (by simp) rfl fun id hid => ?_
  have hp' : g.size + p < (g.append c).size := by simpa using hp
  rw [size_modify, size_append] at hid
  rw [node_modify f' hp']
  rcases Nat.lt_or_ge id g.size with hlt | hge
  · have hne : id ≠ g.size + p := Nat.ne_of_lt (Nat.lt_of_lt_of_le hlt (Nat.le_add_right ..))
    rw [if_neg hne, node_append_of_lt hlt, node_append_of_lt hlt]
  · obtain ⟨k, rfl⟩ := Nat.exists_eq_add_of_le hge
    have hk : k < c.size := Nat.lt_of_add_lt_add_left hid
    rw [node_append_add hk, node_append_add (by simpa using hk), node_modify f hp]
    by_cases hkp : k = p
    · rw [if_pos (congrArg _ hkp), if_pos hkp, hf]
    · rw [if_neg (fun h => hkp (Nat.add_left_cancel h)), if_neg hkp]

theorem link_rename (ρ : Renaming) (id : NodeId) (isDefault : Bool) (n : Node ω η) :
    link (ρ.ids id) isDefault (n.rename ρ) = (link id isDefault n).rename ρ := by
  cases isDefault <;> simp [link, Node.rename]

/-- A node as it is put below a parent. -/
def hung (g : Graph ω η) (n : Node ω η) (parent : NodeId) : Node ω η :=
  { n with
    parent := some parent, tree := g.tree parent, depth := (g.node parent).depth + 1
    path := g.path parent ++ "/" ++ n.name }

theorem insertBranch_eq (g : Graph ω η) (n : Node ω η) (p : NodeId) (isDefault : Bool) :
    g.insertBranch n p isDefault =
      if isDefault && (g.node p).fallback.isSome then
        .error (.invalidAttribute (g.path p) "default" .secondDefault)
      else if (g.branchNamed? (g.tree p) n.name).isSome || (g.node (g.tree p)).name == n.name then
        .error (.duplicateName (g.path p ++ "/" ++ n.name) n.name)
      else .ok ((g.push (g.hung n p)).modify p (link g.size isDefault)) := rfl

theorem hung_append (hp : p < c.size) (name : String) :
    (g.append c).hung (.fresh name (.branch ⟨.none, none⟩)) (g.size + p) =
      (c.hung (.fresh name (.branch ⟨.none, none⟩)) p).rename (.after g.size) := by
  simp [hung, tree, path, node_append_add hp, Node.rename, NodeSpec.rename, Node.fresh, Renaming.after,
    Renaming.ofIds]

/-- A branch is inserted below a node after others as it would be without these. -/
theorem insertBranch_append (hg : g.WellFormed) (hp : p < c.size) (name : String) (isDefault : Bool) :
    (g.append c).insertBranch (.fresh name (.branch ⟨.none, none⟩)) (g.size + p) isDefault =
      (c.insertBranch (.fresh name (.branch ⟨.none, none⟩)) p isDefault).map g.append := by
  have hfallback : ((g.append c).node (g.size + p)).fallback.isSome = (c.node p).fallback.isSome := by
    rw [node_append_add hp]
    exact Option.isSome_map
  have htree : (g.append c).tree (g.size + p) = g.size + c.tree p := by
    rw [tree, node_append_add hp]
    rfl
  have hsize : (g.append c).size = (Renaming.after g.size).ids c.size := size_append g c
  have hp' (n : Node ω η) : p < (c.push n).size := by
    rw [size_push]
    exact Nat.lt_succ_of_lt hp
  rw [insertBranch_eq, insertBranch_eq, hfallback, htree, path_append_add, branchNamed?_append hg,
    name_append_add, Option.isSome_map, hung_append hp, push_append, hsize,
    modify_append (hp' _) (link_rename (.after g.size) c.size isDefault)]
  split
  · rfl
  · split <;> rfl

end Graph
end ChatFlow.Flow
