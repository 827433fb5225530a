import ChatFlow.Flow.Access
import ChatFlow.Proofs.Flow.Paths

/-! Graphs that are made by inserting nodes: every node hangs below a tree, to which it belongs. -/
namespace ChatFlow.Flow
variable {ω η : Type}

/-- What inserting nodes one after another makes of a graph. -/
structure Graph.WellFormed (g : Graph ω η) : Prop where
  parent_lt : ∀ {id p}, g.parent id = some p → p < id
  tree_parent : ∀ {id p}, g.parent id = some p → g.tree id = g.tree p
  tree_root : ∀ {id}, id < g.size → g.parent id = none → g.tree id = id
  parent_branch : ∀ {id c}, c ∈ (g.node id).branches → g.parent c = some id
  isTree_iff : ∀ {id}, id < g.size → ((g.node id).isTree = true ↔ g.parent id = none)

/-- A node without what is read in the second pass over a document. -/
def Node.bare (n : Node ω η) : Node ω η :=
  { Node.fresh n.name (match n.spec with
      | .tree spec => .tree ⟨.none, none, none, spec.handler⟩
      | .branch _ => .branch ⟨.none, none⟩) with
    path := n.path, parent := n.parent, tree := n.tree, depth := n.depth
    children := n.children, fallback := n.fallback }

namespace Node

@[simp] theorem bare_parent (n : Node ω η) : n.bare.parent = n.parent := rfl
@[simp] theorem bare_tree (n : Node ω η) : n.bare.tree = n.tree := rfl
@[simp] theorem bare_branches (n : Node ω η) : n.bare.branches = n.branches := rfl
@[simp] theorem bare_default : (default : Node ω η).bare = default := rfl

@[simp] theorem bare_isTree (n : Node ω η) : n.bare.isTree = n.isTree := by
  cases h : n.spec <;> simp [bare, isTree, fresh, h]

@[simp] theorem bare_handler (n : Node ω η) : n.bare.handler = n.handler := by
  cases h : n.spec <;> simp [bare, handler, tree?, fresh, h]

end Node

namespace Graph
variable {g g' : Graph ω η} {n : Node ω η} {id a b c p : NodeId} {parent : Option NodeId}
  {isDefault : Bool}

theorem node_of_size_le (h : g.size ≤ id) : g.node id = default := by
  have hnone : g.nodes[id]? = none := List.getElem?_eq_none h
  simp [node, hnone]

theorem lt_size_of_parent (h : g.parent id = some p) : id < g.size := by
  by_contra hlt
  rw [parent, node_of_size_le (Nat.le_of_not_lt hlt)] at h
  cases h

theorem mem_trees : id ∈ g.trees ↔ id < g.size ∧ g.parent id = none := by
  simp [trees, ids]

/-- The graph with one node more. -/
def push (g : Graph ω η) (n : Node ω η) : Graph ω η := { g with nodes := g.nodes ++ [n] }

@[simp] theorem size_push (g : Graph ω η) (n : Node ω η) : (g.push n).size = g.size + 1 := by
  simp [push, size]

theorem node_push (id : NodeId) :
    (g.push n).node id = if id = g.size then n else g.node id := by
  rcases Nat.lt_trichotomy id g.size with hlt | rfl | hgt
  · have hold : id < g.nodes.length := hlt
    simp [node, push, List.getElem?_append_left hold, Nat.ne_of_lt hlt]
  · simp [node, push, size]
  · rw [if_neg (Nat.ne_of_gt hgt), node_of_size_le (Nat.le_of_lt hgt)]
    exact node_of_size_le (by rw [size_push]; exact hgt)

theorem node_modify (f : Node ω η → Node ω η) (h : p < g.size) (id : NodeId) :
    (g.modify p f).node id = if id = p then f (g.node id) else g.node id := by
  have hp : p < g.nodes.length := h
  by_cases hid : id = p
  · subst hid
    simp [node, modify, List.getElem?_modify_eq, List.getElem?_eq_getElem hp]
  · simp [node, modify, List.getElem?_modify_ne _ _ (Ne.symm hid), hid]

@[simp] theorem size_modify (p : NodeId) (f : Node ω η → Node ω η) :
    (g.modify p f).size = g.size := by
  simp [size, modify]

/-- Well-formedness does not depend on what the second pass reads. -/
theorem WellFormed.of_bare (hg : g.WellFormed) (hs : g'.size = g.size)
    (hb : ∀ id, (g'.node id).bare = (g.node id).bare) : g'.WellFormed := by
  have hparent (id : NodeId) : g'.parent id = g.parent id := by
    simpa [Graph.parent] using congrArg Node.parent (hb id)
  have htree (id : NodeId) : g'.tree id = g.tree id := by
    simpa [Graph.tree] using congrArg Node.tree (hb id)
  have hbranches (id : NodeId) : (g'.node id).branches = (g.node id).branches := by
    simpa using congrArg Node.branches (hb id)
  have hkind (id : NodeId) : (g'.node id).isTree = (g.node id).isTree := by
    rw [← Node.bare_isTree, hb, Node.bare_isTree]
  constructor
  case parent_lt =>
    intro id p h
    exact hg.parent_lt (hparent id ▸ h)
  case tree_parent =>
    intro id p h
    rw [htree, htree]
    exact hg.tree_parent (hparent id ▸ h)
  case tree_root =>
    intro id hlt h
    rw [htree]
    exact hg.tree_root (hs ▸ hlt) (hparent id ▸ h)
  case parent_branch =>
    intro id c h
    rw [hparent]
    exact hg.parent_branch (hbranches id ▸ h)
  case isTree_iff =>
    intro id hlt
    rw [hkind, hparent]
    exact hg.isTree_iff (hs ▸ hlt)

theorem wellFormed_empty : (empty : Graph ω η).WellFormed := by
  have hparent (id : NodeId) : (empty : Graph ω η).parent id = none := rfl
  have hbranches (id : NodeId) : ((empty : Graph ω η).node id).branches = [] := rfl
  constructor
  case parent_lt =>
    intro id p h
    rw [hparent] at h
    cases h
  case tree_parent =>
    intro id p h
    rw [hparent] at h
    cases h
  case tree_root =>
    intro id hlt
    exact absurd hlt (Nat.not_lt_zero id)
  case parent_branch =>
    intro id c h
    rw [hbranches] at h
    cases h
  case isTree_iff =>
    intro id hlt
    exact absurd hlt (Nat.not_lt_zero id)

/-- Everything that inserting a tree can do, unless its name is taken. -/
theorem insertTree_eq_ok (h : g.insertTree n = .ok g') :
    g' = g.push { n with parent := none, tree := g.size, depth := 0, path := n.name } := by
  unfold insertTree at h
  split at h
  · cases h
  · cases h
    rfl

/-- What a parent becomes when a branch is inserted below it. -/
def link (id : NodeId) (isDefault : Bool) (p : Node ω η) : Node ω η :=
  if isDefault then { p with fallback := some id } else { p with children := p.children ++ [id] }

/-- Everything that inserting a branch can do, unless its name or its place is taken. -/
theorem insertBranch_eq_ok (h : g.insertBranch n p isDefault = .ok g') :
    g' = (g.push { n with
      parent := some p, tree := g.tree p, depth := (g.node p).depth + 1,
      path := g.path p ++ "/" ++ n.name }).modify p (link g.size isDefault) := by
  unfold insertBranch at h
  dsimp only at h
  split at h
  · cases h
  · split at h
    · cases h
    · cases h
      rfl

@[simp] theorem link_parent (p : Node ω η) : (link id isDefault p).parent = p.parent := by
  cases isDefault <;> rfl

@[simp] theorem link_tree (p : Node ω η) : (link id isDefault p).tree = p.tree := by
  cases isDefault <;> rfl

@[simp] theorem link_isTree (p : Node ω η) : (link id isDefault p).isTree = p.isTree := by
  cases isDefault <;> rfl

theorem mem_branches_link {p : Node ω η} (h : c ∈ (link id isDefault p).branches) :
    c ∈ p.branches ∨ c = id := by
  cases isDefault <;> simp [link, Node.branches] at h ⊢ <;> tauto

/-- One node more keeps a graph well-formed when the old nodes stay where they are and the new one
becomes a tree or hangs below an old one. -/
theorem WellFormed.grow (hg : g.WellFormed) (hs : g'.size = g.size + 1)
    (hold : ∀ id, id ≠ g.size → g'.parent id = g.parent id ∧ g'.tree id = g.tree id ∧
      (g'.node id).isTree = (g.node id).isTree)
    (hnew : (g'.parent g.size = none ∧ g'.tree g.size = g.size ∧ (g'.node g.size).isTree = true) ∨
      ∃ p, g'.parent g.size = some p ∧ p < g.size ∧ g'.tree g.size = g.tree p ∧
        (g'.node g.size).isTree = false)
    (hbranches : ∀ id c, c ∈ (g'.node id).branches →
      (id ≠ g.size ∧ c ∈ (g.node id).branches) ∨ (c = g.size ∧ g'.parent g.size = some id)) :
    g'.WellFormed := by
  have hlt {id : NodeId} (h : id < g'.size) (hid : id ≠ g.size) : id < g.size :=
    Nat.lt_of_le_of_ne (Nat.le_of_lt_succ (Nat.lt_of_lt_of_eq h hs)) hid
  constructor
  case parent_lt =>
    intro id p hp
    by_cases hid : id = g.size
    · subst hid
      rcases hnew with ⟨hnone, _⟩ | ⟨q, hq, hqlt, _⟩
      · rw [hnone] at hp
        cases hp
      · rw [hq] at hp
        cases hp
        exact hqlt
    · rw [(hold id hid).1] at hp
      exact hg.parent_lt hp
  case tree_parent =>
    intro id p hp
    by_cases hid : id = g.size
    · subst hid
      rcases hnew with ⟨hnone, _⟩ | ⟨q, hq, hqlt, htree, _⟩
      · rw [hnone] at hp
        cases hp
      · rw [hq] at hp
        cases hp
        rw [htree, (hold p (Nat.ne_of_lt hqlt)).2.1]
    · rw [(hold id hid).1] at hp
      have hplt := Nat.lt_trans (hg.parent_lt hp) (lt_size_of_parent hp)
      rw [(hold id hid).2.1, (hold p (Nat.ne_of_lt hplt)).2.1]
      exact hg.tree_parent hp
  case tree_root =>
    intro id hid hp
    by_cases hsize : id = g.size
    · subst hsize
      rcases hnew with ⟨_, htree, _⟩ | ⟨q, hq, _⟩
      · exact htree
      · rw [hq] at hp
        cases hp
    · rw [(hold id hsize).1] at hp
      rw [(hold id hsize).2.1]
      exact hg.tree_root (hlt hid hsize) hp
  case parent_branch =>
    intro id c hc
    rcases hbranches id c hc with ⟨hid, hc⟩ | ⟨hcid, hp⟩
    · have hp := hg.parent_branch hc
      rw [(hold c (Nat.ne_of_lt (lt_size_of_parent hp))).1]
      exact hp
    · rw [hcid]
      exact hp
  case isTree_iff =>
    intro id hid
    by_cases hsize : id = g.size
    · subst hsize
      rcases hnew with ⟨hnone, _, hkind⟩ | ⟨q, hq, _, _, hkind⟩
      · simp [hnone, hkind]
      · simp [hq, hkind]
    · rw [(hold id hsize).1, (hold id hsize).2.2]
      exact hg.isTree_iff (hlt hid hsize)

theorem WellFormed.insertTree (hg : g.WellFormed) (hn : n.branches = []) (hk : n.isTree = true)
    (h : g.insertTree n = .ok g') : g'.WellFormed := by
  rw [insertTree_eq_ok h]
  have hnode := node_push (g := g)
    (n := { n with parent := none, tree := g.size, depth := 0, path := n.name })
  refine hg.grow (size_push ..) ?_ (Or.inl ?_) ?_
  · intro id hid
    simp [Graph.parent, Graph.tree, hnode, hid]
  · simp only [Graph.parent, Graph.tree, hnode, if_true, true_and]
    exact hk
  · intro id c hc
    rw [hnode] at hc
    split at hc
    · have hc : c ∈ n.branches := hc
      rw [hn] at hc
      cases hc
    · rename_i hid
      exact Or.inl ⟨hid, hc⟩

theorem WellFormed.insertBranch (hg : g.WellFormed) (hn : n.branches = []) (hk : n.isTree = false)
    (hp : p < g.size) (h : g.insertBranch n p isDefault = .ok g') : g'.WellFormed := by
  rw [insertBranch_eq_ok h]
  generalize hm : { n with
    parent := some p, tree := g.tree p, depth := (g.node p).depth + 1,
    path := g.path p ++ "/" ++ n.name } = m
  have hmp : m.parent = some p := by rw [← hm]
  have hmt : m.tree = g.tree p := by rw [← hm]
  have hmk : m.isTree = false := by rw [← hm]; exact hk
  have hmb : m.branches = [] := by rw [← hm]; exact hn
  have hnode (id : NodeId) : ((g.push m).modify p (link g.size isDefault)).node id =
      if id = p then link g.size isDefault (g.node p) else if id = g.size then m else g.node id := by
    rw [node_modify _ (by rw [size_push]; exact Nat.lt_succ_of_lt hp), node_push]
    by_cases hid : id = p
    · subst hid
      simp [Nat.ne_of_lt hp]
    · simp [hid]
  have hne : g.size ≠ p := Nat.ne_of_gt hp
  refine hg.grow (by simp) ?_ (Or.inr ⟨p, ?_, hp, ?_, ?_⟩) ?_
  · intro id hid
    simp only [Graph.parent, Graph.tree, hnode, if_neg hid]
    by_cases hid' : id = p
    · subst hid'
      simp
    · simp [hid']
  · simp [Graph.parent, hnode, hne, hmp]
  · rw [Graph.tree, hnode, if_neg hne, if_pos rfl, hmt]
  · rw [hnode, if_neg hne, if_pos rfl, hmk]
  · intro id c hc
    rw [hnode] at hc
    split at hc
    · rename_i hid
      subst hid
      rcases mem_branches_link hc with hc | rfl
      · exact Or.inl ⟨Ne.symm hne, hc⟩
      · exact Or.inr ⟨rfl, by simp [Graph.parent, hnode, hne, hmp]⟩
    · split at hc
      · rw [hmb] at hc
        cases hc
      · rename_i hid
        exact Or.inl ⟨hid, hc⟩

theorem WellFormed.ancestors_of_parent (hg : g.WellFormed) (hp : g.parent id = some p) :
    g.ancestors id = id :: g.ancestors p :=
  Graph.ancestors_of_parent hp (hg.parent_lt hp)

/-- A node and its ancestors belong to one tree. -/
theorem WellFormed.tree_of_mem_ancestors (hg : g.WellFormed) (h : a ∈ g.ancestors id) :
    g.tree a = g.tree id := by
  induction id using Nat.strong_induction_on with
  | _ id ih =>
    rcases ancestors_cases g id with he | ⟨p, hp, hlt, he⟩
    · rw [he, List.mem_singleton] at h
      rw [h]
    · rw [he, List.mem_cons] at h
      rcases h with rfl | h
      · rfl
      · rw [ih p hlt h, hg.tree_parent hp]

/-- Following parents from a node leads to its tree. -/
theorem WellFormed.tree_mem_ancestors (hg : g.WellFormed) (h : id < g.size) :
    g.tree id ∈ g.ancestors id ∧ g.tree id ∈ g.trees := by
  induction id using Nat.strong_induction_on with
  | _ id ih =>
    cases hp : g.parent id with
    | none =>
      rw [hg.tree_root h hp]
      exact ⟨mem_ancestors_self g id, mem_trees.2 ⟨h, hp⟩⟩
    | some p =>
      have hlt := hg.parent_lt hp
      obtain ⟨hmem, htrees⟩ := ih p hlt (Nat.lt_trans hlt h)
      rw [hg.tree_parent hp, hg.ancestors_of_parent hp]
      exact ⟨List.mem_cons_of_mem _ hmem, htrees⟩

theorem WellFormed.tree_of_mem_trees (hg : g.WellFormed) (h : id ∈ g.trees) : g.tree id = id :=
  hg.tree_root (mem_trees.1 h).1 (mem_trees.1 h).2

end Graph
end ChatFlow.Flow
