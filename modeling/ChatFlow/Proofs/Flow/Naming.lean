import ChatFlow.Proofs.Flow.Appending
import ChatFlow.Proofs.Flow.Matching

/-! Inserting nodes keeps the names of trees, and of the branches of each tree, apart. -/
namespace ChatFlow.Flow.Graph
open Expr
variable {ω η : Type} {ρ : Renaming} {g g' c : Graph ω η} {n : Node ω η} {parent : Option NodeId}
  {id t : NodeId} {name : String} {isDefault : Bool}

theorem treeNamed?_eq_none :
    g.treeNamed? name = none ↔ ∀ t ∈ g.trees, (g.node t).name ≠ name := by
  simp [treeNamed?, List.find?_eq_none]

theorem name_ne_of_branchNamed? (h : g.branchNamed? t name = none) (hp : (g.parent id).isSome)
    (ht : g.tree id = t) : (g.node id).name ≠ name := by
  obtain ⟨p, hparent⟩ := Option.isSome_iff_exists.1 hp
  have hid := List.find?_eq_none.1 h id (List.mem_range.2 (lt_size_of_parent hparent))
  simpa [hp, ht] using hid

theorem insertTree_eq_ok_iff : g.insertTree n = .ok g' ↔ g.treeNamed? n.name = none ∧
    g' = g.push { n with parent := none, tree := g.size, depth := 0, path := n.name } := by
  constructor
  · intro h
    refine ⟨?_, insertTree_eq_ok h⟩
    by_contra hsome
    rw [insertTree, if_pos (Option.isSome_iff_ne_none.2 hsome)] at h
    cases h
  · rintro ⟨hnone, rfl⟩
    rw [insertTree, hnone]
    rfl

/-- What the names and the parents of a graph are after a node has been inserted. -/
structure Inserted (g g' : Graph ω η) (n : Node ω η) (parent : Option NodeId) : Prop where
  size_eq : g'.size = g.size + 1
  old : ∀ {id}, id ≠ g.size →
    g'.parent id = g.parent id ∧ g'.tree id = g.tree id ∧ (g'.node id).name = (g.node id).name
  parent_eq : g'.parent g.size = parent
  name_eq : (g'.node g.size).name = n.name
  fresh_tree : parent = none → g.treeNamed? n.name = none
  fresh_branch : ∀ p, parent = some p →
    g'.tree g.size = g.tree p ∧ g.branchNamed? (g.tree p) n.name = none

theorem inserted_insert (hp : ∀ p, parent = some p → p < g.size)
    (h : g.insert n parent isDefault = .ok g') : g.Inserted g' n parent := by
  cases parent with
  | none =>
    obtain ⟨hfresh, rfl⟩ := insertTree_eq_ok_iff.1 h
    refine ⟨size_push .., fun hid => ?_, ?_, ?_, fun _ => hfresh, fun p hp => by cases hp⟩
    · simp [Graph.parent, Graph.tree, node_push, hid]
    · simp [Graph.parent, node_push]
    · simp [node_push]
  | some p =>
    have hlt := hp p rfl
    have hne : g.size ≠ p := Nat.ne_of_gt hlt
    have hfresh : g.branchNamed? (g.tree p) n.name = none := by
      by_contra hsome
      have hnamed := Option.isSome_iff_ne_none.2 hsome
      rw [insert, insertBranch_eq, hnamed] at h
      simp only [Bool.true_or, if_true] at h
      split at h <;> cases h
    rw [insertBranch_eq_ok h]
    have hlt' (m : Node ω η) : p < (g.push m).size := by
      rw [size_push]
      exact Nat.lt_succ_of_lt hlt
    have hname (q : Node ω η) : (link g.size isDefault q).name = q.name := by cases isDefault <;> rfl
    refine ⟨by simp, fun {id} hid => ?_, ?_, ?_, (fun hnone => by cases hnone), ?_⟩
    · simp only [Graph.parent, Graph.tree, node_modify _ (hlt' _), node_push, if_neg hid]
      split <;> simp [hname]
    · simp [Graph.parent, node_modify _ (hlt' _), node_push, hne]
    · simp [node_modify _ (hlt' _), node_push, hne]
    · rintro _ ⟨⟩
      exact ⟨by simp [Graph.tree, node_modify _ (hlt' _), node_push, hne], hfresh⟩

theorem distinct_empty : (empty : Graph ω η).Distinct :=
  ⟨fun ha => absurd (mem_trees.1 ha).1 (Nat.not_lt_zero _), fun ha => by cases ha⟩

theorem Distinct.insert (hd : g.Distinct) (h : g.Inserted g' n parent) : g'.Distinct := by
  have hold {id : NodeId} (hid : id ≠ g.size) (ht : id ∈ g'.trees) : id ∈ g.trees := by
    obtain ⟨hlt, hroot⟩ := mem_trees.1 ht
    rw [h.size_eq] at hlt
    exact mem_trees.2 ⟨Nat.lt_of_le_of_ne (Nat.le_of_lt_succ hlt) hid, (h.old hid).1 ▸ hroot⟩
  have htree {id : NodeId} (hroot : g'.parent g.size = none) (hid : id ≠ g.size) (ht : id ∈ g'.trees) :
      (g'.node id).name ≠ (g'.node g.size).name := by
    rw [(h.old hid).2.2, h.name_eq]
    exact treeNamed?_eq_none.1 (h.fresh_tree (h.parent_eq.symm.trans hroot)) id (hold hid ht)
  have hbranch {id : NodeId} (hsome : (g'.parent g.size).isSome) (hid : id ≠ g.size)
      (hp : (g'.parent id).isSome) (ht : g'.tree id = g'.tree g.size) :
      (g'.node id).name ≠ (g'.node g.size).name := by
    obtain ⟨p, hparent⟩ := Option.isSome_iff_exists.1 hsome
    obtain ⟨hnew, hfresh⟩ := h.fresh_branch p (h.parent_eq.symm.trans hparent)
    obtain ⟨hparent', htree', hname'⟩ := h.old hid
    rw [hname', h.name_eq]
    exact name_ne_of_branchNamed? hfresh (hparent' ▸ hp) (htree'.symm.trans (ht.trans hnew))
  constructor
  · intro a b ha hb hab
    by_cases hsa : a = g.size <;> by_cases hsb : b = g.size
    · rw [hsa, hsb]
    · subst hsa
      exact absurd hab.symm (htree (mem_trees.1 ha).2 hsb hb)
    · subst hsb
      exact absurd hab (htree (mem_trees.1 hb).2 hsa ha)
    · rw [(h.old hsa).2.2, (h.old hsb).2.2] at hab
      exact hd.trees (hold hsa ha) (hold hsb hb) hab
  · intro a b ha hb htrees hab
    by_cases hsa : a = g.size <;> by_cases hsb : b = g.size
    · rw [hsa, hsb]
    · subst hsa
      exact absurd hab.symm (hbranch ha hsb hb htrees.symm)
    · subst hsb
      exact absurd hab (hbranch hb hsa ha htrees)
    · rw [(h.old hsa).2.2, (h.old hsb).2.2] at hab
      rw [(h.old hsa).2.1, (h.old hsb).2.1] at htrees
      exact hd.branches ((h.old hsa).1 ▸ ha) ((h.old hsb).1 ▸ hb) htrees hab

/-- Names do not depend on what the second pass reads. -/
theorem Distinct.of_bare (hd : g.Distinct) (hs : g'.size = g.size)
    (hb : ∀ id, (g'.node id).bare = (g.node id).bare) : g'.Distinct := by
  have hname (id : NodeId) : (g'.node id).name = (g.node id).name :=
    (congrArg Node.name (hb id) : (g'.node id).bare.name = _)
  have hparent (id : NodeId) : g'.parent id = g.parent id :=
    (congrArg Node.parent (hb id) : (g'.node id).bare.parent = _)
  have htree (id : NodeId) : g'.tree id = g.tree id :=
    (congrArg Node.tree (hb id) : (g'.node id).bare.tree = _)
  refine ⟨fun ha hb' hab => ?_, fun ha hb' htrees hab => ?_⟩
  · rw [mem_trees, hs, hparent, ← mem_trees] at ha hb'
    exact hd.trees ha hb' (by rwa [hname, hname] at hab)
  · rw [hparent] at ha hb'
    exact hd.branches ha hb' (by rwa [htree, htree] at htrees) (by rwa [hname, hname] at hab)

/-- Names that are apart are so under other identifiers. -/
theorem Distinct.of_matches (hd : g.Distinct) (h : g.Matches ρ g') : g'.Distinct := by
  constructor
  · intro a' b' ha hb hab
    obtain ⟨a, hlt, rfl⟩ := h.exists_ids (mem_trees.1 ha).1
    obtain ⟨b, hlt', rfl⟩ := h.exists_ids (mem_trees.1 hb).1
    rw [h.name_eq, h.name_eq] at hab
    rw [hd.trees (h.mem_trees_iff.1 ha) (h.mem_trees_iff.1 hb) hab]
  · intro a' b' ha hb htrees hab
    obtain ⟨p, hp⟩ := Option.isSome_iff_exists.1 ha
    obtain ⟨q, hq⟩ := Option.isSome_iff_exists.1 hb
    obtain ⟨a, hlt, rfl⟩ := h.exists_ids (lt_size_of_parent hp)
    obtain ⟨b, hlt', rfl⟩ := h.exists_ids (lt_size_of_parent hq)
    rw [h.name_eq, h.name_eq] at hab
    rw [h.tree_eq hlt, h.tree_eq hlt', h.bijective.injective.eq_iff] at htrees
    rw [h.parent_eq, Option.isSome_map] at ha hb
    rw [hd.branches ha hb htrees hab]

theorem Distinct.name_ne_of_append (hd : (g.append c).Distinct) {s : NodeId} (hs : s ∈ g.trees)
    (ht : t ∈ c.trees) : (g.node s).name ≠ (c.node t).name := by
  intro hname
  have hlt := (mem_trees.1 hs).1
  rw [← node_append_of_lt hlt, ← name_append_add t] at hname
  exact Nat.ne_of_lt (Nat.lt_add_right t hlt)
    (hd.trees (mem_trees_append hs) (mem_trees_append_add ht) hname)

theorem Distinct.of_append (hd : (g.append c).Distinct) : g.Distinct := by
  have hsame {id : NodeId} (hlt : id < g.size) : (g.append c).node id = g.node id := node_append_of_lt hlt
  constructor
  · intro a b ha hb hab
    rw [← hsame (mem_trees.1 ha).1, ← hsame (mem_trees.1 hb).1] at hab
    exact hd.trees (mem_trees_append ha) (mem_trees_append hb) hab
  · intro a b ha hb htrees hab
    obtain ⟨p, hp⟩ := Option.isSome_iff_exists.1 ha
    obtain ⟨q, hq⟩ := Option.isSome_iff_exists.1 hb
    have hlt := hsame (lt_size_of_parent hp)
    have hlt' := hsame (lt_size_of_parent hq)
    simp only [Graph.parent, Graph.tree] at ha hb htrees
    rw [← hlt] at ha htrees hab
    rw [← hlt'] at hb htrees hab
    exact hd.branches ha hb htrees hab

end ChatFlow.Flow.Graph
