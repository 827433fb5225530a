import ChatFlow.Proofs.Flow.Naming

/-! Graphs that are built by inserting one node after another. Parents and children know each other, and
every node knows how deep it hangs and under which path. -/
namespace ChatFlow.Flow
variable {ω η : Type}

namespace Graph
variable {g g' : Graph ω η} {n : Node ω η} {id a b c p t : NodeId} {parent : Option NodeId}
  {isDefault : Bool}

/-- A node as it stands in the graph once it is inserted. -/
def placed (g : Graph ω η) (n : Node ω η) : Option NodeId → Node ω η
  | none => { n with parent := none, tree := g.size, depth := 0, path := n.name }
  | some p => g.hung n p

theorem insertBranch_eq_ok_iff : g.insertBranch n p isDefault = .ok g' ↔
    (isDefault = true → (g.node p).fallback = none) ∧ g.branchNamed? (g.tree p) n.name = none ∧
      (g.node (g.tree p)).name ≠ n.name ∧
      g' = (g.push (g.hung n p)).modify p (link g.size isDefault) := by
  have hplace : (isDefault && (g.node p).fallback.isSome) = true ↔
      ¬ (isDefault = true → (g.node p).fallback = none) := by
    cases isDefault <;> simp [Option.isSome_iff_ne_none]
  have hname : ((g.branchNamed? (g.tree p) n.name).isSome ||
      (g.node (g.tree p)).name == n.name) = true ↔
      ¬ (g.branchNamed? (g.tree p) n.name = none ∧ (g.node (g.tree p)).name ≠ n.name) := by
    simp [Option.isSome_iff_ne_none, Classical.or_iff_not_imp_left]
  rw [insertBranch_eq]
  constructor
  · intro h
    split at h
    · cases h
    · rename_i hfree
      split at h
      · cases h
      · rename_i hfresh
        cases h
        obtain ⟨hnone, hne⟩ := not_not.1 (mt hname.2 hfresh)
        exact ⟨not_not.1 (mt hplace.2 hfree), hnone, hne, rfl⟩
  · rintro ⟨hfree, hnone, hne, rfl⟩
    rw [if_neg fun h => hplace.1 h hfree, if_neg fun h => hname.1 h ⟨hnone, hne⟩]

/-- A branch that is linked below a node is added to its branches. -/
theorem branches_link {q : Node ω η} (h : isDefault = true → q.fallback = none) :
    (link id isDefault q).branches.Perm (id :: q.branches) := by
  cases isDefault with
  | false =>
    simp only [link, Bool.false_eq_true, if_false, Node.branches, List.append_assoc]
    exact List.perm_middle
  | true =>
    simp only [link, if_true, Node.branches, h rfl, Option.toList_none, Option.toList_some,
      List.append_nil]
    exact List.perm_append_comm

section
variable (hp : ∀ p, parent = some p → p < g.size) (h : g.insert n parent isDefault = .ok g')
include hp h

/-- Everything that an insertion does to the nodes of a graph. -/
theorem node_insert (id : NodeId) :
    g'.node id =
      if id = g.size then g.placed n parent
      else if parent = some id then link g.size isDefault (g.node id)
      else g.node id := by
  cases parent with
  | none =>
    obtain ⟨-, rfl⟩ := insertTree_eq_ok_iff.1 h
    exact node_push id
  | some p =>
    obtain ⟨-, -, -, rfl⟩ := insertBranch_eq_ok_iff.1 h
    have hlt := hp p rfl
    have hlt' : p < (g.push (g.hung n p)).size := by
      rw [size_push]
      exact Nat.lt_succ_of_lt hlt
    rw [node_modify _ hlt', node_push]
    by_cases hid : id = g.size
    · have hne : id ≠ p := fun he => Nat.ne_of_lt hlt (he.symm.trans hid)
      rw [if_neg hne, if_pos hid, if_pos hid]
      rfl
    · simp only [if_neg hid, Option.some.injEq, eq_comm]

theorem node_insert_self : g'.node g.size = g.placed n parent := by
  rw [node_insert hp h, if_pos rfl]

/-- Nodes that are there before an insertion keep everything but their branches. -/
theorem read_insert {α : Type} (f : Node ω η → α) (hf : ∀ id isDefault q, f (link id isDefault q) = f q)
    (hid : id ≠ g.size) : f (g'.node id) = f (g.node id) := by
  rw [node_insert hp h, if_neg hid]
  split
  · exact hf ..
  · rfl

theorem place_insert (hid : id ≠ g.size) :
    (g'.node id).depth = (g.node id).depth ∧ g'.path id = g.path id := by
  constructor
  · exact read_insert hp h Node.depth (fun _ isDefault _ => by cases isDefault <;> rfl) hid
  · exact read_insert hp h Node.path (fun _ isDefault _ => by cases isDefault <;> rfl) hid

theorem branches_insert (hid : id ≠ g.size) :
    (g'.node id).branches.Perm
      (if parent = some id then g.size :: (g.node id).branches else (g.node id).branches) := by
  rw [node_insert hp h, if_neg hid]
  split
  · rename_i hhere
    subst hhere
    exact branches_link (insertBranch_eq_ok_iff.1 h).1
  · exact .refl _

end

/-- Whether parents and children know each other, and whether every node knows its depth and its path and
has another name than its tree. -/
structure Linked (g : Graph ω η) : Prop where
  mem_branches : ∀ {id p}, g.parent id = some p → id ∈ (g.node p).branches
  nodup_branches : ∀ id, (g.node id).branches.Nodup
  root : ∀ {id}, id < g.size → g.parent id = none →
    (g.node id).depth = 0 ∧ g.path id = (g.node id).name
  below : ∀ {id p}, g.parent id = some p → (g.node id).depth = (g.node p).depth + 1 ∧
    g.path id = g.path p ++ "/" ++ (g.node id).name ∧ (g.node id).name ≠ (g.node (g.tree id)).name

theorem linked_empty : (empty : Graph ω η).Linked where
  mem_branches := by
    intro id p h
    cases h
  nodup_branches := fun id => List.nodup_nil
  root := fun h => absurd h (Nat.not_lt_zero _)
  below := by
    intro id p h
    cases h

theorem WellFormed.lt_size_parent (hw : g.WellFormed) (h : g.parent id = some p) : p < g.size :=
  Nat.lt_trans (hw.parent_lt h) (lt_size_of_parent h)

theorem Linked.insert (hw : g.WellFormed) (hl : g.Linked) (hn : n.branches = [])
    (hp : ∀ p, parent = some p → p < g.size) (h : g.insert n parent isDefault = .ok g') :
    g'.Linked := by
  have hins := inserted_insert hp h
  have hnew := node_insert_self hp h
  constructor
  case mem_branches =>
    intro id q hq
    by_cases hid : id = g.size
    · subst hid
      rw [hins.parent_eq] at hq
      rw [(branches_insert hp h (Nat.ne_of_lt (hp q hq))).mem_iff, if_pos hq]
      exact List.mem_cons_self
    · rw [(hins.old hid).1] at hq
      rw [(branches_insert hp h (Nat.ne_of_lt (hw.lt_size_parent hq))).mem_iff]
      split
      · exact List.mem_cons_of_mem _ (hl.mem_branches hq)
      · exact hl.mem_branches hq
  case nodup_branches =>
    intro id
    by_cases hid : id = g.size
    · have hnone : (g.placed n parent).branches = [] := by cases parent <;> exact hn
      rw [hid, hnew, hnone]
      exact .nil
    · rw [(branches_insert hp h hid).nodup_iff]
      split
      · refine List.nodup_cons.2 ⟨fun hmem => ?_, hl.nodup_branches id⟩
        exact absurd (lt_size_of_parent (hw.parent_branch hmem)) (Nat.lt_irrefl _)
      · exact hl.nodup_branches id
  case root =>
    intro id hlt hroot
    by_cases hid : id = g.size
    · subst hid
      rw [hins.parent_eq] at hroot
      subst hroot
      rw [Graph.path, hnew]
      exact ⟨rfl, rfl⟩
    · have hlt' := hins.size_eq ▸ hlt
      obtain ⟨hparent, -, hname⟩ := hins.old hid
      obtain ⟨hdepth, hpath⟩ := place_insert hp h hid
      rw [hname, hdepth, hpath]
      exact hl.root (by omega) (hparent ▸ hroot)
  case below =>
    intro id q hq
    by_cases hid : id = g.size
    · subst hid
      rw [hins.parent_eq] at hq
      subst hq
      have hlt := hp q rfl
      obtain ⟨hdepth, hpath⟩ := place_insert hp h (Nat.ne_of_lt hlt)
      obtain ⟨htree, -⟩ := hins.fresh_branch q rfl
      rw [hdepth, hpath, htree, (hins.old (Nat.ne_of_lt (hw.tree_lt hlt))).2.2, Graph.path, hnew]
      exact ⟨rfl, rfl, (insertBranch_eq_ok_iff.1 h).2.2.1.symm⟩
    · obtain ⟨hparent, htree, hname⟩ := hins.old hid
      obtain ⟨hdepth, hpath⟩ := place_insert hp h hid
      rw [hparent] at hq
      obtain ⟨hdepth', hpath'⟩ := place_insert hp h (Nat.ne_of_lt (hw.lt_size_parent hq))
      have hroot := hins.old (Nat.ne_of_lt (hw.tree_lt (lt_size_of_parent hq)))
      rw [hname, hdepth, hpath, htree, hdepth', hpath', hroot.2.2]
      exact hl.below hq

theorem read_of_bare {α : Type} (f : Node ω η → α) (hf : ∀ n, f n.bare = f n) {m n : Node ω η}
    (h : m.bare = n.bare) : f m = f n := by
  rw [← hf m, h, hf]

/-- Links and places do not depend on what the second pass reads. -/
theorem Linked.of_bare (hl : g.Linked) (hs : g'.size = g.size)
    (hb : ∀ id, (g'.node id).bare = (g.node id).bare) : g'.Linked := by
  have hname (id : NodeId) := read_of_bare Node.name (fun _ => rfl) (hb id)
  have hparent (id : NodeId) : g'.parent id = g.parent id := read_of_bare Node.parent (fun _ => rfl) (hb id)
  have htree (id : NodeId) : g'.tree id = g.tree id := read_of_bare Node.tree (fun _ => rfl) (hb id)
  have hdepth (id : NodeId) := read_of_bare Node.depth (fun _ => rfl) (hb id)
  have hpath (id : NodeId) : g'.path id = g.path id := read_of_bare Node.path (fun _ => rfl) (hb id)
  have hbranches (id : NodeId) := read_of_bare Node.branches (fun _ => rfl) (hb id)
  constructor
  case mem_branches =>
    intro id p hp
    rw [hbranches]
    exact hl.mem_branches (hparent id ▸ hp)
  case nodup_branches =>
    intro id
    rw [hbranches]
    exact hl.nodup_branches id
  case root =>
    intro id hlt hp
    rw [hdepth, hpath, hname]
    exact hl.root (hs ▸ hlt) (hparent id ▸ hp)
  case below =>
    intro id p hp
    rw [hdepth, hdepth, hpath, hpath, hname, htree, hname]
    exact hl.below (hparent id ▸ hp)

/-! What the links say about the way from a tree down to a node. -/

theorem pathTo_root (h : g.parent id = none) : g.pathTo id = [id] := by
  rw [pathTo, ancestors_eq, h]
  rfl

theorem WellFormed.pathTo_below (hw : g.WellFormed) (h : g.parent id = some p) :
    g.pathTo id = g.pathTo p ++ [id] := by
  rw [pathTo, hw.ancestors_of_parent h, List.reverse_cons]
  rfl

/-- What holds of trees and passes from every node to its branches holds of all nodes. -/
theorem WellFormed.descend (hw : g.WellFormed) {P : NodeId → Prop}
    (root : ∀ id, id < g.size → g.parent id = none → P id)
    (below : ∀ id p, g.parent id = some p → P p → P id) (h : id < g.size) : P id := by
  induction id using Nat.strong_induction_on with
  | _ id ih =>
    cases hp : g.parent id with
    | none => exact root id h hp
    | some p => exact below id p hp (ih p (hw.parent_lt hp) (hw.lt_size_parent hp))

/-- Names of the nodes from a tree down to a node. -/
def names (g : Graph ω η) (id : NodeId) : List String := (g.pathTo id).map fun a => (g.node a).name

theorem names_root (h : g.parent id = none) : g.names id = [(g.node id).name] := by
  rw [names, pathTo_root h, List.map_singleton]

theorem WellFormed.names_below (hw : g.WellFormed) (h : g.parent id = some p) :
    g.names id = g.names p ++ [(g.node id).name] := by
  rw [names, hw.pathTo_below h, List.map_append]
  rfl

theorem names_ne_nil (g : Graph ω η) (id : NodeId) : g.names id ≠ [] := by
  rw [names, pathTo, ancestors_eq]
  simp

theorem WellFormed.head?_pathTo (hw : g.WellFormed) (h : id < g.size) :
    (g.pathTo id).head? = some (g.tree id) := by
  refine hw.descend (P := fun id => (g.pathTo id).head? = some (g.tree id))
    (fun id hlt hp => ?_) (fun id p hp ih => ?_) h
  · rw [pathTo_root hp, hw.tree_root hlt hp]
    rfl
  · rw [hw.pathTo_below hp, hw.tree_parent hp, List.head?_append, ih]
    rfl

theorem Linked.length_pathTo (hl : g.Linked) (hw : g.WellFormed) (h : id < g.size) :
    (g.pathTo id).length = (g.node id).depth + 1 := by
  refine hw.descend (P := fun id => (g.pathTo id).length = (g.node id).depth + 1)
    (fun id hlt hp => ?_) (fun id p hp ih => ?_) h
  · rw [pathTo_root hp, (hl.root hlt hp).1]
    rfl
  · rw [hw.pathTo_below hp, List.length_append, ih, (hl.below hp).1]
    rfl

theorem Linked.path_eq (hl : g.Linked) (hw : g.WellFormed) (h : id < g.size) :
    g.path id = "/".intercalate (g.names id) := by
  refine hw.descend (P := fun id => g.path id = "/".intercalate (g.names id))
    (fun id hlt hp => ?_) (fun id p hp ih => ?_) h
  · rw [names_root hp, String.intercalate_singleton, (hl.root hlt hp).2]
  · rw [hw.names_below hp, String.intercalate_append_of_ne_nil (names_ne_nil g p) (by simp), ← ih,
      String.intercalate_singleton, (hl.below hp).2.1]

/-- Inside a tree, names are apart, that of the tree included. -/
theorem Linked.eq_of_name (hl : g.Linked) (hw : g.WellFormed) (hd : g.Distinct) (ha : a < g.size)
    (hb : b < g.size) (htree : g.tree a = g.tree b) (hname : (g.node a).name = (g.node b).name) :
    a = b := by
  cases hpa : g.parent a with
  | none =>
    have hra := hw.tree_root ha hpa
    cases hpb : g.parent b with
    | none => rw [← hra, htree, hw.tree_root hb hpb]
    | some q => exact absurd (by rw [← hname, ← htree, hra]) (hl.below hpb).2.2
  | some p =>
    cases hpb : g.parent b with
    | none => exact absurd (by rw [hname, htree, hw.tree_root hb hpb]) (hl.below hpa).2.2
    | some q => exact hd.branches (by rw [hpa]; rfl) (by rw [hpb]; rfl) htree hname

/-- A branch hangs once below its parent and nowhere else. -/
theorem Linked.count_branches (hl : g.Linked) (hw : g.WellFormed) (h : g.parent id = some p) :
    (g.node p).branches.count id = 1 ∧ ∀ q ≠ p, id ∉ (g.node q).branches := by
  refine ⟨List.count_eq_one_of_mem (hl.nodup_branches p) (hl.mem_branches h), ?_⟩
  intro q hq hmem
  have hparent := hw.parent_branch hmem
  rw [h] at hparent
  exact hq (Option.some.inj hparent).symm

/-- Whether a node may be inserted: it has no branches yet, and is a tree at the top only. -/
structure Admits (g : Graph ω η) (n : Node ω η) (parent : Option NodeId) : Prop where
  branches_eq : n.branches = []
  isTree_eq : n.isTree = parent.isNone
  parent_lt : ∀ p, parent = some p → p < g.size

/-- The graphs that are built by insertions. -/
inductive Built : Graph ω η → Prop where
  | empty : Built .empty
  | insert {g g' : Graph ω η} {n : Node ω η} {parent : Option NodeId} {isDefault : Bool}
    (hg : Built g) (hn : g.Admits n parent) (h : g.insert n parent isDefault = .ok g') : Built g'

theorem WellFormed.insert (hw : g.WellFormed) (hn : g.Admits n parent)
    (h : g.insert n parent isDefault = .ok g') : g'.WellFormed := by
  obtain ⟨hbranches, hkind, hp⟩ := hn
  cases parent with
  | none => exact hw.insertTree hbranches hkind h
  | some p => exact hw.insertBranch hbranches hkind (hp p rfl) h

/-- What holds of every graph that is built by insertions. -/
structure Arranged (g : Graph ω η) : Prop where
  wellFormed : g.WellFormed
  distinct : g.Distinct
  linked : g.Linked

theorem arranged_empty : (empty : Graph ω η).Arranged :=
  ⟨wellFormed_empty, distinct_empty, linked_empty⟩

theorem Arranged.insert (hg : g.Arranged) (hn : g.Admits n parent)
    (h : g.insert n parent isDefault = .ok g') : g'.Arranged where
  wellFormed := hg.wellFormed.insert hn h
  distinct := hg.distinct.insert (inserted_insert hn.parent_lt h)
  linked := hg.linked.insert hg.wellFormed hn.branches_eq hn.parent_lt h

theorem Arranged.of_bare (hg : g.Arranged) (hs : g'.size = g.size)
    (hb : ∀ id, (g'.node id).bare = (g.node id).bare) : g'.Arranged where
  wellFormed := hg.wellFormed.of_bare hs hb
  distinct := hg.distinct.of_bare hs hb
  linked := hg.linked.of_bare hs hb

theorem Built.arranged (hg : g.Built) : g.Arranged := by
  induction hg with
  | empty => exact arranged_empty
  | insert _ hn h ih => exact ih.insert hn h

end Graph
end ChatFlow.Flow
