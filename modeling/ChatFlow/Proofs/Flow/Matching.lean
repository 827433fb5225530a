import ChatFlow.Flow.Cycle
import ChatFlow.Proofs.Flow.Renaming
import Mathlib.Logic.Equiv.Basic

/-! Graphs that are equal up to the identifiers of their nodes and the slots of their calls. Whatever is
looked up in one of them by name is found in the other one under its other identifier. -/
namespace ChatFlow.Flow
open Expr
variable {ω η α : Type} {ρ : Renaming} {g g' : Graph ω η} {id a b p t : NodeId} {name : String}

/-- Whether no two trees, and no two branches of one tree, have the same name. -/
structure Graph.Distinct (g : Graph ω η) : Prop where
  trees : ∀ {a b}, a ∈ g.trees → b ∈ g.trees → (g.node a).name = (g.node b).name → a = b
  branches : ∀ {a b}, (g.parent a).isSome → (g.parent b).isSome → g.tree a = g.tree b →
    (g.node a).name = (g.node b).name → a = b

/-- Whether the second graph has the nodes of the first one under other identifiers. -/
structure Graph.Matches (ρ : Renaming) (g g' : Graph ω η) : Prop where
  bijective : Function.Bijective ρ.ids
  size_eq : g'.size = g.size
  lt_iff : ∀ {id}, ρ.ids id < g.size ↔ id < g.size
  node_eq : ∀ {id}, id < g.size → g'.node (ρ.ids id) = (g.node id).rename ρ

namespace Graph.Matches

theorem exists_ids (h : g.Matches ρ g') {id' : NodeId} (hid : id' < g'.size) :
    ∃ id, id < g.size ∧ ρ.ids id = id' := by
  obtain ⟨id, rfl⟩ := h.bijective.surjective id'
  exact ⟨id, h.lt_iff.1 (h.size_eq ▸ hid), rfl⟩

theorem of_nodes_eq {f f' : Graph ω η} (h : f.Matches ρ f') (hg : g.nodes = f.nodes)
    (hg' : g'.nodes = f'.nodes) : g.Matches ρ g' := by
  obtain ⟨nodes, roles⟩ := g
  obtain ⟨nodes', roles'⟩ := g'
  cases hg
  cases hg'
  exact ⟨h.bijective, h.size_eq, h.lt_iff, h.node_eq⟩

/-- What can be read off a node is the same in both graphs up to the renaming. -/
theorem read (h : g.Matches ρ g') (f : Node ω η → α) (r : α → α)
    (hf : ∀ n, f (n.rename ρ) = r (f n)) (hr : r (f default) = f default) (id : NodeId) : f (g'.node (ρ.ids id)) = r (f (g.node id)) := by
  rcases Nat.lt_or_ge id g.size with hlt | hge
  · rw [h.node_eq hlt, hf]
  · have hge' : g'.size ≤ ρ.ids id := by
      rw [h.size_eq]
      exact Nat.le_of_not_lt fun hlt => absurd (h.lt_iff.1 hlt) (Nat.not_lt_of_le hge)
    rw [Graph.node_of_size_le hge, Graph.node_of_size_le hge', hr]

theorem name_eq (h : g.Matches ρ g') (id : NodeId) :
    (g'.node (ρ.ids id)).name = (g.node id).name :=
  h.read Node.name (fun name => name) (fun _ => rfl) rfl id

theorem path_eq (h : g.Matches ρ g') (id : NodeId) : g'.path (ρ.ids id) = g.path id :=
  h.read Node.path (fun path => path) (fun _ => rfl) rfl id

theorem isTree_eq (h : g.Matches ρ g') (id : NodeId) :
    (g'.node (ρ.ids id)).isTree = (g.node id).isTree :=
  h.read Node.isTree (fun b => b) (fun n => by
    cases hs : n.spec <;> simp [Node.rename, Node.isTree, NodeSpec.rename, hs]) rfl id

theorem handler_eq (h : g.Matches ρ g') (id : NodeId) :
    (g'.node (ρ.ids id)).handler = (g.node id).handler :=
  h.read Node.handler (fun o => o) (fun n => by
    cases hs : n.spec <;> simp [Node.rename, Node.handler, Node.tree?, NodeSpec.rename, hs]) rfl id

theorem parent_eq (h : g.Matches ρ g') (id : NodeId) :
    g'.parent (ρ.ids id) = (g.parent id).map ρ.ids :=
  h.read Node.parent (Option.map ρ.ids) (fun _ => rfl) rfl id

theorem children_eq (h : g.Matches ρ g') (id : NodeId) :
    (g'.node (ρ.ids id)).children = (g.node id).children.map ρ.ids :=
  h.read Node.children (List.map ρ.ids) (fun _ => rfl) rfl id

theorem fallback_eq (h : g.Matches ρ g') (id : NodeId) :
    (g'.node (ρ.ids id)).fallback = (g.node id).fallback.map ρ.ids :=
  h.read Node.fallback (Option.map ρ.ids) (fun _ => rfl) rfl id

theorem branches_eq (h : g.Matches ρ g') (id : NodeId) :
    (g'.node (ρ.ids id)).branches = (g.node id).branches.map ρ.ids := by
  rw [Node.branches, h.children_eq, h.fallback_eq, Node.branches, List.map_append]
  cases (g.node id).fallback <;> rfl

theorem transition?_eq (h : g.Matches ρ g') (id : NodeId) :
    (g'.node (ρ.ids id)).transition? = (g.node id).transition?.map (Transition.rename ρ) :=
  h.read Node.transition? (Option.map (Transition.rename ρ)) (fun _ => List.head?_map) rfl id

theorem tree_eq (h : g.Matches ρ g') (hid : id < g.size) : g'.tree (ρ.ids id) = ρ.ids (g.tree id) := by
  rw [Graph.tree, h.node_eq hid]
  rfl

theorem mem_trees_iff (h : g.Matches ρ g') : ρ.ids id ∈ g'.trees ↔ id ∈ g.trees := by
  rw [Graph.mem_trees, Graph.mem_trees, h.size_eq, h.lt_iff, h.parent_eq, Option.map_eq_none_iff]

theorem trees_perm (h : g.Matches ρ g') : (g.trees.map ρ.ids).Perm g'.trees := by
  have hnodup (g : Graph ω η) : g.trees.Nodup := List.nodup_range.filter _
  refine (List.perm_ext_iff_of_nodup ((hnodup g).map h.bijective.injective) (hnodup g')).2 fun id' => ?_
  obtain ⟨id, rfl⟩ := h.bijective.surjective id'
  rw [h.mem_trees_iff, List.mem_map_of_injective h.bijective.injective]

/-- The only node with a property is found whatever the order of the nodes. -/
theorem find?_ids_eq (h : g.Matches ρ g') {q q' : NodeId → Bool}
    (hq : ∀ id < g.size, q' (ρ.ids id) = q id)
    (hunique : ∀ a < g.size, ∀ b < g.size, q a = true → q b = true → a = b) :
    g'.ids.find? q' = (g.ids.find? q).map ρ.ids := by
  cases hfind : g.ids.find? q with
  | none =>
    rw [Option.map_none, List.find?_eq_none]
    intro id' hid'
    obtain ⟨id, hid, rfl⟩ := h.exists_ids (List.mem_range.1 hid')
    rw [hq id hid]
    exact List.find?_eq_none.1 hfind id (List.mem_range.2 hid)
  | some id =>
    have hid := List.mem_range.1 (List.mem_of_find?_eq_some hfind)
    have hqid := List.find?_some hfind
    cases hfind' : g'.ids.find? q' with
    | none =>
      have hlt : ρ.ids id < g'.size := h.size_eq ▸ h.lt_iff.2 hid
      exact absurd ((hq id hid).trans hqid) (List.find?_eq_none.1 hfind' _ (List.mem_range.2 hlt))
    | some other' =>
      obtain ⟨other, hother, rfl⟩ :=
        h.exists_ids (List.mem_range.1 (List.mem_of_find?_eq_some hfind'))
      have hqother := (hq other hother).symm.trans (List.find?_some hfind')
      rw [hunique id hid other hother hqid hqother, Option.map_some]

theorem treeNamed?_eq (h : g.Matches ρ g') (hd : g.Distinct) (name : String) :
    g'.treeNamed? name = (g.treeNamed? name).map ρ.ids := by
  unfold Graph.treeNamed? Graph.trees
  rw [List.find?_filter, List.find?_filter]
  refine h.find?_ids_eq (fun id _ => ?_) fun a ha b hb hqa hqb => ?_
  · rw [h.parent_eq, h.name_eq, Option.isNone_map]
  · simp only [decide_eq_true_eq, Option.isNone_iff_eq_none, beq_iff_eq] at hqa hqb
    exact hd.trees (Graph.mem_trees.2 ⟨ha, hqa.1⟩) (Graph.mem_trees.2 ⟨hb, hqb.1⟩)
      (hqa.2.trans hqb.2.symm)

theorem branchNamed?_eq (h : g.Matches ρ g') (hd : g.Distinct) (t : NodeId) (name : String) :
    g'.branchNamed? (ρ.ids t) name = (g.branchNamed? t name).map ρ.ids := by
  refine h.find?_ids_eq (fun id hid => ?_) fun a _ b _ hqa hqb => ?_
  · rw [h.parent_eq, h.name_eq, h.tree_eq hid, Option.isSome_map,
      h.bijective.injective.beq_eq]
  · simp only [Bool.and_eq_true, beq_iff_eq] at hqa hqb
    exact hd.branches hqa.1.1 hqb.1.1 (hqa.1.2.trans hqb.1.2.symm) (hqa.2.trans hqb.2.symm)

theorem branchBelow?_eq (h : g.Matches ρ g') (id : NodeId) (name : String) :
    g'.branchBelow? (ρ.ids id) name = (g.branchBelow? id name).map ρ.ids := by
  rw [Graph.branchBelow?, h.branches_eq, List.find?_map, Graph.branchBelow?]
  simp only [Function.comp_def, h.name_eq]

theorem lookup?_eq (h : g.Matches ρ g') (hd : g.Distinct) (hid : id < g.size) (name : String) :
    g'.lookup? (some (ρ.ids id)) name = (g.lookup? (some id) name).map ρ.ids := by
  have hwalk (names : List String) (start : NodeId) :
      names.foldlM g'.branchBelow? (ρ.ids start) = (names.foldlM g.branchBelow? start).map ρ.ids := by
    induction names generalizing start with
    | nil => rfl
    | cons name rest ih =>
      rw [List.foldlM_cons, List.foldlM_cons, h.branchBelow?_eq]
      cases g.branchBelow? start name with
      | none => rfl
      | some next => exact ih next
  unfold Graph.lookup?
  split
  · rename_i first second rest _
    rw [h.treeNamed?_eq hd]
    cases g.treeNamed? first with
    | none => rfl
    | some start => exact hwalk _ start
  · rw [Option.bind_some, Option.bind_some, h.tree_eq hid, h.branchNamed?_eq hd, h.treeNamed?_eq hd]
    cases g.branchNamed? (g.tree id) name <;> rfl

theorem ancestors_eq (h : g.Matches ρ g') (hg : g.WellFormed) (hg' : g'.WellFormed) (id : NodeId) :
    g'.ancestors (ρ.ids id) = (g.ancestors id).map ρ.ids := by
  induction id using Nat.strong_induction_on with
  | _ id ih =>
    cases hp : g.parent id with
    | none =>
      have hp' : g'.parent (ρ.ids id) = none := by rw [h.parent_eq, hp, Option.map_none]
      rw [Graph.ancestors_eq, Graph.ancestors_eq, hp, hp']
      rfl
    | some p =>
      have hp' : g'.parent (ρ.ids id) = some (ρ.ids p) := by rw [h.parent_eq, hp, Option.map_some]
      rw [hg.ancestors_of_parent hp, hg'.ancestors_of_parent hp', ih p (hg.parent_lt hp), List.map_cons]

theorem isAncestor_eq (h : g.Matches ρ g') (hg : g.WellFormed) (hg' : g'.WellFormed) (a b : NodeId) :
    g'.isAncestor (ρ.ids a) (ρ.ids b) = g.isAncestor a b := by
  rw [Graph.isAncestor, h.ancestors_eq hg hg', Graph.isAncestor, Bool.eq_iff_iff, List.contains_iff_mem,
    List.contains_iff_mem, List.mem_map_of_injective h.bijective.injective]

/-! Automatic transitions. -/

theorem automaticTarget?_eq (h : g.Matches ρ g') (id : NodeId) :
    g'.automaticTarget? (ρ.ids id) = (g.automaticTarget? id).map ρ.ids := by
  rw [Graph.automaticTarget?, Graph.automaticTarget?, h.transition?_eq]
  cases (g.node id).transition? with
  | none => rfl
  | some t =>
    obtain ⟨move, target, options, actions, site⟩ := t
    cases target <;> cases move <;>
      simp [Transition.rename, h.parent_eq, Option.getD_map]

theorem revisits_eq (h : g.Matches ρ g') (left : Nat) (visited : List NodeId) (id : NodeId) :
    g'.revisits left (visited.map ρ.ids) (ρ.ids id) = g.revisits left visited id := by
  induction left generalizing visited id with
  | zero => rfl
  | succ left ih =>
    rw [Graph.revisits, Graph.revisits, h.automaticTarget?_eq]
    cases g.automaticTarget? id with
    | none => rfl
    | some target =>
      have hcontains : (visited.map ρ.ids).contains (ρ.ids target) = visited.contains target := by
        rw [Bool.eq_iff_iff, List.contains_iff_mem, List.contains_iff_mem,
          List.mem_map_of_injective h.bijective.injective]
      simp only [Option.map_some, hcontains]
      rw [← List.map_cons, ih]

theorem cyclesFrom_eq (h : g.Matches ρ g') (id : NodeId) :
    g'.cyclesFrom (ρ.ids id) = g.cyclesFrom id := by
  rw [Graph.cyclesFrom, h.size_eq]
  exact h.revisits_eq _ [id] id

theorem checkCycles_ok (h : g.Matches ρ g') (hg : g.checkCycles = .ok ()) : g'.checkCycles = .ok () := by
  unfold Graph.checkCycles at hg ⊢
  split at hg
  · cases hg
  · rename_i hnone
    have hnone' : g'.ids.find? g'.cyclesFrom = none := by
      rw [List.find?_eq_none] at hnone ⊢
      intro id' hid'
      obtain ⟨id, hid, rfl⟩ := h.exists_ids (List.mem_range.1 hid')
      rw [h.cyclesFrom_eq]
      exact hnone id (List.mem_range.2 hid)
    rw [hnone']

end Graph.Matches
end ChatFlow.Flow
