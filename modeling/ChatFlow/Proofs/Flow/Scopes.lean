import ChatFlow.Proofs.Flow.Callers
import ChatFlow.Proofs.Flow.Deferral

/-! What a hop runs is held by its graph, and every expression that it evaluates is for the handlers of the tree
in which it is evaluated. -/
namespace ChatFlow.Flow
open Expr
variable {ω η : Type} {g : Graph ω η} {r : Router ω η} {gate : Gate} {n : Navigation} {id tree : NodeId}
  {t : Transition ω η} {h : Hop ω η} {a : Action ω η} {e : Expression ω η} {hops : List (Hop ω η)}

/-- All actions of a node, those of its transitions included. -/
def Node.allActions (n : Node ω η) : List (Action ω η) :=
  n.actions ++ n.exitActions ++ n.reentryActions ++ n.transitions.flatMap Transition.actions

/-- All expressions of a node: its condition, the guards of its transitions and what its actions evaluate. -/
def Node.expressions (n : Node ω η) : List (Expression ω η) :=
  n.condition?.toList ++ (n.transitions.filterMap fun t => t.options.execute) ++
    n.allActions.flatMap Action.expressions

theorem Node.condition?_of_tree {n : Node ω η} {spec : TreeSpec ω η} (hs : n.tree? = some spec) :
    n.condition? = spec.predicate := by
  cases hspec : n.spec with
  | branch spec' => simp [Node.tree?, hspec] at hs
  | tree spec' =>
    simp only [Node.tree?, hspec, Option.some.injEq] at hs
    simp [Node.condition?, hspec, hs]

theorem Node.condition?_of_branch {n : Node ω η} {spec : BranchSpec ω η} (hs : n.branch? = some spec) :
    n.condition? = spec.guard := by
  cases hspec : n.spec with
  | tree spec' => simp [Node.branch?, hspec] at hs
  | branch spec' =>
    simp only [Node.branch?, hspec, Option.some.injEq] at hs
    simp [Node.condition?, hspec, hs]

namespace Graph

def actions (g : Graph ω η) : List (Action ω η) := g.nodes.flatMap Node.allActions

def expressions (g : Graph ω η) : List (Expression ω η) := g.nodes.flatMap Node.expressions

/-- What a node has is among what all nodes have. -/
theorem mem_flatMap_nodes {α : Type} {f : Node ω η → List α} {x : α} (hf : f default = [])
    (hx : x ∈ f (g.node id)) : x ∈ g.nodes.flatMap f := by
  rcases Nat.lt_or_ge id g.size with hlt | hge
  · refine List.mem_flatMap.2 ⟨_, ?_, hx⟩
    simp [node, List.getElem?_eq_getElem (show id < g.nodes.length from hlt)]
  · rw [node_of_size_le hge, hf] at hx
    cases hx

theorem mem_actions_of_node (ha : a ∈ (g.node id).allActions) : a ∈ g.actions :=
  mem_flatMap_nodes rfl ha

theorem Declares.actions_subset (ht : g.Declares t) (ha : a ∈ t.actions) : a ∈ g.actions := by
  obtain ⟨n, hn, ht⟩ := ht.mem
  exact List.mem_flatMap.2 ⟨n, hn, List.mem_append_right _ (List.mem_flatMap.2 ⟨t, ht, ha⟩)⟩

theorem Declares.execute_mem (ht : g.Declares t) (he : t.options.execute = some e) :
    e ∈ g.expressions := by
  obtain ⟨n, hn, ht⟩ := ht.mem
  refine List.mem_flatMap.2 ⟨n, hn, List.mem_append_left _ (List.mem_append_right _ ?_)⟩
  exact List.mem_filterMap.2 ⟨t, ht, he⟩

end Graph

/-- Whether the expressions of an action are for the handlers of its tree. -/
def Action.InScope (g : Graph ω η) (a : Action ω η) : Prop :=
  ∀ e ∈ a.expressions, e.ScopedTo (g.node a.tree).handler

/-- Whether all that a hop runs is held by the graph, and all that it evaluates is for the handlers of the trees
in which it is evaluated: that of an action in its tree, and the guard where the hop starts. -/
structure Hop.InScope (g : Graph ω η) (h : Hop ω η) : Prop where
  actions_mem : ∀ a ∈ h.actions g, a ∈ g.actions
  guard_mem : ∀ e, h.guard? = some e → e ∈ g.expressions
  actions_inScope : ∀ a ∈ h.actions g, a.InScope g
  guard_scoped : ∀ e, h.guard? = some e → e.ScopedTo (g.scope h.guardNode)

theorem Action.Of.inScope (ha : a.Of (g.scope id) id (g.tree id)) : a.InScope g := by
  intro e he
  rw [ha.tree_eq]
  exact ha.expressions_scoped e he

namespace Graph.Sound

theorem actions_inScope (hg : g.Sound) (ht : g.Declares t) (ha : a ∈ t.actions) : a.InScope g := by
  obtain ⟨_, hat⟩ := hg.declared_at ht
  exact Action.Of.inScope (hat.actions_of a ha)

theorem execute_scoped (hg : g.Sound) (ht : g.Declares t) (he : t.options.execute = some e)
    (hhome : t.home? g = some tree) : e.ScopedTo (g.node tree).handler := by
  obtain ⟨_, hat⟩ := hg.declared_at ht
  rw [Transition.home?, hat.site_eq] at hhome
  cases hhome
  exact hat.execute_scoped e he

theorem predicate_scoped (hg : g.Sound) {spec : TreeSpec ω η} (hs : (g.node id).tree? = some spec)
    (he : spec.predicate = some e) : e.ScopedTo none := by
  have hscoped := (hg.owns id).condition_scoped e ((Node.condition?_of_tree hs).trans he)
  cases hspec : (g.node id).spec with
  | branch spec' => simp [Node.tree?, hspec] at hs
  | tree spec' => simpa [Node.isTree, hspec] using hscoped

end Graph.Sound

namespace Hop

/-- Every action of a hop is declared by a node, or by a transition of one. -/
theorem mem_actions (hvia : ∀ t, h.via = some t → g.Declares t)
    (hresumes : ∀ t ∈ h.resumes, g.Declares t) (ha : a ∈ h.actions g) :
    (∃ id, a ∈ (g.node id).actions ++ (g.node id).exitActions ++ (g.node id).reentryActions) ∨
      ∃ t, g.Declares t ∧ a ∈ t.actions := by
  rcases List.mem_append.1 ha with ha | ha
  · rcases List.mem_append.1 ha with ha | ha
    · obtain ⟨id, _, ha⟩ := List.mem_flatMap.1 ha
      exact Or.inl ⟨id, by simp [ha]⟩
    · rcases of_mem_transitionActions ha with ⟨t, ht, ha⟩ | ⟨t, ht, ha⟩
      · exact Or.inr ⟨t, hvia t ht, ha⟩
      · exact Or.inr ⟨t, hresumes t (List.mem_of_head? ht), ha⟩
  · unfold entryActions at ha
    split at ha
    · exact Or.inl ⟨h.target, by simp [ha]⟩
    · obtain ⟨id, _, ha⟩ := List.mem_flatMap.1 ha
      exact Or.inl ⟨id, by simp [ha]⟩

/-- The actions of nodes are evaluated in the trees of these nodes, and those of a transition in the tree
that declares it, wherever the hop that runs them starts. -/
theorem actions_inScope (hg : g.Sound) (hvia : ∀ t, h.via = some t → g.Declares t)
    (hresumes : ∀ t ∈ h.resumes, g.Declares t) (ha : a ∈ h.actions g) : a.InScope g := by
  rcases mem_actions hvia hresumes ha with ⟨id, ha⟩ | ⟨t, ht, ha⟩
  · have howns := hg.owns id
    simp only [List.mem_append] at ha
    rcases ha with (ha | ha) | ha
    · exact (howns.actions_of a ha).inScope
    · exact (howns.exitActions_of a ha).inScope
    · exact (howns.reentryActions_of a ha).inScope
  · exact hg.actions_inScope ht ha

/-- The guard of a hop is evaluated where the hop starts. This is the tree that declares the guard, also
for a follow-up that a return resumes, since the return has ended where its jump was declared. -/
theorem Stacks.guard_scoped (hg : r.graph.Sound) (hh : h.Stacks r gate n) (he : h.guard? = some e) :
    e.ScopedTo (r.graph.scope h.guardNode) := by
  obtain ⟨t, hvia, hexecute⟩ := Option.bind_eq_some_iff.1 he
  have hhome := hh.settled.home t hvia
  have hplace : t.home? r.graph = some (r.graph.tree h.guardNode) := by
    obtain ⟨_, hat⟩ := hg.declared_at (hh.declared t hvia)
    cases hid : n.current with
    | none => simp [Transition.home?, hat.site_eq, hid] at hhome
    | some current =>
      rw [hhome, hid, guardNode, hh.allowed.origin_eq, hid]
      rfl
  exact hg.execute_scoped (hh.declared t hvia) hexecute hplace

theorem Stacks.inScope (hg : r.graph.Sound) (hh : h.Stacks r gate n) : h.InScope r.graph where
  actions_mem a ha := by
    rcases mem_actions hh.declared hh.within.resumes ha with ⟨id, ha⟩ | ⟨t, ht, ha⟩
    · exact Graph.mem_actions_of_node (List.mem_append_left _ ha)
    · exact ht.actions_subset ha
  guard_mem e he := by
    obtain ⟨t, hvia, hexecute⟩ := Option.bind_eq_some_iff.1 he
    exact (hh.declared t hvia).execute_mem hexecute
  actions_inScope _ ha := actions_inScope hg hh.declared hh.within.resumes ha
  guard_scoped _ he := hh.guard_scoped hg he

end Hop

theorem Along.inScope (hg : r.graph.Sound) (ha : Along r.graph (Hop.Stacks r gate) n hops) :
    ∀ h ∈ hops, h.InScope r.graph :=
  along_iff_mem.1 (Along.imp₂ (fun _ _ hh _ => hh.inScope hg) ha (along_true hops))

end ChatFlow.Flow
