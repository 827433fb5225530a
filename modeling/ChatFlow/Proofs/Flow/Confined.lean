import ChatFlow.Proofs.Expr.Confined
import ChatFlow.Proofs.Flow.Scopes

/-! Whatever a route runs is confined to the session if all that its graph declares is. -/
namespace ChatFlow.Flow
open Expr
variable {ω η : Type} {g : Graph ω η} {r : Router ω η} {n : Navigation} {id : NodeId}
  {t : Transition ω η} {h : Hop ω η} {hops : List (Hop ω η)} {left : Nat}

/-- Whether all that an action runs is confined to the session. -/
structure Action.IsConfined (a : Action ω η) : Prop where
  expressions : ∀ e ∈ a.expressions, e.IsConfined
  procedure : ∀ name procedure, a.deed = .call name procedure →
    ∀ s, Effect.Confined (procedure s) fun _ => True

structure Transition.IsConfined (t : Transition ω η) : Prop where
  execute : ∀ e, t.options.execute = some e → e.IsConfined
  actions : ∀ a ∈ t.actions, a.IsConfined

structure Node.IsConfined (n : Node ω η) : Prop where
  condition : ∀ e, n.condition? = some e → e.IsConfined
  actions : ∀ a ∈ n.actions ++ n.exitActions ++ n.reentryActions, a.IsConfined
  transitions : ∀ t ∈ n.transitions, t.IsConfined

/-- Whether all members and procedures that a graph can run are confined to the session that runs them. -/
def Graph.IsConfined (g : Graph ω η) : Prop := ∀ n ∈ g.nodes, n.IsConfined

/-- Whether all that a hop runs is confined to the session. -/
structure Hop.IsConfined (g : Graph ω η) (h : Hop ω η) : Prop where
  guard : ∀ e, h.guard? = some e → e.IsConfined
  actions : ∀ a ∈ h.actions g, a.IsConfined

/-- Whether the transitions that a hop fires and completes are declared. -/
structure Hop.Declared (g : Graph ω η) (h : Hop ω η) : Prop where
  via : ∀ t, h.via = some t → g.Declares t
  resumes : ∀ t ∈ h.resumes, g.Declares t

namespace Graph

theorem IsConfined.node (hg : g.IsConfined) (id : NodeId) : (g.node id).IsConfined := by
  rcases Nat.lt_or_ge id g.size with hlt | hge
  · refine hg _ ?_
    simp [Graph.node, List.getElem?_eq_getElem (show id < g.nodes.length from hlt)]
  · rw [node_of_size_le hge]
    constructor <;> simp [default, Node.fresh, Node.condition?]

theorem IsConfined.declared (hg : g.IsConfined) (ht : g.Declares t) : t.IsConfined := by
  obtain ⟨n, hn, ht⟩ := ht.mem
  exact (hg n hn).transitions t ht

theorem IsConfined.predicate (hg : g.IsConfined) {spec : TreeSpec ω η} {e : Expression ω η}
    (hs : (g.node id).tree? = some spec) (he : spec.predicate = some e) : e.IsConfined :=
  (hg.node id).condition e ((Node.condition?_of_tree hs).trans he)

theorem IsConfined.guard (hg : g.IsConfined) {spec : BranchSpec ω η} {e : Expression ω η}
    (hs : (g.node id).branch? = some spec) (he : spec.guard = some e) : e.IsConfined :=
  (hg.node id).condition e ((Node.condition?_of_branch hs).trans he)

end Graph

theorem Hop.Declared.isConfined (hh : h.Declared g) (hg : g.IsConfined) : h.IsConfined g := by
  constructor
  · intro e he
    obtain ⟨t, hvia, he⟩ := Option.bind_eq_some_iff.1 he
    exact (hg.declared (hh.via t hvia)).execute e he
  · intro a ha
    rcases Hop.mem_actions hh.via hh.resumes ha with ⟨id, ha⟩ | ⟨t, ht, ha⟩
    · exact (hg.node id).actions a ha
    · exact (hg.declared ht).actions a ha

namespace Router

theorem declared_of_chain (hh : h.Declared r.graph) (hc : r.chain n h left = .ok hops) :
    ∀ h ∈ hops, h.Declared r.graph := by
  refine along_iff_mem.1 (chain_along (P := fun _ h => h.Declared r.graph) ?_ hh hc)
  intro n h t h' hh ht hs
  have hdeclared := Hop.followUp?_declared hh.resumes ht
  constructor
  · intro t' hvia
    rw [step_via hs] at hvia
    cases hvia
    exact hdeclared
  · rw [step_resumes hs]
    exact completedBy_declared _

/-- The first hop of a move that no transition asks for fires none. -/
theorem declared_between (origin : Option NodeId) (target : NodeId) (common : Option NodeId) :
    (Hop.between g origin target common none []).Declared g := by
  constructor
  · rintro t ⟨⟩
  · exact List.forall_mem_nil _

theorem confined_of_enterTree (hg : r.graph.IsConfined) {tree : NodeId}
    (h : r.enterTree n tree = .ok hops) : ∀ h ∈ hops, h.IsConfined r.graph := by
  rw [enterTree] at h
  exact fun hop hmem => (declared_of_chain (declared_between ..) h hop hmem).isConfined hg

theorem confined_of_routeTo (hg : r.graph.IsConfined) {target : NodeId}
    (h : r.routeTo n target = .ok hops) : ∀ h ∈ hops, h.IsConfined r.graph := by
  rw [routeTo, jump] at h
  exact fun hop hmem => (declared_of_chain (declared_between ..) h hop hmem).isConfined hg

end Router
end ChatFlow.Flow
