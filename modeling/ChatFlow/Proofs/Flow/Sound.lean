import ChatFlow.Proofs.Expr.Scopes
import ChatFlow.Proofs.Flow.Routes
import ChatFlow.Proofs.Flow.WellFormed

/-! What loading a document guarantees about its graph, and where routes over such a graph stay. -/
namespace ChatFlow.Flow
open Expr
variable {ω η : Type} {g : Graph ω η} {id : NodeId}

/-- The expressions that an action evaluates. -/
def Action.expressions (a : Action ω η) : List (Expression ω η) :=
  a.guard.toList ++ match a.deed with
    | .invoke e => [e]
    | .call .. | .clearCache => []

/-- Whether an action is declared by a node of a tree, with expressions for the handlers in scope. -/
structure Action.Of (scope : Option String) (id tree : NodeId) (a : Action ω η) : Prop where
  node_eq : a.node = id
  tree_eq : a.tree = tree
  expressions_scoped : ∀ e ∈ a.expressions, e.ScopedTo scope

/-- Whether a transition is declared at a place of a tree of a graph with so many nodes. -/
structure Transition.At (size : Nat) (scope : Option String) (site : Site) (tree : NodeId)
    (t : Transition ω η) : Prop where
  site_eq : t.site = some site
  actions_of : ∀ a ∈ t.actions, a.Of scope site.node tree
  target_lt : ∀ id, t.target = some id → id < size
  target_of_jump : t.move = .jump → ∃ id, t.target = some id
  target_of_caller : t.move = .caller → t.target = none
  execute_scoped : ∀ e, t.options.execute = some e → e.ScopedTo scope

/-- The expression that decides about selecting a node. -/
def Node.condition? (n : Node ω η) : Option (Expression ω η) :=
  match n.spec with
  | .tree spec => spec.predicate
  | .branch spec => spec.guard

/-- A node whose actions are its own, and whose transitions know their places and lead to nodes of a
graph with so many nodes. All its expressions are for the handlers in scope, but there are none for the
predicate of a tree. -/
structure Node.Owns (size : Nat) (scope : Option String) (id : NodeId) (n : Node ω η) : Prop where
  actions_of : ∀ a ∈ n.actions, a.Of scope id n.tree
  exitActions_of : ∀ a ∈ n.exitActions, a.Of scope id n.tree
  reentryActions_of : ∀ a ∈ n.reentryActions, a.Of scope id n.tree
  declared : ∀ (k : Nat) t, n.transitions[k]? = some t → t.At size scope ⟨id, k⟩ n.tree
  condition_scoped : ∀ e, n.condition? = some e → e.ScopedTo (if n.isTree then none else scope)

theorem Node.owns_of_bare {n : Node ω η} (h : n.bare = n) (size : Nat) (scope : Option String)
    (id : NodeId) : n.Owns size scope id := by
  rw [← h]
  refine ⟨(fun _ h => nomatch h), (fun _ h => nomatch h), (fun _ h => nomatch h), ?_, ?_⟩
  · intro k t h
    simp [Node.bare, Node.fresh] at h
  · intro e he
    cases hs : n.spec <;> simp [Node.bare, Node.fresh, Node.condition?, hs] at he

namespace Graph

/-- Owner of the handlers in scope at a node: that of its tree. -/
def scope (g : Graph ω η) (id : NodeId) : Option String := (g.node (g.tree id)).handler

/-- What a graph is after it has been loaded. -/
structure Sound (g : Graph ω η) : Prop where
  wellFormed : g.WellFormed
  owns : ∀ id, (g.node id).Owns g.size (g.scope id) id
  onDenied_mem : ∀ {role grant tree}, g.grant? role = some grant → grant.onDenied = some tree →
    tree ∈ g.trees
  trees_ne_nil : g.trees ≠ []

/-- Whether a transition is declared somewhere in a graph. -/
def Declares (g : Graph ω η) (t : Transition ω η) : Prop :=
  ∃ (id : NodeId) (k : Nat), (g.node id).transitions[k]? = some t

theorem Declares.mem {t : Transition ω η} (h : g.Declares t) : ∃ n ∈ g.nodes, t ∈ n.transitions := by
  obtain ⟨id, k, hk⟩ := h
  rcases Nat.lt_or_ge id g.size with hlt | hge
  · have hmem : g.node id ∈ g.nodes := by
      simp [node, List.getElem?_eq_getElem (show id < g.nodes.length from hlt)]
    exact ⟨g.node id, hmem, List.mem_of_getElem? hk⟩
  · rw [node_of_size_le hge] at hk
    simp [default, Node.fresh] at hk

theorem lt_size_of_mem_trees (h : id ∈ g.trees) : id < g.size := (mem_trees.1 h).1

theorem WellFormed.tree_lt (hg : g.WellFormed) (h : id < g.size) : g.tree id < g.size :=
  lt_size_of_mem_trees (hg.tree_mem_ancestors h).2

/-- Every declared transition is at a place of its own. -/
theorem Sound.declared_at {t : Transition ω η} (hg : g.Sound) (ht : g.Declares t) :
    ∃ site, t.At g.size (g.scope site.node) site (g.tree site.node) := by
  obtain ⟨id, k, hk⟩ := ht
  exact ⟨⟨id, k⟩, (hg.owns id).declared k t hk⟩

theorem Sound.own_at {t : Transition ω η} (hg : g.Sound) (ht : (g.node id).transition? = some t) :
    t.At g.size (g.scope id) ⟨id, 0⟩ (g.tree id) :=
  (hg.owns id).declared 0 t (by rw [← List.head?_eq_getElem?]; exact ht)

theorem Sound.target_lt {t : Transition ω η} (hg : g.Sound) (ht : g.Declares t)
    (h : t.target = some id) : id < g.size := by
  obtain ⟨_, hat⟩ := hg.declared_at ht
  exact hat.target_lt id h

theorem Sound.onDenied_mem_trees (hg : g.Sound) {level : UInt32} {role : Option String}
    (h : (AccessRules.grant? ⟨g, level⟩ role).bind Grant.onDenied = some id) : id ∈ g.trees := by
  obtain ⟨grant, hgrant, hdenied⟩ := Option.bind_eq_some_iff.1 h
  obtain ⟨name, _, hname⟩ := Option.bind_eq_some_iff.1 hgrant
  exact hg.onDenied_mem hname hdenied

theorem declares_transitionsFrom {t : Transition ω η} {site : Site}
    (h : t ∈ g.transitionsFrom site) : g.Declares t := by
  unfold transitionsFrom at h
  cases hn : g.nodes[site.node]? with
  | none => simp [hn] at h
  | some n =>
    simp only [hn, Option.map_some, Option.getD_some] at h
    obtain ⟨k, hk⟩ := List.mem_iff_getElem?.1 h
    rw [List.getElem?_drop] at hk
    have hnode : g.node site.node = n := by simp [node, hn]
    exact ⟨site.node, site.depth + k, hnode ▸ hk⟩

theorem declares_transition {t : Transition ω η} (h : (g.node id).transition? = some t) :
    g.Declares t := ⟨id, 0, by rw [← List.head?_eq_getElem?]; exact h⟩

end Graph

/-- Whether a position refers to nodes of a graph only. -/
structure Navigation.Within (g : Graph ω η) (n : Navigation) : Prop where
  current_lt : ∀ {id}, n.current = some id → id < g.size
  caller_lt : ∀ c ∈ n.callers, c.tree < g.size

theorem Navigation.within_nowhere (g : Graph ω η) : Navigation.nowhere.Within g :=
  ⟨fun h => (nomatch h), fun _ h => nomatch h⟩

/-- Whether a hop taken at a position of a graph stays in the graph, and returns to declared
transitions only. -/
structure Hop.Within (g : Graph ω η) (n : Navigation) (h : Hop ω η) : Prop where
  position : n.Within g
  target_lt : h.target < g.size
  resumes : ∀ t ∈ h.resumes, g.Declares t

section
variable {n : Navigation} {h : Hop ω η} {r : Router ω η} {t : Transition ω η}

theorem Hop.Within.advance (hg : g.WellFormed) (hh : h.Within g n) : (n.advance g h).Within g := by
  constructor
  · intro id hid
    cases hid
    exact hh.target_lt
  · intro c hc
    have hmem := (List.takeWhile_sublist _).subset hc
    rcases Navigation.mem_callersAfter hmem with hold | ⟨t, id, _, hid, rfl⟩
    · exact hh.position.caller_lt c hold
    · exact hg.tree_lt (hh.position.current_lt hid)

theorem Along.follow_within {hops : List (Hop ω η)} (hg : g.WellFormed) (hn : n.Within g)
    (ha : Along g (Hop.Within g) n hops) : (n.follow g hops).Within g := by
  induction hops generalizing n with
  | nil => exact hn
  | cons h rest ih => exact ih (ha.1.advance hg) ha.2

theorem Hop.followUp?_declared (hresumes : ∀ t ∈ h.resumes, g.Declares t) (ht : h.followUp? g = some t) :
    g.Declares t := by
  unfold followUp? at ht
  cases hr : h.resumes[1]? with
  | some t' =>
    rw [hr] at ht
    cases ht
    exact hresumes t (List.mem_of_getElem? hr)
  | none =>
    rw [hr] at ht
    exact Graph.declares_transition ht

/-- A transition fired at a position of the graph leads to a node of the graph. -/
theorem Router.targetOf_lt (hg : r.graph.Sound) (hn : n.Within r.graph) (ht : r.graph.Declares t) :
    r.targetOf t n < r.graph.size := by
  obtain ⟨first, rest, htrees⟩ := List.exists_cons_of_ne_nil hg.trees_ne_nil
  have hfirst : first < r.graph.size :=
    Graph.lt_size_of_mem_trees (htrees ▸ List.mem_cons_self)
  have hsomewhere : (n.current <|> r.graph.trees.head?).getD 0 < r.graph.size := by
    cases hc : n.current with
    | some id => exact hn.current_lt hc
    | none =>
      rw [htrees]
      exact hfirst
  unfold targetOf
  split
  · rename_i htarget
    exact hg.target_lt ht htarget
  · rename_i htarget
    exact hg.target_lt ht htarget
  · cases hp : n.current.bind r.graph.parent with
    | none => exact hsomewhere
    | some p =>
      obtain ⟨id, hid, hp⟩ := Option.bind_eq_some_iff.1 hp
      exact Nat.lt_trans (hg.wellFormed.parent_lt hp) (hn.current_lt hid)
  all_goals
    cases hl : n.callers.getLast? with
    | some c => exact hn.caller_lt c (List.mem_of_getLast? hl)
    | none =>
      rw [htrees]
      exact hfirst

/-- What a transition returns to is declared. -/
theorem Router.completedBy_declared (n : Navigation) :
    ∀ t' ∈ r.completedBy t n, r.graph.Declares t' := by
  intro t' ht'
  unfold completedBy at ht'
  split at ht'
  · cases hs : n.callers.getLast?.bind Caller.resume with
    | none => simp [hs] at ht'
    | some site =>
      rw [hs] at ht'
      exact Graph.declares_transitionsFrom ht'
  all_goals cases ht'

end

end ChatFlow.Flow
