import ChatFlow.Proofs.Flow.Returns
import Mathlib.Data.List.Perm.Subperm
import Mathlib.Data.List.TakeWhile

/-! Waiting trees of a role that does not change: none of them waits twice, and each waits for a jump
that is declared in it. -/
namespace ChatFlow.Flow
variable {ω η : Type} {g : Graph ω η} {rules : AccessRules ω η} {role : Option String}
  {r : Router ω η} {n : Navigation} {t : Transition ω η} {h h' : Hop ω η} {hops : List (Hop ω η)}
  {c : Caller} {gate : Gate}

/-- Whether a tree waits for a jump that is declared in it and leads into another tree. -/
def Caller.Jumped (g : Graph ω η) (c : Caller) : Prop :=
  ∃ site t target, c.resume = some site ∧ g.transitionAt? site = some t ∧ t.move = .jump ∧
    g.tree site.node = c.tree ∧ t.target = some target ∧ g.tree target ≠ c.tree

/-- A position where the waiting trees are different, none of them is the current one, and each waits for
a jump of its own. All these trees may be entered by the role, so that no return is turned away. -/
structure Navigation.Stacked (rules : AccessRules ω η) (role : Option String) (n : Navigation) :
    Prop where
  nowhere : n.current = none → n.callers = []
  nodup : (n.callers.map Caller.tree).Nodup
  away : ∀ id, n.current = some id → ∀ c ∈ n.callers, c.tree ≠ rules.graph.tree id
  jumped : ∀ c ∈ n.callers, c.Jumped rules.graph
  callers_open : ∀ c ∈ n.callers, rules.Opens role c.tree
  current_open : ∀ id, n.current = some id → rules.Opens role (rules.graph.tree id)

theorem Navigation.stacked_nowhere (rules : AccessRules ω η) (role : Option String) :
    Navigation.nowhere.Stacked rules role where
  nowhere _ := rfl
  nodup := List.nodup_nil
  away _ hid := nomatch hid
  jumped _ hc := nomatch hc
  callers_open _ hc := nomatch hc
  current_open _ hid := nomatch hid

/-- Whoever may enter a tree is not shown a fallback instead. -/
theorem AccessRules.Opens.not_denied {tree fallback : NodeId} (h : rules.Opens role tree) :
    rules.check role tree ≠ .denied (some fallback) := by
  intro hdenied
  rcases h with hgranted | hfallback
  · cases hgranted.symm.trans hdenied
  · have hsame := onDenied_of_check hdenied
    cases hfallback.symm.trans hsame
    exact ne_of_check hdenied rfl

/-- Every declared transition is found at its place. -/
theorem Graph.Sound.transitionAt_site (hg : g.Sound) (ht : g.Declares t) :
    ∃ site, t.site = some site ∧ g.transitionAt? site = some t := by
  obtain ⟨id, k, hk⟩ := ht
  have hat := (hg.owns id).declared k t hk
  have hlt : id < g.nodes.length := by
    by_contra hge
    rw [Graph.node_of_size_le (Nat.le_of_not_lt hge)] at hk
    simp [default, Node.fresh] at hk
  have hnode : g.nodes[id]? = some (g.node id) := by simp [Graph.node, List.getElem?_eq_getElem hlt]
  refine ⟨⟨id, k⟩, hat.site_eq, ?_⟩
  simp [Graph.transitionAt?, Graph.transitionsFrom, hnode, List.head?_drop, hk]

theorem Caller.Jumped.tree_mem (hg : g.WellFormed) (hc : c.Jumped g) : c.tree ∈ g.trees := by
  obtain ⟨site, t, _, _, ht, _, htree, _⟩ := hc
  have hlt : site.node < g.size := by
    by_contra hge
    have hnone : g.nodes[site.node]? = none := List.getElem?_eq_none (Nat.le_of_not_lt hge)
    simp [Graph.transitionAt?, Graph.transitionsFrom, hnone] at ht
  rw [← htree]
  exact (hg.tree_mem_ancestors hlt).2

namespace Navigation

theorem Stacked.awaits (hn : n.Stacked rules role) : n.Awaits rules.graph := by
  intro c hc site hsite
  obtain ⟨site', _, _, hsite', _, _, htree, _⟩ := hn.jumped c hc
  cases hsite.symm.trans hsite'
  exact htree.symm

/-- Fewer trees wait than there are: the current one does not. -/
theorem Stacked.length_lt (hg : rules.graph.Sound) (hn : n.Stacked rules role)
    (hw : n.Within rules.graph) : n.callers.length < rules.graph.trees.length := by
  cases hid : n.current with
  | none =>
    rw [hn.nowhere hid]
    exact List.length_pos_iff.2 hg.trees_ne_nil
  | some id =>
    have haway : rules.graph.tree id ∉ n.callers.map Caller.tree := by
      intro hmem
      obtain ⟨c, hc, htree⟩ := List.mem_map.1 hmem
      exact hn.away id hid c hc htree
    have hnodup : (rules.graph.tree id :: n.callers.map Caller.tree).Nodup :=
      List.nodup_cons.2 ⟨haway, hn.nodup⟩
    have hsub : rules.graph.tree id :: n.callers.map Caller.tree ⊆ rules.graph.trees := by
      refine List.cons_subset.2 ⟨?_, ?_⟩
      · exact (hg.wellFormed.tree_mem_ancestors (hw.current_lt hid)).2
      · intro tree htree
        obtain ⟨c, hc, rfl⟩ := List.mem_map.1 htree
        exact (hn.jumped c hc).tree_mem hg.wellFormed
    have hle := (hnodup.subperm hsub).length_le
    rw [List.length_cons, List.length_map] at hle
    exact hle

end Navigation

namespace Hop

/-- A hop that is settled and allowed where the waiting trees are as they should be. -/
structure Stacks (r : Router ω η) (gate : Gate) (n : Navigation) (h : Hop ω η) : Prop where
  stacked : n.Stacked ⟨r.graph, gate.guestLevel⟩ gate.role
  settled : h.Settled r n
  declared : ∀ t, h.via = some t → r.graph.Declares t
  within : h.Within r.graph n
  allowed : h.Allowed ⟨r.graph, gate.guestLevel⟩ gate.role n

/-- The jump that a hop waits for has been declared in the tree that it leaves, into another tree. -/
theorem Settled.jumped (hg : r.graph.Sound) (hh : h.Settled r n) (ht : r.graph.Declares t)
    (hvia : h.via = some t) (hmove : t.move = .jump) {id : NodeId} (hid : n.current = some id)
    (haway : r.graph.tree id ≠ r.graph.tree h.target) :
    Caller.Jumped r.graph ⟨r.graph.tree id, t.site⟩ := by
  obtain ⟨site, hsite, hat⟩ := hg.transitionAt_site ht
  obtain ⟨target, htarget⟩ : ∃ target, t.target = some target := by
    obtain ⟨_, hat⟩ := hg.declared_at ht
    exact hat.target_of_jump hmove
  have hhome := hh.home t hvia
  rw [Transition.home?, hsite, hid, Option.map_some, Option.map_some, Option.some.injEq] at hhome
  refine ⟨site, t, target, hsite, hat, hmove, hhome, htarget, ?_⟩
  intro hsame
  cases hh.fired with
  | plain hnone _ => cases hnone.symm.trans hvia
  | @step t' _ _ hs =>
    cases (Router.step_via hs).symm.trans hvia
    have hgated := (Router.step_eq_some hs).1
    rw [Router.targetOf_jump hmove htarget, Router.gated_of_same hid hsame.symm] at hgated
    cases hgated
    exact haway hsame.symm

/-- No return is turned away from a tree that the role may enter. -/
theorem Stacks.returns (hg : r.graph.Sound) (hgate : r.gate = some gate) (hh : h.Stacks r gate n) :
    h.Returns r.graph := by
  refine (hh.settled.returns_iff hg hgate).2 ?_
  rintro ⟨_, c, hc, hdenied⟩
  exact (hh.stacked.callers_open c (List.mem_of_getLast? hc)).not_denied hdenied

theorem Stacks.advance (hg : r.graph.Sound) (hh : h.Stacks r gate n) :
    (n.advance r.graph h).Stacked ⟨r.graph, gate.guestLevel⟩ gate.role := by
  have hsub : (n.advance r.graph h).callers.Sublist (n.callersAfter r.graph h) :=
    List.takeWhile_sublist _
  have hold := hh.stacked
  -- Whatever waits after the hop has waited before, or is the tree that the hop leaves by a jump.
  have hwaits : ∀ c ∈ (n.advance r.graph h).callers, c ∈ n.callers ∨
      ∃ t id, h.via = some t ∧ t.move = .jump ∧ n.current = some id ∧
        r.graph.tree id ≠ r.graph.tree h.target ∧ c = ⟨r.graph.tree id, t.site⟩ := by
    intro c hc
    rcases n.callersAfter_cases r.graph h with hkept | ⟨t, id, hvia, hmove, hid, haway, hcallers⟩
    · exact Or.inl ((hsub.trans hkept).subset hc)
    · have hc := hcallers ▸ hsub.subset hc
      rcases List.mem_append.1 hc with hc | hc
      · exact Or.inl hc
      · exact Or.inr ⟨t, id, hvia, hmove, hid, haway, List.mem_singleton.1 hc⟩
  constructor
  case nowhere => exact nofun
  case nodup =>
    have hafter : ((n.callersAfter r.graph h).map Caller.tree).Nodup := by
      rcases n.callersAfter_cases r.graph h with hkept | ⟨t, id, _, _, hid, _, hcallers⟩
      · exact hold.nodup.sublist (hkept.map _)
      · rw [hcallers, List.map_append, List.map_singleton]
        refine List.nodup_append_comm.1 (List.nodup_cons.2 ⟨?_, hold.nodup⟩)
        intro hmem
        obtain ⟨c, hc, htree⟩ := List.mem_map.1 hmem
        exact hold.away id hid c hc htree
    exact hafter.sublist (hsub.map _)
  case away =>
    intro id hid c hc
    cases hid
    have haway : decide (c.tree ≠ r.graph.tree h.target) = true :=
      List.mem_takeWhile_imp (p := fun c : Caller => decide (c.tree ≠ r.graph.tree h.target)) hc
    exact of_decide_eq_true haway
  case jumped =>
    intro c hc
    rcases hwaits c hc with hc | ⟨t, id, hvia, hmove, hid, haway, rfl⟩
    · exact hold.jumped c hc
    · exact hh.settled.jumped hg (hh.declared t hvia) hvia hmove hid haway
  case callers_open =>
    intro c hc
    rcases hwaits c hc with hc | ⟨t, id, _, _, hid, _, rfl⟩
    · exact hold.callers_open c hc
    · exact hold.current_open id hid
  case current_open =>
    intro id hid
    cases hid
    rcases hh.allowed.tree_open with ⟨o, ho, htree⟩ | hopen
    · rw [htree]
      exact hold.current_open o (hh.allowed.origin_eq ▸ ho)
    · exact hopen

theorem Stacks.next (hg : r.graph.Sound) (hgate : r.gate = some gate) (hh : h.Stacks r gate n)
    (ht : h.followUp? r.graph = some t) (hs : r.step (n.advance r.graph h) t = some h') :
    h'.Stacks r gate (n.advance r.graph h) := by
  have hdeclared := Hop.followUp?_declared hh.within.resumes ht
  refine ⟨hh.advance hg, hh.settled.next hg (hh.returns hg hgate) ht hs, ?_, ?_, ?_⟩
  · intro t' hvia
    cases (Router.step_via hs).symm.trans hvia
    exact hdeclared
  · exact Router.step_within hg (hh.within.advance hg.wellFormed) hdeclared hs
  · exact Router.step_allowed hg hgate hs

end Hop

theorem Along.follow_stacked (hg : r.graph.Sound) (gate : Gate)
    (hn : n.Stacked ⟨r.graph, gate.guestLevel⟩ gate.role) (ha : Along r.graph (Hop.Stacks r gate) n hops) :
    (n.follow r.graph hops).Stacked ⟨r.graph, gate.guestLevel⟩ gate.role := by
  induction hops generalizing n with
  | nil => exact hn
  | cons h rest ih => exact ih (ha.1.advance hg) ha.2

end ChatFlow.Flow
