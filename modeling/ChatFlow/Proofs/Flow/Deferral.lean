import ChatFlow.Proofs.Flow.Returns

/-! Actions of a jump wait for its return when its hop leaves the tree, whatever the jump's declaration
says. -/
namespace ChatFlow.Flow
variable {ω η : Type} {g : Graph ω η} {rules : AccessRules ω η} {role : Option String}
  {r : Router ω η} {n : Navigation} {t : Transition ω η} {h : Hop ω η} {hops : List (Hop ω η)}
  {left : Nat} {id target : NodeId} {gate : Gate}

/-- Whether a transition is a jump that is declared into another tree. -/
def Transition.Departs (g : Graph ω η) (t : Transition ω η) : Prop :=
  t.move = .jump ∧ ∃ target ∈ t.target, t.home? g ≠ some (g.tree target)

instance (g : Graph ω η) (t : Transition ω η) : Decidable (t.Departs g) :=
  inferInstanceAs (Decidable (_ ∧ ∃ target ∈ t.target, t.home? g ≠ some (g.tree target)))

namespace Hop

/-- Whether a jump to a target ends in the tree where it is fired: this is the tree of the target, or the
access rules lead the jump back to it. -/
def Rebounds (rules : AccessRules ω η) (role : Option String) (n : Navigation) (target : NodeId)
    (h : Hop ω η) : Prop :=
  n.StandsIn rules.graph (rules.graph.tree target) ∨
    n.StandsIn rules.graph h.target ∧
      rules.check role (rules.graph.tree target) = .denied (some h.target)

instance (rules : AccessRules ω η) (role : Option String) (n : Navigation) (target : NodeId)
    (h : Hop ω η) : Decidable (h.Rebounds rules role n target) :=
  inferInstanceAs (Decidable (n.current.map rules.graph.tree = _ ∨ n.current.map rules.graph.tree = _ ∧
    rules.check role (rules.graph.tree target) = _))

/-- When a hop runs the actions of a jump into another tree. -/
structure Defers (rules : AccessRules ω η) (role : Option String) (n : Navigation) (h : Hop ω η) :
    Prop where
  /-- Its own actions run as it is fired if it rebounds, and otherwise not. -/
  fired : ∀ t target, h.via = some t → t.Departs rules.graph → t.target = some target →
    (h.Rebounds rules role n target → h.transitionActions rules.graph = t.actions) ∧
    (¬ h.Rebounds rules role n target → h.transitionActions rules.graph = [])
  /-- Those that have waited run when a return completes the jump of the last waiting tree. -/
  completed : ∀ t, h.resumed? = some t → ∃ t', h.via = some t' ∧ t'.move = .caller ∧
    n.callers.getLast?.bind Caller.resume = t.site ∧
    h.transitionActions rules.graph = t'.actions ++ t.actions
  /-- No other jump's actions run. -/
  only : ∀ a ∈ h.transitionActions rules.graph,
    (∃ t, h.via = some t ∧ a ∈ t.actions) ∨ ∃ t, h.resumed? = some t ∧ a ∈ t.actions

theorem of_mem_transitionActions {a : Action ω η} (ha : a ∈ h.transitionActions g) :
    (∃ t, h.via = some t ∧ a ∈ t.actions) ∨ ∃ t, h.resumed? = some t ∧ a ∈ t.actions := by
  rcases List.mem_append.1 ha with hown | hcompleted
  · cases hvia : h.via with
    | none => simp [hvia] at hown
    | some t =>
      simp only [hvia] at hown
      split at hown
      · simp at hown
      · exact Or.inl ⟨t, rfl, hown⟩
  · cases hr : h.resumed? with
    | none => simp [hr] at hcompleted
    | some t =>
      rw [hr] at hcompleted
      exact Or.inr ⟨t, rfl, hcompleted⟩

end Hop

namespace Router

/-- A jump leaves the tree where it is fired unless it rebounds. -/
theorem crossesTrees_iff (hg : r.graph.Sound) (hgate : r.gate = some gate)
    (hid : n.current = some id) (hs : r.step n t = some h) (hmove : t.move = .jump)
    (htarget : t.target = some target) : h.crossesTrees r.graph = true ↔
      ¬ h.Rebounds ⟨r.graph, gate.guestLevel⟩ gate.role n target := by
  have hgated := (step_eq_some hs).1
  have horigin : h.origin = some id := (step_origin hs).trans hid
  have hstands : ∀ tree, n.StandsIn r.graph tree ↔ r.graph.tree id = tree := by
    simp [Navigation.StandsIn, hid]
  rw [targetOf_jump hmove htarget] at hgated
  rw [Hop.crossesTrees, horigin, Hop.Rebounds, hstands, hstands]
  simp only [Option.any_some, decide_eq_true_eq]
  by_cases hsame : r.graph.tree id = r.graph.tree target
  · rw [gated_of_same hid hsame] at hgated
    simp [hsame, Option.some.inj hgated]
  · rcases gated_eq_some hgated with ⟨hto, ⟨o, ho, htree⟩ | hgranted⟩ | ⟨gate', hgate', hcheck⟩
    · cases hid.symm.trans ho
      exact absurd htree.symm hsame
    · simp [hto, hsame, hgranted gate hgate]
    · cases hgate.symm.trans hgate'
      have hroot := hg.wellFormed.tree_of_mem_trees
        (hg.onDenied_mem_trees (AccessRules.onDenied_of_check hcheck))
      simp [hroot, hsame, hcheck]

end Router

theorem Hop.Fired.defers (hg : r.graph.Sound) (hgate : r.gate = some gate) (hh : h.Fired r n) :
    h.Defers ⟨r.graph, gate.guestLevel⟩ gate.role n := by
  cases hh with
  | plain hvia hresumes =>
    refine ⟨?_, ?_, fun _ => Hop.of_mem_transitionActions⟩
    · intro t target ht
      cases hvia.symm.trans ht
    · intro t ht
      simp [resumed?, hresumes] at ht
  | @step t id hcurrent hs =>
    have hvia := Router.step_via hs
    refine ⟨?_, ?_, fun _ => Hop.of_mem_transitionActions⟩
    · rintro t' target ht' ⟨hmove, -⟩ htarget
      cases hvia.symm.trans ht'
      have hcross := Router.crossesTrees_iff hg hgate hcurrent hs hmove htarget
      have hactions : h.transitionActions r.graph =
          if h.crossesTrees r.graph = true then [] else t.actions := by
        simp [transitionActions, hvia, hmove, Router.resumed?_of_jump hg hs hmove]
      constructor
      · intro hrebounds
        rw [hactions, if_neg (fun hc => hcross.1 hc hrebounds)]
      · intro hrebounds
        rw [hactions, if_pos (hcross.2 hrebounds)]
    · intro t' ht'
      obtain ⟨hmove, c, site, hc, hsite, _, _, hplace, _⟩ := Router.step_resumed hg hs ht'
      refine ⟨t, hvia, hmove, ?_, ?_⟩
      · rw [hc, hplace]
        exact hsite
      · simp [transitionActions, hvia, hmove, ht']

theorem Router.chain_fired (hh : h.Fired r n) (hc : r.chain n h left = .ok hops) :
    Along r.graph (Hop.Fired r) n hops :=
  chain_along (fun _ _ _ _ _ _ hs => .step rfl hs) hh hc

end ChatFlow.Flow
