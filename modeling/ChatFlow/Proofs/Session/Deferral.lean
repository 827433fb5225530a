import ChatFlow.Proofs.Flow.Deferral
import ChatFlow.Proofs.Session.Returns

/-! Actions of jumps into other trees along the routes of a whole run. -/
namespace ChatFlow.Session
open Flow Expr
variable {ω η : Type} {sc : Scenario ω η}

/-- However a session has come about from a fresh one, no hop of the route that an event asks for runs
the own actions of the jump into another tree that fires it, unless it ends in the tree where it starts.
They run in a return that completes the jump, and in no other hop. -/
theorem jump_actions_deferred {library : Document.Library ω η} {text : String}
    (h : Document.load library text = .ok sc.graph) (role : Option String)
    (inputs : List (Input ω)) (event : Event) (world : ω) {route : List (Hop ω η)}
    (hroute : Run.route? sc event (run sc (fresh role : Session η) inputs) world = some route) :
    let s := run sc (fresh role : Session η) inputs
    ∀ before hop after, route = before ++ hop :: after →
      hop.Defers sc.rules s.role (s.navigation.follow sc.graph before) := by
  intro s before hop after hsplit
  have hg := Document.load_sound h
  obtain ⟨first, hvia, hresumes, hchain⟩ := (Run.leads_of_route? hg hroute).chain
  have hfired := Router.chain_fired (.plain hvia hresumes) hchain
  exact (hfired.at_split hsplit).defers (r := Run.router sc s) hg rfl

/-- A flow with a jump into a tree for which a role is led back to the tree of the jump. -/
def foyerText : String :=
  "(roles (role v :trees (A) :on-denied A))
(tree A :keys (a) (branch C :keys (c) (transition :target B (actions (call n)))))
(tree B)"

def foyerLibrary : Document.Library Unit Unit :=
  ⟨.empty, .ofList [("n", fun _ => pure ())], .default⟩

def foyer : Scenario Unit Unit :=
  ⟨(Document.load foyerLibrary foyerText).toOption.getD default, .empty, .default⟩

def foyerSession : Session Unit := run foyer (fresh (some "v")) [.event ⟨1, 7, .text "a"⟩ ()]

theorem load_foyer : Document.load foyerLibrary foyerText = .ok foyer.graph :=
  eq_ok_of_isOk (by decide +kernel)

/-- The jump is the second hop of this route, and is led back to its tree. -/
theorem route_foyer : ∃ route hop t,
    Run.route? foyer ⟨2, 7, .text "c"⟩ foyerSession () = some route ∧ route[1]? = some hop ∧
      hop.via = some t ∧ t.Departs foyer.graph ∧ t.target = some 2 ∧ t.actions ≠ [] ∧
      hop.Rebounds foyer.rules foyerSession.role
        (foyerSession.navigation.follow foyer.graph (route.take 1)) 2 ∧
      hop.resumed?.isNone = true ∧ (hop.transitionActions foyer.graph).length = t.actions.length := by
  have hany : (Run.route? foyer ⟨2, 7, .text "c"⟩ foyerSession ()).any fun route =>
      route[1]?.any fun hop => hop.via.any fun t => t.Departs foyer.graph ∧ t.target = some 2 ∧
        t.actions.isEmpty = false ∧
        hop.Rebounds foyer.rules foyerSession.role
          (foyerSession.navigation.follow foyer.graph (route.take 1)) 2 ∧
        hop.resumed?.isNone = true ∧
        (hop.transitionActions foyer.graph).length = t.actions.length := by
    decide +kernel
  obtain ⟨route, hroute, hany⟩ := (Option.any_eq_true _ _).1 hany
  obtain ⟨hop, hhop, hany⟩ := (Option.any_eq_true _ _).1 hany
  obtain ⟨t, ht, hany⟩ := (Option.any_eq_true _ _).1 hany
  obtain ⟨hdeparts, htarget, hactions, hrest⟩ := of_decide_eq_true hany
  exact ⟨route, hop, t, hroute, hhop, ht, hdeparts, htarget, List.isEmpty_eq_false_iff.1 hactions,
    hrest⟩

/-- The role never leaves the tree of the jump, whose actions run as it is fired. -/
theorem foyer_runs_actions : Document.load foyerLibrary foyerText = .ok foyer.graph ∧
    ∃ route hop t, Run.route? foyer ⟨2, 7, .text "c"⟩ foyerSession () = some route ∧ hop ∈ route ∧
      hop.via = some t ∧ t.Departs foyer.graph ∧ hop.resumed?.isNone = true ∧
      hop.transitionActions foyer.graph ≠ [] := by
  obtain ⟨route, hop, t, hroute, hhop, hvia, hdeparts, _, hactions, _, hresumed, hlength⟩ := route_foyer
  refine ⟨load_foyer, route, hop, t, hroute, List.mem_of_getElem? hhop, hvia, hdeparts, hresumed, ?_⟩
  rw [← List.length_pos_iff, hlength, List.length_pos_iff]
  exact hactions

theorem foyer_rebounds : ∃ route hop t,
    Run.route? foyer ⟨2, 7, .text "c"⟩ foyerSession () = some route ∧ route[1]? = some hop ∧
      hop.via = some t ∧ t.Departs foyer.graph ∧ t.actions ≠ [] ∧
      hop.transitionActions foyer.graph = t.actions := by
  obtain ⟨route, hop, t, hroute, hhop, hvia, hdeparts, htarget, hactions, hrebounds, _⟩ := route_foyer
  obtain ⟨hlt, hget⟩ := List.getElem?_eq_some_iff.1 hhop
  have hsplit : route = route.take 1 ++ hop :: route.drop 2 := by
    rw [← hget, ← List.drop_eq_getElem_cons hlt, List.take_append_drop]
  have hdefers := jump_actions_deferred load_foyer (some "v") [.event ⟨1, 7, .text "a"⟩ ()] _ _ hroute
    _ hop _ hsplit
  exact ⟨route, hop, t, hroute, hhop, hvia, hdeparts, hactions,
    (hdefers.fired t 2 hvia hdeparts htarget).1 hrebounds⟩

end ChatFlow.Session
