import ChatFlow.Proofs.Document.Loaded
import ChatFlow.Proofs.Flow.Returns
import ChatFlow.Proofs.Session.Handling

/-! Jumps of a whole run are completed in their trees, unless a return is turned away. -/
namespace ChatFlow
open Flow Expr
variable {ω η : Type} {sc : Scenario ω η} {s : Session η} {event : Event} {world : ω}
  {route : List (Hop ω η)}

namespace Run

/-- The route that an event asks for, if any. -/
def route? (sc : Scenario ω η) (event : Event) (s : Session η) (world : ω) :
    Option (List (Hop ω η)) :=
  match (plan sc event (.start s world)).1 with
  | .ok (.go route _) => some route
  | _ => none

theorem route?_eq_some (h : route? sc event s world = some route) :
    ∃ made l, plan sc event (.start s world) = (.ok (.go route made), l) := by
  unfold route? at h
  rcases hp : plan sc event (.start s world) with ⟨p, l⟩
  rw [hp] at h
  split at h
  · next route' made hgo =>
    cases h
    exact ⟨made, l, Prod.ext hgo rfl⟩
  · cases h

theorem leads_of_route? (hg : sc.graph.Sound) (h : route? sc event s world = some route) :
    Leads sc s route := by
  obtain ⟨made, l, hp⟩ := route?_eq_some h
  exact (plan_planned hg hp).leads route made rfl

/-- The first hop of a route is no transition's. -/
theorem Leads.chain (h : Leads sc s route) : ∃ first, first.via = none ∧ first.resumes = [] ∧
    (router sc s).chain s.navigation first sc.settings.chainLimit = .ok route := by
  cases h with
  | enter _ _ h => exact ⟨_, rfl, rfl, h⟩
  | moveTo _ _ _ h => exact ⟨_, rfl, rfl, h⟩

/-- An event takes the session along the route that it asks for, or leaves it where it is. -/
theorem navigation_of_handle (hg : sc.graph.Sound) (event : Event) (s : Session η) (world : ω) :
    (Session.handle sc event s world).2.1.navigation = s.navigation ∨
      ∃ route hops, route? sc event s world = some route ∧ hops <+: route ∧
        (Session.handle sc event s world).2.1.navigation = s.navigation.follow sc.graph hops := by
  rw [Session.handle_eq]
  rcases hh : handle sc event (.start s world) with ⟨r, l'⟩
  obtain ⟨runnable, _, hends⟩ := handle_ends rfl hh
  cases hends with
  | stay hp _ => exact Or.inl (plan_planned hg hp).frame.navigation_eq
  | halt hp => exact Or.inl (frame_of_route hg hp).navigation_eq
  | @fail route runnable made l₁ l₂ l₃ e hp hx hrun =>
    have hgrows : Live.Grows sc l₂ l₃ := hops_grows _ _ _ hrun
    exact Or.inl (hgrows.navigation_eq.trans (frame_of_executable hg hp hx).navigation_eq)
  | @move route runnable made l₁ l₂ l₃ n landing hp hx hne hrun =>
    refine Or.inr ⟨route, runnable, by rw [route?, hp], executable_isPrefix hx, ?_⟩
    change n = _
    rw [(hops_follow hrun).1, (frame_of_executable hg hp hx).navigation_eq]
    rfl

end Run

namespace Session

/-- From a session whose waiting trees are those of their jumps, an event completes jumps in their trees
exactly when none of its returns is turned away, and then it ends in such a session. -/
theorem returns_of_route (hg : sc.graph.Sound) (hs : s.navigation.Awaits sc.graph)
    (hroute : Run.route? sc event s world = some route) :
    (Along sc.graph (fun _ hop => hop.Returns sc.graph) s.navigation route ↔
      Along sc.graph (fun n hop => ¬ hop.Diverted sc.rules s.role n) s.navigation route) ∧
    (Along sc.graph (fun _ hop => hop.Returns sc.graph) s.navigation route →
      Along sc.graph (fun n hop => hop.Settled (Run.router sc s) n) s.navigation route) := by
  obtain ⟨first, hvia, hresumes, hchain⟩ := (Run.leads_of_route? hg hroute).chain
  have hsettled : first.Settled (Run.router sc s) s.navigation :=
    ⟨.plain hvia hresumes, hs, fun t ht => nomatch hvia.symm.trans ht⟩
  exact Router.chain_returns_iff (r := Run.router sc s) hg rfl hsettled hchain

theorem awaits_handle (hg : sc.graph.Sound) (hs : s.navigation.Awaits sc.graph)
    (hr : ∀ route, Run.route? sc event s world = some route →
      Along sc.graph (fun _ hop => hop.Returns sc.graph) s.navigation route) :
    (handle sc event s world).2.1.navigation.Awaits sc.graph := by
  rcases Run.navigation_of_handle hg event s world with hstay | ⟨route, hops, hroute, hprefix, hmove⟩
  · rw [hstay]
    exact hs
  · rw [hmove]
    have hsettled := (returns_of_route hg hs hroute).2 (hr route hroute)
    exact Along.follow_awaits (r := Run.router sc s) hs (hsettled.of_isPrefix hprefix)

theorem awaits_run {role : Option String} {inputs : List (Input ω)} (hg : sc.graph.Sound)
    (hr : ∀ past event world, past ++ [.event event world] <+: inputs →
      (run sc (fresh role : Session η) past).navigation.Awaits sc.graph →
      ∀ route, Run.route? sc event (run sc (fresh role) past) world = some route →
        Along sc.graph (fun _ hop => hop.Returns sc.graph) (run sc (fresh role) past).navigation route)
    {past : List (Input ω)} (hpast : past <+: inputs) :
    (run sc (fresh role : Session η) past).navigation.Awaits sc.graph := by
  induction past using List.reverseRecOn with
  | nil => exact fun _ hc => nomatch hc
  | append_singleton past input ih =>
    have hbefore := ih ((List.prefix_append _ _).trans hpast)
    rw [run_append]
    cases input with
    | role role => exact hbefore
    | reset => exact fun _ hc => nomatch hc
    | event event world => exact awaits_handle hg hbefore (hr past event world hpast hbefore)

/-- Along a run from a fresh session, every hop that completes a jump leads to the tree in which this
jump is declared, exactly when the access rules turn no such hop away. -/
theorem jumps_completed_at_home {library : Document.Library ω η} {text : String}
    (h : Document.load library text = .ok sc.graph) (role : Option String)
    (inputs : List (Input ω)) :
    (∀ past event world, past ++ [.event event world] <+: inputs →
      ∀ route, Run.route? sc event (run sc (fresh role : Session η) past) world = some route →
        ∀ hop ∈ route, hop.Returns sc.graph) ↔
    ∀ past event world, past ++ [.event event world] <+: inputs →
      let s := run sc (fresh role : Session η) past
      ∀ route, Run.route? sc event s world = some route →
        ∀ before hop after, route = before ++ hop :: after →
          ¬ hop.Diverted sc.rules s.role (s.navigation.follow sc.graph before) := by
  have hg := Document.load_sound h
  constructor
  · intro hr past event world hpast s route hroute
    have hs : s.navigation.Awaits sc.graph :=
      awaits_run hg (fun past event world hpast _ route hroute =>
        along_iff_mem.2 (hr past event world hpast route hroute))
        ((List.prefix_append _ _).trans hpast)
    exact along_iff_at_split.1 <|
      (returns_of_route hg hs hroute).1.1 (along_iff_mem.2 (hr past event world hpast route hroute))
  · intro hd past event world hpast route hroute
    have hreturns := fun past event world hpast hs route hroute =>
      (returns_of_route hg hs hroute).1.2 (along_iff_at_split.2 (hd past event world hpast route hroute))
    have hs := awaits_run hg hreturns ((List.prefix_append _ _).trans hpast)
    exact along_iff_mem.1 (hreturns past event world hpast hs route hroute)

/-- A flow in which a role may lose its way back to the tree of a jump. -/
def annexText : String :=
  "(roles (role v :trees (B D F) :on-denied F))
(tree A :keys (a) (branch C :keys (c)
  (transition :target B (actions (call n)) (transition :target D))))
(tree B (branch R :keys (r) (transition :type caller)))
(tree D)
(tree F)"

def annexLibrary : Document.Library Unit Unit :=
  ⟨.empty, .ofList [("n", fun _ => pure ())], .default⟩

def annex : Scenario Unit Unit :=
  ⟨(Document.load annexLibrary annexText).toOption.getD default, .empty, .default⟩

/-- A guest jumps from the first tree into the second, and gets the role there. -/
def annexInputs : List (Input Unit) :=
  [.event ⟨1, 7, .text "a"⟩ (), .event ⟨2, 7, .text "c"⟩ (), .role (some "v")]

theorem load_annex : Document.load annexLibrary annexText = .ok annex.graph :=
  eq_ok_of_isOk (by decide +kernel)

/-- The second hop of this route is the return, which ends in the fallback tree of the role. -/
theorem route_annex : ∃ route, Run.route? annex ⟨3, 7, .text "r"⟩
    (run annex (fresh none : Session Unit) annexInputs) () = some route ∧
      ∃ hop ∈ route, ¬ hop.Returns annex.graph ∧ hop.transitionActions annex.graph ≠ [] := by
  have hany : (Run.route? annex ⟨3, 7, .text "r"⟩ (run annex (fresh none : Session Unit) annexInputs)
      ()).any (fun route => route.any fun hop => ¬ hop.Returns annex.graph ∧
        (hop.transitionActions annex.graph).isEmpty = false) := by
    decide +kernel
  obtain ⟨route, hroute, hany⟩ := (Option.any_eq_true _ _).1 hany
  obtain ⟨hop, hhop, hany⟩ := List.any_eq_true.1 hany
  obtain ⟨haway, hactions⟩ := of_decide_eq_true hany
  exact ⟨route, hroute, hop, hhop, haway, List.isEmpty_eq_false_iff.1 hactions⟩

/-- The role is led away from the return, and the actions of the jump run all the same. -/
theorem annex_completed_away : Document.load annexLibrary annexText = .ok annex.graph ∧
    ∃ route, Run.route? annex ⟨3, 7, .text "r"⟩
      (run annex (fresh none : Session Unit) annexInputs) () = some route ∧
      ∃ hop ∈ route, ¬ hop.Returns annex.graph ∧ hop.transitionActions annex.graph ≠ [] :=
  ⟨load_annex, route_annex⟩

theorem annex_diverts : ∃ past event world route before hop after,
    past ++ [.event event world] <+: annexInputs ++ [.event ⟨3, 7, .text "r"⟩ ()] ∧
      Run.route? annex event (run annex (fresh none : Session Unit) past) world = some route ∧
      route = before ++ hop :: after ∧
      hop.Diverted annex.rules (run annex (fresh none : Session Unit) past).role
        ((run annex (fresh none : Session Unit) past).navigation.follow annex.graph before) := by
  by_contra hne
  have hreturns := (jumps_completed_at_home load_annex none _).2
    fun past event world hpast route hroute before hop after hs hd =>
      hne ⟨past, event, world, route, before, hop, after, hpast, hroute, hs, hd⟩
  obtain ⟨route, hroute, hop, hhop, haway, _⟩ := route_annex
  exact haway (hreturns _ _ _ List.prefix_rfl route hroute hop hhop)

end Session
end ChatFlow
