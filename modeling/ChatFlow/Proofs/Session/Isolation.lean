import ChatFlow.Proofs.Session.Confined
import ChatFlow.Session.Registry

/-! What the users of a registry see does not depend on each other. -/
namespace ChatFlow
open Flow Expr
variable {ω η : Type} {sc : Scenario ω η} {r r' : Registry ω η} {event : Event} {user : Int64}

namespace Registry

/-- Dispatches events in turn; every event is given back with its result. -/
def run (r : Registry ω η) (world : ω) :
    List Event → List (Event × Except FlowError Outcome) × Registry ω η × ω
  | [] => ([], r, world)
  | event :: events =>
    let (result, r, world) := r.dispatch event world
    let (results, after) := run r world events
    ((event, result) :: results, after)

/-- The session in which the next event of a user is handled. -/
def sessionOf (r : Registry ω η) (user : Int64) : Session η :=
  (r.sessions.get? user).getD (.fresh (r.roleOf user))

theorem dispatch_eq (r : Registry ω η) (event : Event) (world : ω) :
    ∃ r', r.dispatch event world =
        ((Session.handle r.scenario event (r.sessionOf event.user) world).1, r',
          (Session.handle r.scenario event (r.sessionOf event.user) world).2.2) ∧
      r'.scenario = r.scenario ∧ r'.roleOf = r.roleOf ∧
      ∀ user, r'.sessions.get? user =
        if user = event.user then
          some (Session.handle r.scenario event (r.sessionOf event.user) world).2.1
        else r.sessions.get? user := by
  unfold dispatch session sessionOf
  cases hs : r.sessions.get? event.user with
  | some s => exact ⟨_, rfl, rfl, rfl, fun _ => Table.get?_insert⟩
  | none =>
    refine ⟨_, rfl, rfl, rfl, fun user => ?_⟩
    rw [Table.get?_insert]
    split
    · rfl
    · next hne => rw [Table.get?_insert, if_neg hne]

/-- Whether two registries are the same to a user. -/
structure SameFor (user : Int64) (r r' : Registry ω η) : Prop where
  scenario_eq : r.scenario = r'.scenario
  roleOf_eq : r.roleOf = r'.roleOf
  session_eq : r.sessions.get? user = r'.sessions.get? user

theorem SameFor.sessionOf_eq (h : SameFor user r r') : r.sessionOf user = r'.sessionOf user := by
  rw [sessionOf, sessionOf, h.session_eq, h.roleOf_eq]

/-- An event of another user changes nothing. -/
theorem SameFor.dispatch_other (h : SameFor user r r') (hother : event.user ≠ user) (world : ω) :
    SameFor user (r.dispatch event world).2.1 r' := by
  obtain ⟨r₁, hdispatch, hscenario, hrole, hsessions⟩ := r.dispatch_eq event world
  rw [hdispatch]
  refine ⟨hscenario.trans h.scenario_eq, hrole.trans h.roleOf_eq, ?_⟩
  rw [hsessions, if_neg hother.symm, h.session_eq]

/-- An event of the user has the same result in whatever world it is dispatched, and leaves the same. -/
theorem SameFor.dispatch_own (h : SameFor user r r') (hfresh : r.scenario.members.MakesFresh)
    (hg : r.scenario.graph.IsConfined) (hown : event.user = user) (world world' : ω) :
    (r.dispatch event world).1 = (r'.dispatch event world').1 ∧
      SameFor user (r.dispatch event world).2.1 (r'.dispatch event world').2.1 := by
  subst hown
  obtain ⟨r₁, hdispatch, hscenario, hrole, hsessions⟩ := r.dispatch_eq event world
  obtain ⟨r₁', hdispatch', hscenario', hrole', hsessions'⟩ := r'.dispatch_eq event world'
  have hhandle := Session.handle_confined hfresh hg event (r.sessionOf event.user) world world'
  rw [h.scenario_eq, h.sessionOf_eq] at hhandle
  rw [hdispatch, hdispatch', h.scenario_eq, h.sessionOf_eq, hhandle]
  refine ⟨rfl, ?_, ?_, ?_⟩
  · rw [hscenario, hscenario', h.scenario_eq]
  · rw [hrole, hrole', h.roleOf_eq]
  · rw [hsessions, hsessions', if_pos rfl, if_pos rfl, h.scenario_eq, h.sessionOf_eq, hhandle]

theorem run_cons (r : Registry ω η) (event : Event) (events : List Event) (world : ω) :
    r.run world (event :: events) =
      let d := r.dispatch event world
      let rest := d.2.1.run d.2.2 events
      ((event, d.1) :: rest.1, rest.2) := rfl

/-- Running all events, or only those of a user, is the same to this user. -/
theorem SameFor.run (h : SameFor user r r') (hfresh : r.scenario.members.MakesFresh)
    (hg : r.scenario.graph.IsConfined) (events : List Event) (world world' : ω) :
    ((r.run world events).1.filter fun e => decide (e.1.user = user)) =
        (r'.run world' (events.filter fun e => decide (e.user = user))).1 ∧
      SameFor user (r.run world events).2.1
        (r'.run world' (events.filter fun e => decide (e.user = user))).2.1 := by
  induction events generalizing r r' world world' with
  | nil => exact ⟨rfl, h⟩
  | cons event events ih =>
    have hscenario : (r.dispatch event world).2.1.scenario = r.scenario := by
      obtain ⟨r₁, hdispatch, hscenario, _⟩ := r.dispatch_eq event world
      rw [hdispatch, hscenario]
    rw [← hscenario] at hfresh hg
    rw [run_cons]
    by_cases hown : event.user = user
    · obtain ⟨hresult, hsame⟩ := h.dispatch_own (hscenario ▸ hfresh) (hscenario ▸ hg) hown world world'
      obtain ⟨hresults, hend⟩ := ih hsame hfresh hg (r.dispatch event world).2.2
        (r'.dispatch event world').2.2
      rw [List.filter_cons_of_pos (by simpa using hown), List.filter_cons_of_pos (by simpa using hown), run_cons]
      exact ⟨by rw [hresults, hresult], hend⟩
    · have hsame := h.dispatch_other hown world
      rw [List.filter_cons_of_neg (by simpa using hown), List.filter_cons_of_neg (by simpa using hown)]
      exact ih hsame hfresh hg _ world'

/-- As long as members and procedures keep to the variables and the handler of the session that runs them, and
all handlers are made afresh, what a user gets and what the user's session becomes is as if there were no other
users. (That they leave the remembered results alone is part of what effects are.) -/
theorem users_isolated (hg : sc.graph.IsConfined) (hfresh : sc.members.MakesFresh)
    (roleOf : Int64 → Option String) (events : List Event) (user : Int64) (world world' : ω) :
    let all := (fresh sc roleOf).run world events
    let own := (fresh sc roleOf).run world' (events.filter fun e => decide (e.user = user))
    (all.1.filter fun e => decide (e.1.user = user)) = own.1 ∧
      all.2.1.sessions.get? user = own.2.1.sessions.get? user := by
  have hsame : SameFor user (fresh sc roleOf) (fresh sc roleOf) := ⟨rfl, rfl, rfl⟩
  obtain ⟨hresults, hend⟩ := hsame.run hfresh hg events world world'
  exact ⟨hresults, hend.session_eq⟩

/-- A handler's number of calls so far. -/
def count : Member Nat Int64 :=
  { Member.function "Desk" "count" [] .int fun _ _ =>
      Member.onHandler ⟨"Desk", some, id⟩ "Desk::count" fun (n, store) =>
        (.ok (.int (n + 1)), n + 1, store) with
    ofInstance := true }

theorem count_confined : count.IsConfined := by
  intro s args
  exact Member.confined_onHandler fun _ => ⟨fun _ => rfl, fun _ _ _ => trivial⟩

/-- A tree whose handler counts, and a branch for users whose count is above two. -/
def deskOf (factory : Factory Nat Int64) : Scenario Nat Int64 where
  graph :=
    let counted : Term Nat Int64 := .call count [] false none 0
    let enough : Term Nat Int64 := .operation .greater counted (.literal (.int 2)) .bool
    let tree : Node Nat Int64 := .fresh "Desk" (.tree ⟨⟨[], ["hi"], []⟩, none, none, some "Desk"⟩)
    let branch : Node Nat Int64 := .fresh "Known" (.branch ⟨.none, some ⟨enough, .bool, none⟩⟩)
    ⟨[{ tree with
        children := [1]
        actions := [⟨.invoke ⟨counted, .int, none⟩, none, 0, 0⟩] },
      { branch with
        path := "Desk/Known"
        parent := some 0
        depth := 1 }], ∅⟩
  members := (Namespace.empty.register count).registerFactory "Desk" factory
  settings := .default

/-- Every handler counts from zero. -/
def desk : Scenario Nat Int64 := deskOf (.custom fun world => (0, world))

theorem desk_confined : desk.graph.IsConfined := by
  have hcalls : ∀ e : Expression Nat Int64, (∀ call ∈ e.term.calls, call.member = count) → e.IsConfined :=
    fun e he call hcall => he call hcall ▸ count_confined
  refine List.forall_mem_cons.2 ⟨?_, List.forall_mem_cons.2 ⟨?_, List.forall_mem_nil _⟩⟩
  · refine ⟨nofun, ?_, List.forall_mem_nil _⟩
    rintro a ha
    cases List.mem_singleton.1 ha
    refine ⟨?_, nofun⟩
    rintro e he
    cases List.mem_singleton.1 he
    exact hcalls _ (by simp [Term.calls, Term.callsOfAll])
  · refine ⟨?_, List.forall_mem_nil _, List.forall_mem_nil _⟩
    rintro e ⟨⟩
    exact hcalls _ (by simp [Term.calls, Term.callsOfAll])

theorem desk_fresh : desk.members.MakesFresh :=
  (Namespace.makesFresh_of_no_factories rfl).registerFactory "Desk" ⟨0, fun _ => rfl⟩

/-- Two users in turn, of whom the first one comes for a third time. -/
def visits : List Event :=
  [⟨1, 7, .text "hi"⟩, ⟨2, 8, .text "hi"⟩, ⟨3, 7, .text "again"⟩, ⟨4, 8, .text "again"⟩, ⟨5, 7, .text "again"⟩]

theorem desk_isolated :
    let all := (fresh desk fun _ => none).run 5 visits
    let own := (fresh desk fun _ => none).run 0 (visits.filter fun e => decide (e.user = 7))
    (all.1.filter fun e => decide (e.1.user = 7)) = own.1 ∧
      all.2.1.sessions.get? 7 = own.2.1.sessions.get? 7 ∧
      own.1.map (fun e => e.2.toOption) =
        [some (.entered 0 ⟨0, none, none⟩), some .ignored, some (.branched 1 ⟨1, none, none⟩)] := by
  obtain ⟨hresults, hsession⟩ := users_isolated desk_confined desk_fresh (fun _ => none) visits 7 5 0
  exact ⟨hresults, hsession, by decide +kernel⟩

/-- Handlers that count from the number of those made before would tell users of each other. -/
example :
    let counting := deskOf (.custom fun made => (made.toInt64, made + 1))
    let all := (fresh counting fun _ => none).run 0 visits
    let own := (fresh counting fun _ => none).run 0 (visits.filter fun e => decide (e.user = 8))
    (all.1.filter fun e => decide (e.1.user = 8)).map (fun e => e.2.toOption) =
        [some (.entered 0 ⟨0, none, none⟩), some (.branched 1 ⟨1, none, none⟩)] ∧
      own.1.map (fun e => e.2.toOption) = [some (.entered 0 ⟨0, none, none⟩), some .ignored] := by
  decide +kernel

end Registry
end ChatFlow
