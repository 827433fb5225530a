import ChatFlow.Proofs.Session.Handling

/-! What an event does to a session, in order: it is looked at, and then the hops that it begins are carried
out, one task after another. -/
namespace ChatFlow
open Flow Expr
variable {ω η : Type} {sc : Scenario ω η} {l l' : Live ω η} {event : Event} {route : List (Hop ω η)}
  {n : Navigation} {landing : Option Landing}

/-- One thing that a hop has to do. -/
inductive Flow.Task (ω η : Type) where
  /-- To run an action, passing over its failure if told so. -/
  | act (ignoreError : Bool) (action : Action ω η)
  /-- To set the handler of a tree aside. -/
  | park (tree : NodeId)

/-- The tasks of a hop, in order: the actions of the nodes left and of the transition, the trees left, and
the actions of the nodes entered. -/
def Flow.Hop.tasks (g : Flow.Graph ω η) (h : Hop ω η) : List (Task ω η) :=
  let ignoreError := h.via.any fun t => t.options.ignoreError
  (h.exitActions g ++ h.transitionActions g).map (.act ignoreError) ++
    ((h.exits.filter fun id => (g.node id).isTree).map .park ++
      (h.entryActions g).map (.act ignoreError))

namespace Run

def carryOut (sc : Scenario ω η) (event : Event) : Task ω η → Run ω η Unit
  | .act ignoreError a => attempt sc event ignoreError a
  | .park tree => park tree

/-- Carries out the tasks of some hops in order, up to the first one that fails. -/
def carryAll (sc : Scenario ω η) (event : Event) (hops : List (Hop ω η)) : Run ω η Unit :=
  (hops.flatMap (Hop.tasks sc.graph)).forM (carryOut sc event)

theorem hop_eq_forM (sc : Scenario ω η) (event : Event) (h : Hop ω η) :
    hop sc event h = (h.tasks sc.graph).forM (carryOut sc event) := by
  simp only [hop, actAll, Hop.tasks, List.forM_eq_forM, List.forM_append, List.forM_map]
  rfl

theorem carryAll_cons (sc : Scenario ω η) (event : Event) (h : Hop ω η) (rest : List (Hop ω η)) :
    carryAll sc event (h :: rest) = hop sc event h >>= fun _ => carryAll sc event rest := by
  simp only [carryAll, hop_eq_forM, List.flatMap_cons, List.forM_eq_forM, List.forM_append]

/-- Running hops is nothing but carrying out their tasks. -/
theorem carryAll_of_hops {r : Except FlowError (Navigation × Option Landing)}
    (hh : hops sc event n landing route l = (r, l')) :
    carryAll sc event route l = (r.map fun _ => (), l') := by
  induction route generalizing n landing l with
  | nil =>
    cases hh
    rfl
  | cons h rest ih =>
    rw [carryAll_cons]
    rcases hops_cons_eq hh with ⟨l₁, h₁, h₂⟩ | ⟨e, h₁, rfl⟩
    · rw [bind_of_ok h₁, ih h₂]
    · exact bind_of_error h₁

/-- The hops that begin are those whose tasks are carried out. -/
theorem carryAll_begun (l : Live ω η) (route : List (Hop ω η)) :
    carryAll sc event (begun sc event l route) l = carryAll sc event route l := by
  induction route generalizing l with
  | nil => rfl
  | cons h rest ih =>
    rcases hh : hop sc event h l with ⟨e | u, l₁⟩
    · rw [begun_cons_error hh, carryAll_cons, carryAll_cons, bind_of_error hh, bind_of_error hh]
    · rw [begun_cons_ok hh, carryAll_cons, carryAll_cons, bind_of_ok hh, bind_of_ok hh, ih]

/-- A live session in which an event has been looked at: what it asks for is selected, and the guards of its
route are evaluated, but no hop has begun. -/
def survey (sc : Scenario ω η) (event : Event) (l : Live ω η) : Live ω η :=
  match plan sc event l with
  | (.ok (.go route _), l₁) => (executable sc event route l₁).2
  | (_, l₁) => l₁

/-- What hops make of a live session: they are carried out, and it moves to their end; when one of them
fails, it is put back. -/
def travel (sc : Scenario ω η) (event : Event) (ran : List (Hop ω η)) (l : Live ω η) : Live ω η :=
  match carryAll sc event ran l with
  | (.ok (), l') => arrive (l.session.navigation.follow sc.graph ran) l'
  | (.error _, l') => restore l.session l'

theorem travel_nil (l : Live ω η) : travel sc event [] l = l := rfl

/-- Whatever becomes of an event, it leaves behind what the hops that it begins make of the session in which
it has been looked at. -/
theorem handle_eq_travel (hl : l.parked = []) :
    (handle sc event l).2 = travel sc event (taken sc event l) (survey sc event l) := by
  rcases hh : handle sc event l with ⟨r, l'⟩
  obtain ⟨ran, htaken, hends⟩ := handle_ends hl hh
  rw [htaken]
  cases hends with
  | @stay p _ _ hp hno =>
    have hsurvey : survey sc event l = l' := by
      rcases p with e | outcome | ⟨route, made⟩
      · rw [survey, hp]
      · rw [survey, hp]
      · exact absurd rfl (hno route made)
    rw [hsurvey, travel_nil]
  | halt hp => rw [travel_nil, survey, hp]
  | @fail route runnable made l₁ l₂ l₃ e hp hx hrun =>
    have hsurvey : survey sc event l = l₂ := by simp only [survey, hp, hx]
    rw [hsurvey, travel, carryAll_begun, carryAll_of_hops hrun]
    rfl
  | @move route runnable made l₁ l₂ l₃ n landing hp hx hne hrun =>
    have hsurvey : survey sc event l = l₂ := by simp only [survey, hp, hx]
    rw [hsurvey, travel, carryAll_of_hops hrun, (hops_follow hrun).1]
    rfl

end Run
end ChatFlow
