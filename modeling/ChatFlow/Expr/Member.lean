import ChatFlow.Expr.Fault
import ChatFlow.Expr.Memo
import ChatFlow.Flow.Event

/-!
Members: the functions that expressions may call. A body sees the event and the active path, and
may change the session's variables, the state of the active handler and the world of the
application. It can neither attach nor detach a handler. Nor can it see or change the remembered
results of the session: whatever is said here about bodies and procedures is said about those that
leave the results to the evaluation of calls and to the action that forgets them.
-/
namespace ChatFlow.Expr
variable {ω η : Type}

/-- What an evaluation can see and not change. -/
structure Situation where
  /-- The event being handled. -/
  event : Option Flow.Event
  /-- The active nodes, from the tree to the active node. -/
  path : List NodeId

/-- Circumstances to store results under: the event, else the active node. -/
def Situation.capture (s : Situation) : Capture :=
  match s.event, s.path.getLast? with
  | some e, _ => .event e.id
  | none, some id => .node id
  | none, none => .invalid

abbrev Variables := Table String Value

/-- What a body may change: variables, the state of the active handler if there is one, and the
world outside of the session. Remembered results are not among it. -/
structure Store (ω η : Type) where
  bindings : Variables
  handler : Option η
  world : ω

/-- A computation of a body, which may fail with a message. Its changes outlive a failure. -/
abbrev Effect (ω η α : Type) := ExceptT String (StateM (Store ω η)) α

/-- The body of a member, given its converted arguments. -/
inductive Body (ω η : Type) where
  | function (run : Situation → List Value → Effect ω η Value)
  /-- The arguments yield a function, which is then applied to the converted input. -/
  | generator (run : Situation → List Value → Effect ω η (Value → Effect ω η Value))

/-- A registered member. -/
structure Member (ω η : Type) where
  owner : String
  name : String
  /-- Whether it runs against the active handler of its owner. -/
  ofInstance : Bool
  params : List Kind
  returns : Kind
  /-- Kind of the piped value, for a generator. -/
  input : Kind
  caching : Caching
  body : Body ω η

namespace Member

def arity (m : Member ω η) : Nat := m.params.length

/-- The form in which the member is written. -/
def form (m : Member ω η) : CallForm :=
  match m.body with
  | .function _ => .reference
  | .generator _ => .generator

/-- Full name of a member. -/
def qualifiedName (m : Member ω η) : String := m.form.spell (some m.owner) m.name

/-- A member that needs no handler. -/
def function (owner name : String) (params : List Kind) (returns : Kind)
    (run : Situation → List Value → Effect ω η Value) : Member ω η :=
  ⟨owner, name, false, params, returns, .any, .never, .function run⟩

/-- A generator that needs no handler. -/
def generator (owner name : String) (params : List Kind) (input returns : Kind)
    (run : Situation → List Value → Effect ω η (Value → Effect ω η Value)) : Member ω η :=
  ⟨owner, name, false, params, returns, input, .never, .generator run⟩

/-- How one type of handlers sits among all handlers of an application. -/
structure HandlerType (η σ : Type) where
  /-- Name of the type in messages. -/
  name : String
  get? : η → Option σ
  put : σ → η

/-- Runs a body on the active handler, if that is of the given type. The handler is detached
meanwhile, so that the body sees no active one; it comes back with the state that the body left,
also when the body fails. -/
def onHandler {σ α : Type} (type : HandlerType η σ) (label : String)
    (run : ExceptT String (StateM (σ × Store ω η)) α) : Effect ω η α := fun store =>
  match store.handler with
  | none => (.error s!"no active handler for '{label}'", store)
  | some h =>
    match type.get? h with
    | none => (.error s!"active handler is not a {type.name}", store)
    | some s =>
      let (result, s, store) := ExceptT.run run (s, { store with handler := none })
      (result, { store with handler := some (type.put s) })

end Member

/-- Runs an effect. An active handler stays active, with the state that the effect left. -/
def Effect.perform {α : Type} (e : Effect ω η α) (store : Store ω η) :
    Except String α × Store ω η :=
  let (result, after) := ExceptT.run e store
  (result, { after with handler := store.handler.map fun h => after.handler.getD h })

end ChatFlow.Expr
