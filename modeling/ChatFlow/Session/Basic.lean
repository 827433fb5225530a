import ChatFlow.Flow.Route
import ChatFlow.Settings

/-!
What one conversation remembers: where it stands, the handlers of its trees, its variables and the
results of calls.
-/
namespace ChatFlow
open Flow Expr
variable {ω η : Type}

/-- What all sessions of a flow share. -/
structure Scenario (ω η : Type) where
  graph : Flow.Graph ω η
  members : Namespace ω η
  settings : Settings

/-- A handler of a tree. No two handlers of a session ever have the same serial number. -/
structure Handler (η : Type) where
  serial : Nat
  state : η

structure Session (η : Type) where
  navigation : Navigation
  handlers : Table NodeId (Handler η)
  bindings : Variables
  memos : Memos
  role : Option String
  /-- Serial number of the next handler. -/
  nextSerial : Nat

namespace Session

/-- A session that stands nowhere. -/
def fresh (role : Option String) : Session η := ⟨.nowhere, ∅, ∅, .empty, role, 0⟩

def setRole (s : Session η) (role : Option String) : Session η := { s with role }

/-- Forgets everything but the role. -/
def reset (s : Session η) : Session η := { fresh s.role with nextSerial := s.nextSerial }

def current (s : Session η) : Option NodeId := s.navigation.current

/-- Whether a handler of the tree is alive. -/
def hasHandler (s : Session η) (tree : NodeId) : Bool := s.handlers.contains tree

/-- The active nodes, from the tree inwards. -/
def activePath (s : Session η) (g : Flow.Graph ω η) : List NodeId :=
  (s.current.map g.pathTo).getD []

/-- Makes the handler of a tree that has an owner but no handler yet. The world may change meanwhile. -/
def ensureHandler (s : Session η) (sc : Scenario ω η) (tree : NodeId) (world : ω) : Session η × ω :=
  match (sc.graph.node tree).handler with
  | none => (s, world)
  | some owner =>
    if s.hasHandler tree then (s, world)
    else
      match sc.members.factory? owner with
      | none => (s, world)
      | some factory =>
        let (state, world) := factory.make world
        ({ s with
            handlers := s.handlers.insert tree ⟨s.nextSerial, state⟩
            nextSerial := s.nextSerial + 1 }, world)

/-- The handler that is active in a tree. -/
def activeHandler? (s : Session η) (sc : Scenario ω η) (tree : NodeId) : Option (Handler η) :=
  if (sc.graph.node tree).handler.isSome then s.handlers.get? tree else none

end Session

/-- Where an event left the session. -/
structure Landing where
  place : NodeId
  /-- Edit directive of the last transition that has one. -/
  edit : Option EditTarget
  editSource : Option EditSource
deriving DecidableEq

/-- What an event led to. -/
inductive Outcome where
  /-- Nothing was selected. -/
  | ignored
  | entered (tree : NodeId) (landing : Landing)
  | branched (branch : NodeId) (landing : Landing)
  /-- No branch was selected, and the default one was taken. -/
  | defaulted (branch : NodeId) (landing : Landing)
  /-- A tree was selected that the role may not enter. -/
  | denied (tree : NodeId) (fallback : Option Landing)
  /-- The guard of the first transition was false, and nothing changed. -/
  | cancelled (place : Option NodeId)
deriving DecidableEq

end ChatFlow
