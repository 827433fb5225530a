import ChatFlow.Flow.Graph

/-!
Where a session stands, and the hops that move it. A hop leaves nodes from the innermost one
outwards and then enters nodes inwards; the nodes common to both ends stay active.
-/
namespace ChatFlow.Flow
open Expr
variable {ω η : Type}

/-- A tree that waits for a jump to return. -/
structure Caller where
  /-- The tree that was left. -/
  tree : NodeId
  /-- The jump whose actions and follow-up run on return. -/
  resume : Option Site
deriving DecidableEq

/-- Position of a session. -/
structure Navigation where
  current : Option NodeId
  /-- Waiting trees, the most recent one last. -/
  callers : List Caller
deriving DecidableEq

def Navigation.nowhere : Navigation := ⟨none, []⟩

/-- A position without waiting trees. -/
def Navigation.standing (id : NodeId) : Navigation := ⟨some id, []⟩

/-- One move from a node to another. -/
structure Hop (ω η : Type) where
  origin : Option NodeId
  /-- Nodes left, the innermost first. -/
  exits : List NodeId
  /-- Deepest node that stays active. -/
  common : Option NodeId
  /-- Nodes entered, the outermost first. -/
  enters : List NodeId
  target : NodeId
  /-- The transition that was fired. -/
  via : Option (Transition ω η)
  /-- The jump that a return completes, and after it its follow-ups. -/
  resumes : List (Transition ω η)

namespace Hop

/-- The hop from an origin to a target that keeps the nodes from `common` on outwards. -/
def between (g : Graph ω η) (origin : Option NodeId) (target : NodeId) (common : Option NodeId)
    (via : Option (Transition ω η)) (resumes : List (Transition ω η)) : Hop ω η where
  origin
  exits := (origin.map fun id => (g.ancestors id).takeWhile (some · ≠ common)).getD []
  common
  enters := ((g.ancestors target).takeWhile (some · ≠ common)).reverse
  target
  via
  resumes

/-- The jump that a return completes. -/
def resumed? (h : Hop ω η) : Option (Transition ω η) := h.resumes.head?

/-- The guard of the transition that was fired. -/
def guard? (h : Hop ω η) : Option (Expression ω η) := h.via.bind fun t => t.options.execute

/-- The node for which the guard is evaluated. -/
def guardNode (h : Hop ω η) : NodeId := h.origin.getD h.target

/-- Actions of the nodes left. -/
def exitActions (g : Graph ω η) (h : Hop ω η) : List (Action ω η) :=
  h.exits.flatMap fun id => (g.node id).exitActions

/-- Whether the target lies in another tree than the origin. -/
def crossesTrees (g : Graph ω η) (h : Hop ω η) : Bool :=
  h.origin.any fun id => g.tree id ≠ g.tree h.target

/-- Actions of the transition, unless they wait for a return, and those of the completed jump. -/
def transitionActions (g : Graph ω η) (h : Hop ω η) : List (Action ω η) :=
  (match h.via with
    | some t => if t.move = .jump ∧ h.crossesTrees g then [] else t.actions
    | none => []) ++
  (match h.resumed? with
    | some t => t.actions
    | none => [])

/-- Actions of the nodes entered; the reentry actions of the target when none is. -/
def entryActions (g : Graph ω η) (h : Hop ω η) : List (Action ω η) :=
  if h.enters.isEmpty then (g.node h.target).reentryActions
  else h.enters.flatMap fun id => (g.node id).actions

/-- All actions in the order in which they run. -/
def actions (g : Graph ω η) (h : Hop ω η) : List (Action ω η) :=
  h.exitActions g ++ h.transitionActions g ++ h.entryActions g

/-- The transition that fires by itself after the hop: the follow-up of a completed jump, else the
transition of the target. -/
def followUp? (g : Graph ω η) (h : Hop ω η) : Option (Transition ω η) :=
  h.resumes[1]? <|> (g.node h.target).transition?

end Hop

namespace Navigation

/-- Waiting trees after a hop is taken, before its own tree is unwound. -/
def callersAfter (n : Navigation) (g : Graph ω η) (h : Hop ω η) : List Caller :=
  match h.via with
  | some t =>
    match t.move with
    | .caller => n.callers.dropLast
    | .back => n.callers
    | .jump =>
      match n.current with
      | some id =>
        if g.tree id ≠ g.tree h.target then n.callers ++ [⟨g.tree id, t.site⟩] else n.callers
      | none => n.callers
  | none => if h.common.isNone then [] else n.callers

/-- The position after a hop. Entering a tree from scratch forgets every waiting tree, and coming
into a waiting tree ends its wait and those after it. -/
def advance (n : Navigation) (g : Graph ω η) (h : Hop ω η) : Navigation where
  current := some h.target
  callers := (n.callersAfter g h).takeWhile fun c => c.tree ≠ g.tree h.target

end Navigation
end ChatFlow.Flow
