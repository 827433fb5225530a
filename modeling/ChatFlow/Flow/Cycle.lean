import ChatFlow.Flow.Graph

/-!
Automatic transitions must not lead back to a node that they started from or came through.
-/
namespace ChatFlow.Flow
variable {ω η : Type}

namespace Graph

/-- Where the transition of a node leads on its own; a return to a caller depends on the session. -/
def automaticTarget? (g : Graph ω η) (id : NodeId) : Option NodeId := do
  let t ← (g.node id).transition?
  match t.target, t.move with
  | some target, _ => target
  | none, .back => (g.parent id).getD id
  | none, _ => none

/-- Whether the automatic transitions from a node come to one of the visited nodes, after at most
`left` of them. More of them than there are nodes must come back somewhere. -/
def revisits (g : Graph ω η) : (left : Nat) → (visited : List NodeId) → NodeId → Bool
  | 0, _, _ => true
  | left + 1, visited, id =>
    match g.automaticTarget? id with
    | none => false
    | some target => visited.contains target || g.revisits left (target :: visited) target

/-- Whether automatic transitions from a node form a cycle. -/
def cyclesFrom (g : Graph ω η) (id : NodeId) : Bool := g.revisits (g.size + 1) [id] id

/-- Refuses a graph in which automatic transitions form a cycle. -/
def checkCycles (g : Graph ω η) : Except ConfigError Unit :=
  match g.ids.find? g.cyclesFrom with
  | some id => .error (.cyclicTransition (g.path id))
  | none => .ok ()

end Graph
end ChatFlow.Flow
