import ChatFlow.Flow.Access
import ChatFlow.Flow.Navigation

/-!
Routes: the hop that a move asks for, and the hops that automatic transitions add to it. Moves into
another tree may be gated by the access rules; a denied move goes to the fallback tree of the role,
or is dropped.
-/
namespace ChatFlow.Flow
variable {ω η : Type}

/-- The role that moves are checked for. -/
structure Gate where
  guestLevel : UInt32
  role : Option String
deriving DecidableEq

/-- How moves over a graph are resolved. -/
structure Router (ω η : Type) where
  graph : Graph ω η
  /-- Most automatic transitions per move. -/
  limit : Nat
  gate : Option Gate

namespace Router

/-- Where a transition leads when it is fired at a position. -/
def targetOf (r : Router ω η) (t : Transition ω η) (n : Navigation) : NodeId :=
  let somewhere := (n.current <|> r.graph.trees.head?).getD 0
  match t.move, t.target with
  | .jump, some target | .back, some target => target
  | .back, none => (n.current.bind r.graph.parent).getD somewhere
  | .caller, _ | .jump, none =>
    (n.callers.getLast?.map Caller.tree <|> r.graph.trees.head?).getD somewhere

/-- The target that the gate lets through, if any. Moves inside one tree are free. -/
def gated (r : Router ω η) (origin : Option NodeId) (target : NodeId) : Option NodeId :=
  match r.gate with
  | none => some target
  | some gate =>
    let tree := r.graph.tree target
    if origin.any fun id => r.graph.tree id = tree then some target
    else
      match AccessRules.check ⟨r.graph, gate.guestLevel⟩ gate.role tree with
      | .granted => some target
      | .denied fallback => fallback

/-- The jump that a transition completes, with its follow-ups: that of the last waiting tree, when
the transition returns to it. -/
def completedBy (r : Router ω η) (t : Transition ω η) (n : Navigation) : List (Transition ω η) :=
  match t.move with
  | .caller => ((n.callers.getLast?.bind Caller.resume).map r.graph.transitionsFrom).getD []
  | .jump | .back => []

def commonWith (r : Router ω η) (origin : Option NodeId) (target : NodeId) : Option NodeId :=
  origin.bind fun id => r.graph.commonAncestor? id target

/-- The hop of a transition, unless it is denied without a fallback. -/
def step (r : Router ω η) (n : Navigation) (t : Transition ω η) : Option (Hop ω η) :=
  (r.gated n.current (r.targetOf t n)).map fun target =>
    .between r.graph n.current target (r.commonWith n.current target) (some t) (r.completedBy t n)

/-- A hop and the automatic ones after it, of which `left` more are allowed. -/
def chain (r : Router ω η) (n : Navigation) (h : Hop ω η) (left : Nat) :
    Except FlowError (List (Hop ω η)) :=
  let n := n.advance r.graph h
  match h.followUp? r.graph with
  | none => .ok [h]
  | some t =>
    match left with
    | 0 => .error (.transitionChain r.limit)
    | left + 1 =>
      match r.step n t with
      | none => .ok [h]
      | some next => do return h :: (← r.chain n next left)

/-- One hop to a target, without automatic ones. -/
def jump (r : Router ω η) (origin : Option NodeId) (target : NodeId)
    (via : Option (Transition ω η)) : Hop ω η :=
  .between r.graph origin target (r.commonWith origin target) via []

/-- The route to a node. -/
def routeTo (r : Router ω η) (n : Navigation) (target : NodeId) :
    Except FlowError (List (Hop ω η)) :=
  r.chain n (r.jump n.current target none) r.limit

/-- The route to the node that a name means as seen from a node. -/
def routeToName (r : Router ω η) (origin : NodeId) (name : String) :
    Except FlowError (List (Hop ω η)) :=
  match r.graph.lookup? (some origin) name with
  | some target => r.routeTo (.standing origin) target
  | none => .error (.configuration (.unknownTarget (r.graph.path origin) name))

/-- The route into a tree from scratch: all active nodes are left, and the tree is entered even if
it is active already. -/
def enterTree (r : Router ω η) (n : Navigation) (tree : NodeId) :
    Except FlowError (List (Hop ω η)) :=
  r.chain n (.between r.graph n.current tree none none []) r.limit

/-- The route of a transition fired at a position; none when it is denied. -/
def follow (r : Router ω η) (n : Navigation) (t : Transition ω η) :
    Except FlowError (Option (List (Hop ω η))) :=
  match r.step n t with
  | some h => some <$> r.chain n h r.limit
  | none => .ok none

end Router
end ChatFlow.Flow
