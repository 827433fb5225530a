import ChatFlow.Flow.Graph

/-!
An indented listing of all trees and branches.
-/
namespace ChatFlow.Flow
variable {ω η : Type}

/-- Where a transition leads, in words. -/
def Transition.describe (g : Graph ω η) (t : Transition ω η) : String :=
  match t.move, t.target with
  | .jump, some target => g.path target
  | .back, some target => "back " ++ g.path target
  | .back, none => "back"
  | .caller, _ | .jump, none => "caller"

namespace Graph

/-- One line of the listing. -/
def outlineLine (g : Graph ω η) (id : NodeId) (isDefault : Bool) : String :=
  let n := g.node id
  let indent := String.ofList (List.replicate (2 * n.depth) ' ')
  let label := if n.isTree then "tree" else if isDefault then "default" else "branch"
  let level := if n.accessLevel = 0 then "" else s!" [level {n.accessLevel.toNat}]"
  let handler := match n.handler with
    | some owner => s!" <{owner}>"
    | none => ""
  let transition := match n.transition? with
    | some t => " -> " ++ t.describe g
    | none => ""
  indent ++ label ++ " " ++ n.name ++ level ++ handler ++ transition ++ "\n"

/-- The lines of a node and of all below it, down to at most `levels` levels. -/
def outlineFrom (g : Graph ω η) : (levels : Nat) → (isDefault : Bool) → NodeId → List String
  | 0, _, _ => []
  | levels + 1, isDefault, id =>
    g.outlineLine id isDefault ::
      ((g.node id).children.flatMap (g.outlineFrom levels false) ++
        (g.node id).fallback.toList.flatMap (g.outlineFrom levels true))

/-- The listing of the graph. No node lies deeper than there are nodes. -/
def outline (g : Graph ω η) : String :=
  "".intercalate (g.trees.flatMap (g.outlineFrom g.size false))

end Graph
end ChatFlow.Flow
