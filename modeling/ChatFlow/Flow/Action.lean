import ChatFlow.Expr.Eval

/-!
Side effects of nodes and transitions.
-/
namespace ChatFlow.Flow
open Expr
variable {ω η : Type}

/-- A side effect that the application registers under a name. -/
abbrev Procedure (ω η : Type) := Situation → Effect ω η Unit

/-- Registered procedures; a later one replaces an earlier one of the same name. -/
abbrev Procedures (ω η : Type) := Table String (Procedure ω η)

/-- What an action does. -/
inductive Deed (ω η : Type) where
  /-- Evaluates an expression for its effects. -/
  | invoke (expression : Expression ω η)
  | call (name : String) (procedure : Procedure ω η)
  /-- Forgets all remembered results of the session. -/
  | clearCache

/-- An action of the node that declares it. -/
structure Action (ω η : Type) where
  deed : Deed ω η
  /-- The action is skipped when its guard is false. -/
  guard : Option (Expression ω η)
  node : NodeId
  /-- The tree whose handler is active meanwhile. -/
  tree : NodeId

/-- Short description of an action. -/
def Action.label (a : Action ω η) : String :=
  match a.deed with
  | .invoke e => "invoke " ++ e.source.getD "<expr>"
  | .call name _ => "call " ++ name
  | .clearCache => "clear-cache"

end ChatFlow.Flow
