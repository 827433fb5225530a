import ChatFlow.Expr.Token

/-!
Untyped expressions, with the byte offset of each part in its source.
-/
namespace ChatFlow.Expr

/-- An expression before the members it names are looked up. -/
inductive Ast where
  | literal (value : Value) (position : Nat)
  /-- Use of a member; `args` is absent when no parentheses are written. -/
  | call (form : CallForm) (owner : Option String) (name : String) (args : Option (List Ast))
      (position : Nat)
  /-- Guards with their bodies in order, and a last body for when no guard holds. -/
  | conditional (branches : List (Ast × Ast)) (otherwise : Option Ast) (position : Nat)
  /-- A binary operation, at the offset of its operator. -/
  | operation (op : Operator) (left right : Ast) (position : Nat)
deriving Inhabited

/-- Offset at which messages point. -/
def Ast.position : Ast → Nat
  | literal _ position => position
  | call _ _ _ _ position => position
  | conditional _ _ position => position
  | operation _ _ _ position => position

mutual

/-- The expression of an argument. Tokens that a text never has there count as null. -/
def Ast.ofArgument : Token → Ast
  | .mk kind position => ofKind position kind
termination_by structural t => t

def ofKind (position : Nat) : TokenKind → Ast
  | .literal value => .literal value position
  | .call form owner name none => .call form owner name none position
  | .call form owner name (some args) => .call form owner name (some (ofArguments args)) position
  | .operator _ | .opening | .closing | .keyword _ => .literal .null position
termination_by structural k => k

def ofArguments : List Token → List Ast
  | [] => []
  | t :: ts => Ast.ofArgument t :: ofArguments ts
termination_by structural ts => ts

end

end ChatFlow.Expr
