import ChatFlow.Expr.Namespace

/-!
Typed expressions: members are looked up, kinds are fixed, and every call of a member that
remembers its results has a slot of its own.
-/
namespace ChatFlow.Expr
variable {ω η : Type}

/-- An expression ready to be evaluated. -/
inductive Term (ω η : Type) where
  | literal (value : Value)
  /-- Call of a member; `piped` when it stands on the right of a chain. -/
  | call (member : Member ω η) (args : List (Term ω η)) (piped : Bool) (slot : Option Nat)
      (position : Nat)
  /-- With `fallThrough`, no guard holding means null and not a failure. -/
  | conditional (branches : List (Term ω η × Term ω η)) (otherwise : Option (Term ω η))
      (kind : Kind) (fallThrough : Bool)
  | operation (op : Operator) (left right : Term ω η) (kind : Kind)
deriving Inhabited

/-- A call inside a term. -/
structure CallSite (ω η : Type) where
  member : Member ω η
  piped : Bool
  slot : Option Nat
  position : Nat

namespace Term

/-- Static kind of a term. -/
def kind : Term ω η → Kind
  | literal v => v.kind
  | call m .. => m.returns
  | conditional _ _ kind _ => kind
  | operation _ _ _ kind => kind

mutual

/-- Every call of a term, a call before its arguments. -/
def calls : Term ω η → List (CallSite ω η)
  | literal _ => []
  | call m args piped slot position => ⟨m, piped, slot, position⟩ :: callsOfAll args
  | conditional branches none _ _ => callsOfBranches branches
  | conditional branches (some t) _ _ => callsOfBranches branches ++ calls t
  | operation _ left right _ => calls left ++ calls right
termination_by structural t => t

def callsOfAll : List (Term ω η) → List (CallSite ω η)
  | [] => []
  | t :: ts => calls t ++ callsOfAll ts
termination_by structural ts => ts

def callsOfBranches : List (Term ω η × Term ω η) → List (CallSite ω η)
  | [] => []
  | (guard, body) :: bs => calls guard ++ calls body ++ callsOfBranches bs
termination_by structural bs => bs

end
end Term

/-- A term with the kind that its results are converted to. -/
structure Expression (ω η : Type) where
  term : Term ω η
  expected : Kind
  /-- Text that it was read from. -/
  source : Option String
deriving Inhabited

/-- A constant. -/
def Expression.literal (v : Value) (expected : Kind) : Expression ω η :=
  ⟨.literal v, expected, none⟩

/-- Value of a constant. -/
def Expression.constant? (e : Expression ω η) : Option Value :=
  match e.term with
  | .literal v => some v
  | _ => none

end ChatFlow.Expr
