import ChatFlow.Expr.Parse

/-! Expressions as tokens again, with parentheses only where a part would be read otherwise. -/
namespace ChatFlow.Expr

/-- A token as it is printed. Without a position of its own, it may stand at any. -/
structure Sketch where
  kind : TokenKind
  position : Option Nat

namespace Sketch

/-- A token that carries no position of an expression. -/
def free (kind : TokenKind) : Sketch := ⟨kind, none⟩

def Allows (s : Sketch) (t : Token) : Prop :=
  t.kind = s.kind ∧ ∀ position, s.position = some position → t.position = position

theorem Allows.eq_of_position {kind : TokenKind} {position : Nat} {t : Token}
    (h : Allows ⟨kind, some position⟩ t) : t = .mk kind position := by
  obtain ⟨rfl, hposition⟩ := h
  rw [← hposition position rfl]
  cases t
  rfl

end Sketch

namespace Ast

/-- How tightly an expression holds together: a conditional not at all, since it takes every operator
that follows it, and a single token more than any operator. -/
def strength : Ast → Nat
  | conditional .. => 0
  | operation op .. => op.precedence
  | literal .. | call .. => 12

mutual

/-- Whether an expression can be an argument: a literal, or a call whose own arguments can be. -/
def isArgument : Ast → Bool
  | literal .. | call _ _ _ none _ => true
  | call _ _ _ (some args) _ => areArguments args
  | conditional .. | operation .. => false
termination_by structural e => e

def areArguments : List Ast → Bool
  | [] => true
  | e :: es => isArgument e && areArguments es
termination_by structural es => es

end

mutual

/-- Whether an expression can be written down: every conditional in it has a branch, and every call
only arguments that can be arguments. -/
def isPrintable : Ast → Bool
  | literal .. | call _ _ _ none _ => true
  | call _ _ _ (some args) _ => areArguments args
  | conditional branches none _ => !branches.isEmpty && arePrintable branches
  | conditional branches (some last) _ =>
    !branches.isEmpty && arePrintable branches && isPrintable last
  | operation _ left right _ => isPrintable left && isPrintable right
termination_by structural e => e

def arePrintable : List (Ast × Ast) → Bool
  | [] => true
  | (guard, body) :: branches => isPrintable guard && isPrintable body && arePrintable branches
termination_by structural branches => branches

end

mutual

/-- The token of an argument. -/
def toArgument : Ast → Token
  | literal value position => .mk (.literal value) position
  | call form owner name none position => .mk (.call form owner name none) position
  | call form owner name (some args) position =>
    .mk (.call form owner name (some (toArguments args))) position
  | conditional _ _ position | operation _ _ _ position => .mk .opening position
termination_by structural e => e

def toArguments : List Ast → List Token
  | [] => []
  | e :: es => toArgument e :: toArguments es
termination_by structural es => es

end

/-- The tokens of an expression where one weaker than `floor` needs parentheses. -/
def enclose (floor : Nat) (e : Ast) (tokens : List Sketch) : List Sketch :=
  if e.strength < floor then .free .opening :: (tokens ++ [.free .closing]) else tokens

mutual

/-- The tokens of an expression. A left side must hold at least as tightly as the operator, a right
side more tightly, and a part of a conditional must not be a conditional. -/
def print : Ast → List Sketch
  | literal value position => [⟨.literal value, some position⟩]
  | call form owner name none position => [⟨.call form owner name none, some position⟩]
  | call form owner name (some args) position =>
    [⟨.call form owner name (some (toArguments args)), some position⟩]
  | conditional branches none position =>
    printBranches [⟨.keyword .ifWord, some position⟩] branches
  | conditional branches (some last) position =>
    printBranches [⟨.keyword .ifWord, some position⟩] branches ++
      .free (.keyword .elseWord) :: enclose 1 last (print last)
  | operation op left right position =>
    enclose op.precedence left (print left) ++ ⟨.operator op, some position⟩ ::
      enclose (op.precedence + 1) right (print right)
termination_by structural e => e

/-- The tokens of branches, of which the first one starts with the given words and the others with
`ELSE IF`. -/
def printBranches (start : List Sketch) : List (Ast × Ast) → List Sketch
  | [] => []
  | (guard, body) :: branches =>
    start ++ (enclose 1 guard (print guard) ++ .free (.keyword .doWord) ::
      (enclose 1 body (print body) ++
        printBranches [.free (.keyword .elseWord), .free (.keyword .ifWord)] branches))
termination_by structural branches => branches

end

/-- The tokens of an expression as a part of another one. -/
def printAt (floor : Nat) (e : Ast) : List Sketch := e.enclose floor e.print

end Ast
end ChatFlow.Expr
