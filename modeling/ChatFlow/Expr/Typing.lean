import ChatFlow.Expr.Parse
import ChatFlow.Expr.Term

/-!
From untyped expressions to terms. The state is the number of slots handed out, so that calls
compiled one after the other never share a slot, even when a compilation fails in between.
-/
namespace ChatFlow.Expr
variable {ω η : Type}

/-- A compilation, over the number of slots handed out. -/
abbrev Typing (α : Type) := ExceptT ParseError (StateM Nat) α

namespace Typing

/-- A slot that was never handed out before. -/
def newSlot : Typing Nat := modifyGet fun n => (n, n + 1)

def fail {α : Type} (reason : ParseReason) (position : Nat) : Typing α :=
  throw ⟨reason, position⟩

/-- Refuses a part whose kind does not fit the place where it stands. -/
def check (expected found : Kind) (position : Nat) : Typing Unit :=
  if expected.accepts found then pure () else fail (.typeMismatch expected found) position

/-- Kind of a conditional so far, with one more body. -/
def join (current : Option Kind) (next : Kind) : Kind :=
  match current with
  | none => next
  | some k => k.unify next

/-- Whether values of two kinds may be ordered, as far as the kinds tell. -/
def comparable (left right : Kind) : Bool :=
  left == .any || right == .any || (left.isNumeric && right.isNumeric) ||
  (left == .str && right == .str)

/-- Number of arguments that a piped value takes: one of a plain reference, none of a generator. -/
def pipedArity (form : CallForm) (piped : Option Kind) : Nat :=
  if piped.isSome && form == .reference then 1 else 0

/-- Looks up the member of a reference and checks that it can receive the piped value. -/
def resolve (ns : Namespace ω η) (scope owner : Option String) (name : String) (arity : Nat)
    (form : CallForm) (piped : Option Kind) (position : Nat) : Typing (Member ω η) := do
  match ns.resolve scope owner name (arity + pipedArity form piped) form with
  | .error reason => fail reason position
  | .ok m =>
    match piped with
    | none => return m
    | some found =>
      let expected := if form = .generator then m.input else m.params.headD .any
      if expected.accepts found then return m
      else fail (.argumentMismatch m.qualifiedName 0 expected found) position

/-- A call with its slot, which is taken after the slots of its arguments. -/
def finishCall (m : Member ω η) (args : List (Term ω η)) (piped : Option Kind) (position : Nat) :
    Typing (Term ω η) := do
  let slot ← match m.caching with
    | .perEvent => some <$> newSlot
    | .never => pure none
  return .call m args piped.isSome slot position

mutual

/-- The term of an expression in a place of the expected kind. On the right of a chain, `piped` is
the kind of the left side. -/
def term (ns : Namespace ω η) (scope : Option String) (expected : Kind) (piped : Option Kind) :
    Ast → Typing (Term ω η)
  | .literal v _ => return .literal v
  | .call form owner name none position => do
    let m ← resolve ns scope owner name 0 form piped position
    finishCall m [] piped position
  | .call form owner name (some args) position => do
    let m ← resolve ns scope owner name args.length form piped position
    let shift := pipedArity form piped
    let args ← arguments ns scope m.qualifiedName shift (m.params.drop shift) args
    finishCall m args piped position
  | .conditional bs none _ => do
    let (kind, bs) ← branches ns scope expected none bs
    return .conditional bs none (kind.getD .any) (expected == .unit)
  | .conditional bs (some other) _ => do
    let (kind, bs) ← branches ns scope expected none bs
    let last ← term ns scope expected none other
    check expected last.kind other.position
    return .conditional bs (some last) (join kind last.kind) (expected == .unit)
  | .operation .chain left right _ => do
    match right with
    | .call .. => pure ()
    | _ => fail .illegalChainTarget right.position
    let l ← term ns scope .any none left
    let r ← term ns scope expected (some l.kind) right
    return .operation .chain l r r.kind
  | .operation .sequence left right _ => do
    let l ← term ns scope .unit none left
    let r ← term ns scope expected none right
    return .operation .sequence l r r.kind
  | .operation op left right position => do
    match op with
    | .and | .or =>
      let l ← term ns scope .bool none left
      check .bool l.kind left.position
      let r ← term ns scope .bool none right
      check .bool r.kind right.position
      return .operation op l r .bool
    | _ =>
      let l ← term ns scope .any none left
      let r ← term ns scope .any none right
      match op with
      | .equals | .notEquals => return .operation op l r .bool
      | _ =>
        if comparable l.kind r.kind then return .operation op l r .bool
        else fail (.typeMismatch l.kind r.kind) position
termination_by structural e => e

/-- The terms of written arguments, of which the first has the given index. -/
def arguments (ns : Namespace ω η) (scope : Option String) (reference : String) (index : Nat)
    (params : List Kind) : List Ast → Typing (List (Term ω η))
  | [] => return []
  | arg :: args => do
    let expected := params.headD .any
    let t ← term ns scope expected none arg
    if expected.accepts t.kind then
      return t :: (← arguments ns scope reference (index + 1) params.tail args)
    else fail (.argumentMismatch reference index expected t.kind) arg.position
termination_by structural args => args

/-- The terms of guards and bodies, with the common kind of the bodies. -/
def branches (ns : Namespace ω η) (scope : Option String) (expected : Kind) (kind : Option Kind) :
    List (Ast × Ast) → Typing (Option Kind × List (Term ω η × Term ω η))
  | [] => return (kind, [])
  | (guard, body) :: rest => do
    let g ← term ns scope .bool none guard
    check .bool g.kind guard.position
    let b ← term ns scope expected none body
    check expected b.kind body.position
    let (kind, rest) ← branches ns scope expected (some (join kind b.kind)) rest
    return (kind, (g, b) :: rest)
termination_by structural bs => bs

end

/-- Compiles an expression whose results are to have a kind. -/
def compile (ns : Namespace ω η) (scope : Option String) (expected : Kind) (e : Ast) :
    Typing (Expression ω η) := do
  let t ← term ns scope expected none e
  check expected t.kind e.position
  return ⟨t, expected, none⟩

/-- Reads and compiles an expression. -/
def compileText (ns : Namespace ω η) (scope : Option String) (expected : Kind) (text : String) :
    Typing (Expression ω η) := do
  match parseText text with
  | .error e => throw e
  | .ok e => return { ← compile ns scope expected e with source := some text }

end Typing
end ChatFlow.Expr
