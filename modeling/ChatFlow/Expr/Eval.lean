import ChatFlow.Expr.Term

/-!
Evaluation of terms. It changes variables, remembered results, the state of the active handler and
the world, and keeps these changes when it fails.
-/
namespace ChatFlow.Expr
variable {ω η : Type}

/-- Why an evaluation fails. -/
inductive EvalError where
  /-- The body of a member failed with a message. -/
  | invocation (member message : String)
  /-- A value does not fit the kind fixed before the evaluation. -/
  | resultKind (expected found : Kind)
  /-- Something other than a boolean decides about a condition. -/
  | nonBooleanCondition (found : Kind)
  | noBranchMatched
  /-- The two values have no order. -/
  | incomparable (left right : Kind)
deriving DecidableEq

def EvalError.message : EvalError → String
  | invocation member message => s!"reference '{member}' failed: {message}"
  | resultKind expected found => s!"expected a value of type {expected.name}, got {found.name}"
  | nonBooleanCondition found => s!"condition produced {found.name} instead of a boolean"
  | noBranchMatched => "no conditional branch matched and no ELSE was given"
  | incomparable left right => s!"cannot compare {left.name} with {right.name}"

/-- What evaluations change. -/
structure Memory (ω η : Type) where
  store : Store ω η
  memos : Memos

abbrev Eval (ω η α : Type) := ExceptT EvalError (StateM (Memory ω η)) α

namespace Eval

/-- The boolean that decides about a condition. -/
def truth (v : Value) : Eval ω η Bool :=
  match v with
  | .bool b => return b
  | v => throw (.nonBooleanCondition v.kind)

/-- The value converted to a kind that it must fit. -/
def conform (expected : Kind) (v : Value) : Eval ω η Value :=
  match v.convert? expected with
  | some v => return v
  | none => throw (.resultKind expected v.kind)

/-- Converts arguments to the kinds of their parameters, in order. -/
def conformAll : List Value → List Kind → Eval ω η (List Value)
  | v :: vs, k :: ks => do
    let v ← conform k v
    return v :: (← conformAll vs ks)
  | _, _ => return []

/-- Runs an effect of the named member. -/
def perform {α : Type} (member : String) (e : Effect ω η α) : Eval ω η α := do
  let memory ← get
  let (result, store) := Effect.perform e memory.store
  set { memory with store }
  match result with
  | .ok a => return a
  | .error message => throw (.invocation member message)

/-- Runs the body of a member on arguments and input that are not converted yet. -/
def run (s : Situation) (m : Member ω η) (args : List Value) (input : Value) : Eval ω η Value := do
  let args ← conformAll args m.params
  let produced ← match m.body with
    | .function body => perform m.qualifiedName (body s args)
    | .generator body => do
      let input ← conform m.input input
      let next ← perform m.qualifiedName (body s args)
      perform m.qualifiedName (next input)
  conform m.returns produced

/-- The result remembered for a call, if it may be served. -/
def remembered (s : Situation) (m : Member ω η) (slot : Option Nat) : Eval ω η (Option Value) := do
  let memory ← get
  return slot.bind fun slot => memory.memos.lookup slot m.caching (some s.capture)

/-- Remembers the result of a call that has a slot. -/
def remember (s : Situation) (m : Member ω η) (slot : Option Nat) (v : Value) : Eval ω η Unit :=
  match slot with
  | none => pure ()
  | some slot =>
    modify fun memory => { memory with memos := memory.memos.write slot m.caching v s.capture }

/-- The arguments of a call: a piped value is the first argument of a plain function. -/
def withPiped (m : Member ω η) (piped : Option Value) (args : List Value) : List Value :=
  match m.form with
  | .reference => piped.toList ++ args
  | .generator => args

/-- Whether an order satisfies a comparison. -/
def holds (op : Operator) (o : Ordering) : Bool :=
  match op with
  | .greater => o == .gt
  | .greaterOrEqual => o != .lt
  | .less => o == .lt
  | _ => o != .gt

/-- An operator that evaluates both sides and then looks at the two values. -/
def compareValues (op : Operator) (l r : Value) : Eval ω η Value :=
  match op with
  | .equals => return .bool (l.looselyEqual r)
  | .notEquals => return .bool (!l.looselyEqual r)
  | op =>
    match l.order? r with
    | some o => return .bool (holds op o)
    | none => throw (.incomparable l.kind r.kind)

mutual

/-- Value of a term. On the right of a chain, `piped` is the value of the left side. -/
def term (s : Situation) (piped : Option Value) : Term ω η → Eval ω η Value
  | .literal v => return v
  | .call m args _ slot _ => do
    match ← remembered s m slot with
    | some v => return v
    | none =>
      let values ← terms s args
      let v ← run s m (withPiped m piped values) (piped.getD .null)
      remember s m slot v
      return v
  | .conditional bs none _ fallThrough => do
    match ← branches s bs with
    | some v => return v
    | none => if fallThrough then return .null else throw .noBranchMatched
  | .conditional bs (some last) _ _ => do
    match ← branches s bs with
    | some v => return v
    | none => term s none last
  | .operation op left right _ => do
    match op with
    | .sequence =>
      let _ ← term s none left
      term s none right
    | .chain =>
      let input ← term s none left
      term s (some input) right
    | .or =>
      if ← truth (← term s none left) then return .bool true
      else return .bool (← truth (← term s none right))
    | .and =>
      if ← truth (← term s none left) then return .bool (← truth (← term s none right))
      else return .bool false
    | op =>
      let l ← term s none left
      let r ← term s none right
      compareValues op l r
termination_by structural t => t

/-- Values of terms, from left to right. -/
def terms (s : Situation) : List (Term ω η) → Eval ω η (List Value)
  | [] => return []
  | t :: ts => do
    let v ← term s none t
    return v :: (← terms s ts)
termination_by structural ts => ts

/-- Value of the first body whose guard holds. -/
def branches (s : Situation) : List (Term ω η × Term ω η) → Eval ω η (Option Value)
  | [] => return none
  | (guard, body) :: rest => do
    if ← truth (← term s none guard) then return some (← term s none body)
    else branches s rest
termination_by structural bs => bs

end
end Eval

namespace Expression

/-- Value of an expression, converted to the kind that is wanted. -/
def evaluate (e : Expression ω η) (s : Situation) : Eval ω η Value := do
  Eval.conform e.expected (← Eval.term s none e.term)

/-- Truth of an expression. -/
def test (e : Expression ω η) (s : Situation) : Eval ω η Bool := do
  Eval.truth (← e.evaluate s)

end Expression
end ChatFlow.Expr
