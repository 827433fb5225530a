import ChatFlow.Expr.Namespace

/-!
Members that every document may use.
-/
namespace ChatFlow.Expr
variable {ω η : Type}

namespace Builtin

/-- A member that computes its result from its only argument. -/
def ofArgument (name : String) (param returns : Kind) (f : Value → Value) : Member ω η :=
  .function builtinOwner name [param] returns fun _ args => return f (args.headD .null)

/-- A member that reads the event. -/
def ofEvent (name : String) (returns : Kind) (f : Flow.Event → Value) : Member ω η :=
  .function builtinOwner name [] returns fun s _ => return (s.event.map f).getD .null

def optionalText (s : Option String) : Value := (s.map Value.str).getD .null

/-- Whether there is nothing to see: null, an empty text or an empty list. -/
def isEmptyValue : Value → Bool
  | .null => true
  | .str s => s == ""
  | .list items => items.isEmpty
  | _ => false

def argumentText (args : List Value) : String := ((args.headD .null).str?).getD ""

/-- Looks up a name in the environment of the process. -/
def env (environment : String → Option String) : Member ω η :=
  .function builtinOwner "env" [.str] .str fun _ args => do
    match (args.headD .null).str? with
    | some name => return optionalText (environment name)
    | none => throw "env expects a name"

/-- Value of a variable. -/
def var : Member ω η :=
  .function builtinOwner "var" [.str] .any fun _ args => do
    return ((← get).bindings.get? (argumentText args)).getD .null

/-- Binds its input to a variable. -/
def store : Member ω η :=
  .generator builtinOwner "store" [.str] .any .unit fun _ args => return fun input => do
    modify fun st => { st with bindings := st.bindings.insert (argumentText args) input }
    return .null

def startsWith : Member ω η :=
  .generator builtinOwner "startsWith" [.str] .str .bool fun _ args => return fun input => do
    let start := (argumentText args).toList
    return .bool (input.str?.any fun s => start.isPrefixOf s.toList)

/-- Its argument takes the place of a missing input. -/
def fallback : Member ω η :=
  .generator builtinOwner "default" [.any] .any .any fun _ args => return fun input =>
    return if input.isNull then args.headD .null else input

/-- All of them, over the environment of the process. -/
def members (environment : String → Option String) : List (Member ω η) :=
  [ ofArgument "not" .bool .bool fun v => .bool !(v.bool?.getD false),
    ofArgument "isNull" .any .bool fun v => .bool v.isNull,
    ofArgument "notNull" .any .bool fun v => .bool !v.isNull,
    ofArgument "isEmpty" .any .bool fun v => .bool (isEmptyValue v),
    env environment,
    ofEvent "text" .str fun e => optionalText e.text?,
    ofEvent "callbackData" .str fun e => optionalText e.callback?,
    ofEvent "userId" .int fun e => .int e.user,
    var,
    store,
    startsWith,
    fallback ]

end Builtin

/-- A namespace with the builtin members only. -/
def Namespace.builtin (environment : String → Option String) : Namespace ω η :=
  ⟨Builtin.members environment, ∅⟩

end ChatFlow.Expr
