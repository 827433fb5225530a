import ChatFlow.Number.Decimal

/-!
Values that expressions compute with, and the static kinds that sort them. A value fits a kind
when conversion to it succeeds: integers widen to floats, and null stands for a missing value of
every kind but the booleans.
-/
namespace ChatFlow

/-- What an expression evaluates to. -/
inductive Value where
  | null
  | bool (flag : Bool)
  | int (number : Int64)
  | float (number : Binary64)
  | str (text : String)
  | list (items : List Value)
deriving Inhabited

/-- Static kind of an expression, fixed before it is evaluated. -/
inductive Kind where
  /-- Not known until the expression is evaluated. -/
  | any
  /-- The result is discarded. -/
  | unit
  | bool
  | int
  /-- Integers widen into it. -/
  | float
  | str
  | list
deriving DecidableEq, Inhabited

namespace Kind

/-- Name of a kind in messages. -/
def name : Kind → String
  | any => "Any"
  | unit => "Unit"
  | bool => "Bool"
  | int => "Int"
  | float => "Float"
  | str => "String"
  | list => "List"

/-- Whether an expression of the found kind may stand where the expected one is wanted. -/
def accepts (expected found : Kind) : Bool :=
  expected == any || found == any || expected == unit ||
  (expected == float && found == int) || expected == found

/-- Common kind of two alternatives. -/
def unify (a b : Kind) : Kind :=
  if a = b then a
  else if (a = int ∧ b = float) ∨ (a = float ∧ b = int) then float
  else any

/-- Numeric kinds can be ordered against each other. -/
def isNumeric (k : Kind) : Bool := k == int || k == float

end Kind

namespace Value

/-- Kind of a value by itself; null has none of its own. -/
def kind : Value → Kind
  | null => .any
  | bool _ => .bool
  | int _ => .int
  | float _ => .float
  | str _ => .str
  | list _ => .list

def isNull : Value → Bool
  | null => true
  | _ => false

def bool? : Value → Option Bool
  | bool b => some b
  | _ => none

def int? : Value → Option Int64
  | int n => some n
  | _ => none

def str? : Value → Option String
  | str s => some s
  | _ => none

/-- A number as a float, integers rounded to the nearest one. -/
def float? : Value → Option Binary64
  | int n => some (.ofInt n.toInt)
  | float x => some x
  | _ => none

/-- Converts a value to a kind. Whatever is wanted as unit becomes null. -/
def convert? (k : Kind) (v : Value) : Option Value :=
  match k, v with
  | .unit, _ => some null
  | .any, v => some v
  | .bool, null => none
  | _, null => some null
  | .float, int n => some (float (.ofInt n.toInt))
  | k, v => if v.kind = k then some v else none

/-- Equality of values of one shape, floats by value; null, texts and lists by content. -/
def same : Value → Value → Bool
  | null, null => true
  | bool a, bool b => a == b
  | int a, int b => a == b
  | float a, float b => a.equals b
  | str a, str b => a == b
  | list as, list bs => sameItems as bs
  | _, _ => false
where
  sameItems : List Value → List Value → Bool
    | [], [] => true
    | a :: as, b :: bs => same a b && sameItems as bs
    | _, _ => false

instance : BEq Value := ⟨same⟩

/-- Equality in expressions: an integer and a float are compared as floats. -/
def looselyEqual (a b : Value) : Bool :=
  match a, b with
  | int m, float y => (Binary64.ofInt m.toInt).equals y
  | float x, int n => (Binary64.ofInt n.toInt).equals x
  | a, b => same a b

/-- Order of two texts or of two numbers; integers are compared exactly, all else as floats. -/
def order? (a b : Value) : Option Ordering :=
  match a, b with
  | str s, str t => some (compare s t)
  | int m, int n => some (compare m.toInt n.toInt)
  | a, b => do (← a.float?).order? (← b.float?)

/-- Text of a value. Texts inside a list are not quoted. -/
def render : Value → String
  | null => "null"
  | bool b => if b then "true" else "false"
  | int n => toString n.toInt
  | float x => x.render
  | str s => s
  | list items => "[" ++ ", ".intercalate (renderItems items) ++ "]"
where
  renderItems : List Value → List String
    | [] => []
    | v :: vs => render v :: renderItems vs

end Value
end ChatFlow
