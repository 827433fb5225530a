import ChatFlow.Json.Basic

/-!
What number a numeral denotes. Whole numerals that fit 64 bits are integers. Every other numeral is
a float: its leading digits, as many as fit 64 bits, are rounded and then scaled by a power of ten
with one rounding each.
-/
namespace ChatFlow.Json

/-- Meaning of a numeral. -/
inductive Numeric where
  | unsigned (n : UInt64)
  /-- A negative integer. -/
  | negative (n : Int64)
  | real (x : Binary64)

/-- Digits gathered as a 64-bit number, and the power of ten that it is to be scaled by. -/
structure Significand where
  value : Nat
  exponent : Int

def digitValue (c : Char) : Nat := c.toNat - 48

/-- Takes digits before the point; from the first one that does not fit on, they only count. -/
def takeWhole : Nat → List Char → Significand
  | value, [] => ⟨value, 0⟩
  | value, c :: cs =>
    if 10 * value + digitValue c < UInt64.size then takeWhole (10 * value + digitValue c) cs
    else ⟨value, (cs.length + 1 : Nat)⟩

/-- Takes digits after the point, up to the first one that does not fit. -/
def takeFraction : Significand → List Char → Significand
  | s, [] => s
  | s, c :: cs =>
    if 10 * s.value + digitValue c < UInt64.size then
      takeFraction ⟨10 * s.value + digitValue c, s.exponent - 1⟩ cs
    else s

/-- The nearest float to a power of ten. -/
def powerOfTen (n : Nat) : Binary64 := .ofInt (Nat.pow 10 n)

/-- Divides by a power of ten, in steps of the greatest one that is finite. -/
def scaleDown (x : Binary64) (n : Nat) : Binary64 :=
  if n ≤ 308 then x.div (powerOfTen n)
  else if x.magnitude = 0 then x
  else scaleDown (x.div (powerOfTen 308)) (n - 308)
termination_by n

/-- A float from its digits; nothing when it is out of range. -/
def Significand.scaled? (s : Significand) : Option Binary64 :=
  let x := Binary64.ofInt s.value
  if x.magnitude = 0 then some x
  else if s.exponent < 0 then some (scaleDown x (-s.exponent).toNat)
  else if 308 < s.exponent then none
  else
    let y := x.mul (powerOfTen s.exponent.toNat)
    if y.isInfinite then none else some y

def withSign (negative : Bool) (x : Binary64) : Binary64 :=
  if negative then ⟨x.bits ^^^ 0x8000000000000000⟩ else x

/-- The number of a numeral; nothing when it is out of the range of floats. -/
def Number.numeric? (n : Number) : Option Numeric :=
  let whole := takeWhole 0 n.whole
  if n.fraction = [] ∧ n.exponent = none ∧ whole.exponent = 0 then
    if !n.negative then some (.unsigned (.ofNat whole.value))
    else if whole.value ≠ 0 ∧ Int64.minValue.toInt ≤ -(whole.value : Int) then
      some (.negative (.ofInt (-(whole.value : Int))))
    else some (.real (withSign true (.ofInt whole.value)))
  else
    let s := takeFraction whole n.fraction
    let s := { s with exponent := s.exponent + n.exponent.getD 0 }
    s.scaled?.map fun x => .real (withSign n.negative x)

end ChatFlow.Json
