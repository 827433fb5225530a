/-!
Double-precision numbers as bit patterns. Every finite number is a whole multiple of 2^-1074, so
order and equality are those of integers, and rounding takes an exact quotient to its nearest
number.
-/
namespace ChatFlow

/-- A double-precision number, held as its IEEE 754 bit pattern. -/
structure Binary64 where
  bits : UInt64
deriving DecidableEq, Inhabited

namespace Binary64

/-- The sign bit. -/
def isNegative (x : Binary64) : Bool := 1 <<< 63 ≤ x.bits.toNat

/-- The biased exponent: 0 below the normal numbers, 2047 for infinities and NaN. -/
def exponentField (x : Binary64) : Nat := x.bits.toNat >>> 52 % 1 <<< 11

/-- The 52 bits after the leading one. -/
def fractionField (x : Binary64) : Nat := x.bits.toNat % 1 <<< 52

def isNaN (x : Binary64) : Bool := x.exponentField == 2047 && x.fractionField != 0

def isInfinite (x : Binary64) : Bool := x.exponentField == 2047 && x.fractionField == 0

def isFinite (x : Binary64) : Bool := x.exponentField < 2047

/-- The significand as an integer of at most 53 bits. -/
def significand (x : Binary64) : Nat :=
  if x.exponentField = 0 then x.fractionField else 1 <<< 52 + x.fractionField

/-- Distance to the next number of the same exponent, in units of 2^-1074. -/
def spacing (x : Binary64) : Nat := 1 <<< (x.exponentField - 1)

/-- Absolute value in units of 2^-1074; an infinity lies above every finite number. -/
def magnitude (x : Binary64) : Nat := x.significand * x.spacing

/-- Value in units of 2^-1074. -/
def units (x : Binary64) : Int :=
  if x.isNegative then -(x.magnitude : Int) else x.magnitude

/-- Order by value. The two zeros are equal, and NaN has no place in it. -/
def order? (x y : Binary64) : Option Ordering :=
  if x.isNaN || y.isNaN then none else some (compare x.units y.units)

/-- Equality by value. -/
def equals (x y : Binary64) : Bool := x.order? y == some .eq

/-- The number with the given sign and the bits below the sign. -/
def ofPattern (negative : Bool) (pattern : Nat) : Binary64 :=
  ⟨UInt64.ofNat (if negative then 1 <<< 63 + pattern else pattern)⟩

/-- Bits below the sign of an infinity. -/
def infinityPattern : Nat := 2047 <<< 52

def nan : Binary64 := ofPattern false (2047 <<< 52 + 1 <<< 51)

/-- A quotient rounded to the nearest integer; a half goes to the even neighbour. -/
def roundHalfEven (num den : Nat) : Nat :=
  let rest := num % den
  if 2 * rest < den ∨ 2 * rest = den ∧ num / den % 2 = 0 then num / den else num / den + 1

/-- Exponent of the greatest power of two that is at most `num / den`. -/
def floorLog2 (num den : Nat) : Int :=
  let guess : Int := (num.log2 : Int) - den.log2
  if den <<< guess.toNat ≤ num <<< (-guess).toNat then guess else guess - 1

/-- The number nearest to `num / den`, ties to the even significand, beyond the greatest finite
number an infinity. A significand that rounds up to 2^53 carries into the exponent field. -/
def ofRatio (negative : Bool) (num den : Nat) : Binary64 :=
  if num = 0 then ofPattern negative 0
  else
    let scale := max (-1074) (floorLog2 num den - 52)
    let significand := roundHalfEven (num <<< (-scale).toNat) (den <<< scale.toNat)
    ofPattern negative (min infinityPattern ((scale + 1074).toNat <<< 52 + significand))

/-- The number nearest to an integer. -/
def ofInt (n : Int) : Binary64 := ofRatio (n < 0) n.natAbs 1

/-- Rounded product of finite numbers. -/
def mul (x y : Binary64) : Binary64 :=
  ofRatio (x.isNegative != y.isNegative) (x.magnitude * y.magnitude) (1 <<< 2148)

/-- Rounded quotient of finite numbers, the divisor not zero. -/
def div (x y : Binary64) : Binary64 :=
  ofRatio (x.isNegative != y.isNegative) x.magnitude y.magnitude

end Binary64
end ChatFlow
