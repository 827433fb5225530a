import ChatFlow.Number.Binary64

/-!
Decimal text of double-precision numbers. Reading rounds to the nearest number; writing takes the
fewest digits that read back, of those the nearest, and always writes them positionally.
-/
namespace ChatFlow.Binary64

/-- The number nearest to `digits` divided by ten to the power `places`. -/
def ofDecimal (negative : Bool) (digits places : Nat) : Binary64 :=
  ofRatio negative digits (Nat.pow 10 places)

/-- The decimal number `digits · 10 ^ exponent`. -/
structure Decimal where
  digits : Nat
  exponent : Int
deriving DecidableEq

/-- The reals that round to a positive finite number, in units of 2^-1076. -/
structure Basin where
  low : Nat
  value : Nat
  high : Nat
  /-- Whether the two ends belong to it. -/
  closed : Bool

/-- Each end lies half way to the neighbour; below a power of two the neighbour is closer. -/
def basin (x : Binary64) : Basin where
  low := 4 * x.magnitude -
    if x.fractionField = 0 ∧ 1 < x.exponentField then x.spacing else 2 * x.spacing
  value := 4 * x.magnitude
  high := 4 * x.magnitude + 2 * x.spacing
  closed := x.significand % 2 == 0

/-- Whether `point / scale` lies in the basin. -/
def Basin.holds (b : Basin) (scale point : Nat) : Bool :=
  if b.closed then b.low * scale ≤ point && point ≤ b.high * scale
  else b.low * scale < point && point < b.high * scale

/-- The multiple of `10 ^ exponent` in the basin next to its value, if one is there. Of two at the
same distance it is the greater. -/
def Basin.onGrid? (b : Basin) (exponent : Int) : Option Nat :=
  let scale := Nat.pow 10 (-exponent).toNat
  let step := Nat.pow 10 exponent.toNat <<< 1076
  let value := b.value * scale
  let below := value / step
  match b.holds scale (below * step), b.holds scale ((below + 1) * step) with
  | true, true => some (if 2 * (value % step) < step then below else below + 1)
  | true, false => some below
  | false, true => some (below + 1)
  | false, false => none

/-- The coarsest grid with a point in the basin, going down from an exponent. -/
def Basin.coarsest (b : Basin) : (tries : Nat) → (exponent : Int) → Decimal
  | 0, exponent => ⟨(b.onGrid? exponent).getD 0, exponent⟩
  | tries + 1, exponent =>
    match b.onGrid? exponent with
    | some digits => ⟨digits, exponent⟩
    | none => b.coarsest tries (exponent - 1)

/-- The shortest decimal that reads back to a positive finite number. The first grid lies above the
number, since 0.30103 exceeds the decimal logarithm of two, and seventeen digits always suffice. -/
def shortest (x : Binary64) : Decimal :=
  let b := x.basin
  let bits : Int := (b.value.log2 : Int) + 1 - 1076
  b.coarsest 22 (bits * 30103 / 100000 + 1)

/-- Positional text of a decimal number. -/
def Decimal.render (d : Decimal) : String :=
  let digits := (toString d.digits).toList
  if 0 ≤ d.exponent then String.ofList (digits ++ List.replicate d.exponent.toNat '0')
  else
    let places := (-d.exponent).toNat
    let padded := List.replicate (places + 1 - digits.length) '0' ++ digits
    let whole := padded.length - places
    String.ofList (padded.take whole ++ '.' :: padded.drop whole)

/-- Text of a number: no exponent and no superfluous zero after the point. -/
def render (x : Binary64) : String :=
  if x.isNaN then "NaN"
  else
    let text :=
      if x.isInfinite then "inf" else if x.magnitude = 0 then "0" else x.shortest.render
    if x.isNegative then "-" ++ text else text

end ChatFlow.Binary64
