import ChatFlow.Number.Decimal

/-!
JSON values as they are written: numbers keep their digits, objects keep the order of their fields
and fields of the same name.
-/
namespace ChatFlow

/-- A number by its digits, all of them between `0` and `9`. -/
structure Json.Number where
  negative : Bool
  whole : List Char
  /-- Digits after the point; empty when there is no point. -/
  fraction : List Char
  /-- The exponent with its sign, if one is written. -/
  exponent : Option Int
deriving DecidableEq

inductive Json where
  | null
  | bool (flag : Bool)
  | number (n : Json.Number)
  /-- A string; one that spells half of a surrogate pair denotes no text. -/
  | string (text : Option String)
  | array (items : List Json)
  | object (fields : List (Option String × Json))
deriving Inhabited

namespace Json

def text (s : String) : Json := string (some s)

def nat (n : Nat) : Json := number ⟨false, (toString n).toList, [], none⟩

def int (n : Int) : Json := number ⟨n < 0, (toString n.natAbs).toList, [], none⟩

/-- A finite number with its point, so that it reads back as a number with a point. -/
def float (x : Binary64) : Json :=
  if !x.isFinite then null
  else
    let digits := ((⟨x.bits &&& 0x7fffffffffffffff⟩ : Binary64).render).toList
    let fraction := (digits.dropWhile (· ≠ '.')).drop 1
    let fraction := if fraction = [] then ['0'] else fraction
    number ⟨x.isNegative, digits.takeWhile (· ≠ '.'), fraction, none⟩

/-- An object from its named fields. -/
def record (fields : List (String × Json)) : Json :=
  object (fields.map fun f => (some f.1, f.2))

/-- A value, or null for a missing one. -/
def optional {α : Type} (f : α → Json) : Option α → Json
  | none => null
  | some a => f a

/-- Value of the first field with a name; null when there is none. -/
def get (j : Json) (name : String) : Json :=
  match j with
  | object fields => ((fields.find? fun f => f.1 == some name).map Prod.snd).getD null
  | _ => null

def items : Json → List Json
  | array items => items
  | _ => []

def isNull : Json → Bool
  | null => true
  | _ => false

def bool? : Json → Option Bool
  | bool b => some b
  | _ => none

def text? : Json → Option String
  | string s => s
  | _ => none

/-- An integer without point and exponent. -/
def int? : Json → Option Int
  | number ⟨negative, whole, [], none⟩ =>
    let n : Int := whole.foldl (fun n c => 10 * n + (c.toNat - 48)) 0
    some (if negative then -n else n)
  | _ => none

def nat? (j : Json) : Option Nat := j.int?.bind Int.toNat?

/-- The array of the values of a list. -/
def list {α : Type} (f : α → Json) (l : List α) : Json := array (l.map f)

end Json
end ChatFlow
