import ChatFlow.Json.Numeric

/-!
Decoding JSON into typed data. Records may be written as objects, whose unknown fields are skipped
and whose known fields must not repeat, or as arrays of their fields in order. Data that has to be
looked at before its type is known is buffered first, and must then be sound throughout.
-/
namespace ChatFlow.Json

/-- Where data is decoded from. -/
inductive Mode where
  /-- The text itself, of which at most so many levels may still be opened. -/
  | direct (levels : Nat)
  /-- A buffer. -/
  | buffered

/-- The mode for the whole of a text: arrays and objects may be nested 127 levels deep. -/
def Mode.start : Mode := direct 127

/-- The mode inside of an array or object. -/
def Mode.enter? : Mode → Option Mode
  | direct 0 => none
  | direct (n + 1) => some (direct n)
  | buffered => some buffered

/-- Whether a value can be buffered with so many levels to open: every string denotes a text and
every number is in range. -/
def isSound (levels : Nat) : Json → Bool
  | null => true
  | bool _ => true
  | number n => n.numeric?.isSome
  | string s => s.isSome
  | array items =>
    match levels with
    | 0 => false
    | levels + 1 => allSound levels items
  | object fields =>
    match levels with
    | 0 => false
    | levels + 1 => allFieldsSound levels fields
where
  allSound (levels : Nat) : List Json → Bool
    | [] => true
    | v :: vs => isSound levels v && allSound levels vs
  allFieldsSound (levels : Nat) : List (Option String × Json) → Bool
    | [] => true
    | (k, v) :: fs => k.isSome && isSound levels v && allFieldsSound levels fs

/-- The mode after buffering a value, if it is sound. -/
def Mode.buffer? (m : Mode) (j : Json) : Option Mode :=
  match m with
  | direct levels => if isSound levels j then some buffered else none
  | buffered => some buffered

/-- A decoder of one type. -/
abbrev Decoder (α : Type) := Mode → Json → Option α

namespace Decoder
variable {α β : Type}

def bool : Decoder Bool
  | _, .bool b => some b
  | _, _ => none

def text : Decoder String
  | _, .string s => s
  | _, _ => none

/-- An integer from zero up to a bound. -/
def natBelow (bound : Nat) : Decoder Nat
  | _, .number n =>
    match n.numeric? with
    | some (.unsigned n) => if n.toNat < bound then some n.toNat else none
    | _ => none
  | _, _ => none

def uint64 : Decoder UInt64 := fun m j => (natBelow UInt64.size m j).map UInt64.ofNat

def uint32 : Decoder UInt32 := fun m j => (natBelow UInt32.size m j).map UInt32.ofNat

def int64 : Decoder Int64
  | _, .number n =>
    match n.numeric? with
    | some (.unsigned n) => if n.toNat ≤ Int64.maxValue.toInt then some (.ofInt n.toNat) else none
    | some (.negative n) => some n
    | _ => none
  | _, _ => none

/-- A number of any form, as a float. -/
def float : Decoder Binary64
  | _, .number n =>
    match n.numeric? with
    | some (.unsigned n) => some (.ofInt n.toNat)
    | some (.negative n) => some (.ofInt n.toInt)
    | some (.real x) => some x
    | none => none
  | _, _ => none

/-- Null stands for a missing value. -/
def nullable (d : Decoder α) : Decoder (Option α)
  | _, .null => some none
  | m, j => (d m j).map some

def list (d : Decoder α) : Decoder (List α)
  | m, .array items => do
    let m ← m.enter?
    items.mapM (d m)
  | _, _ => none

/-- A field that must be there. -/
def required (d : Decoder α) (m : Mode) (j : Option Json) : Option α := j.bind (d m)

/-- A field that may be missing or null. -/
def optional (d : Decoder α) (m : Mode) (j : Option Json) : Option (Option α) :=
  match j with
  | none => some none
  | some j => nullable d m j

end Decoder

/-- Values of the fields with the given names, in their order. No known field may repeat. -/
def namedFields? (names : List String) (fields : List (Option String × Json)) :
    Option (List (Option Json)) := do
  if !fields.all fun f => f.1.isSome then none
  names.mapM fun name =>
    match fields.filter fun f => f.1 = some name with
    | [] => some none
    | [f] => some (some f.2)
    | _ => none

/-- Values of the fields of a record, and the mode that they are decoded in. In an array, fields
may be missing only at the end and only if they have `defaults`. -/
def recordFields? (names : List String) (defaults : Bool) (m : Mode) (j : Json) :
    Option (Mode × List (Option Json)) := do
  let m ← m.enter?
  match j with
  | object fields => return (m, ← namedFields? names fields)
  | array items =>
    if items.length = names.length ∨ (defaults ∧ items.length < names.length) then
      return (m, (names.zipIdx).map fun n => items[n.2]?)
    else none
  | _ => none

/-- Place of a variant among the names of all variants. A buffer may also give the place itself. -/
def variant? (names : List String) (m : Mode) (j : Json) : Option Nat :=
  match m, j with
  | _, string (some s) => names.findIdx? (· = s)
  | .buffered, number n =>
    match n.numeric? with
    | some (.unsigned n) => if n.toNat < names.length then some n.toNat else none
    | _ => none
  | _, _ => none

/-- A variant without content: its name, or an object that gives the name an empty value. -/
def plainVariant? (names : List String) (m : Mode) (j : Json) : Option Nat :=
  match m, j with
  | _, string (some s) => names.findIdx? (· = s)
  | m, object [(some s, v)] => do
    let _ ← m.enter?
    match m, v with
    | _, null | .buffered, object [] => names.findIdx? (· = s)
    | _, _ => none
  | _, _ => none

/-- Content of a variant of adjacently tagged data: its value, if there is one, and its mode. -/
structure Tagged where
  variant : Nat
  content : Option (Mode × Json)

/-- Data with a tag and a content beside each other. A content written before its tag is buffered;
in an array the two stand in order and neither may be missing. -/
def tagged? (tag content : String) (names : List String) (m : Mode) (j : Json) : Option Tagged := do
  let inner ← m.enter?
  match j with
  | object fields =>
    match ← namedFields? [tag, content] fields with
    | [some t, none] => return ⟨← plainVariant? names inner t, none⟩
    | [some t, some c] =>
      let variant ← plainVariant? names inner t
      let tagFirst := (fields.find? fun f => f.1 = some tag || f.1 = some content).any
        fun f => f.1 = some tag
      let mode ← if tagFirst then some inner else inner.buffer? c
      return ⟨variant, some (mode, c)⟩
    | _ => none
  | array [t, c] => return ⟨← variant? names inner t, some (inner, c)⟩
  | _ => none

end ChatFlow.Json
