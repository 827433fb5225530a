import ChatFlow.Json.Basic
import ChatFlow.Number.Integer

/-!
Reading JSON text. First the text is cut into lexemes, then arrays and objects are put together
from them. The grammar is the strict one: no comments, no trailing commas, no leading zeros.
-/
namespace ChatFlow.Json

/-- Pieces of JSON text. -/
inductive Lexeme where
  | openArray
  | closeArray
  | openObject
  | closeObject
  | comma
  | colon
  | scalar (value : Json)

def isBlank (c : Char) : Bool := c == ' ' || c == '\n' || c == '\t' || c == '\r'

def hexDigit? (c : Char) : Option Nat :=
  if c.isDigit then some (c.toNat - 48)
  else if 'a' ≤ c ∧ c ≤ 'f' then some (c.toNat - 87)
  else if 'A' ≤ c ∧ c ≤ 'F' then some (c.toNat - 55)
  else none

/-- The code that a backslash and a letter stand for. -/
def escapeCode? : Char → Option Nat
  | '"' => some 0x22
  | '\\' => some 0x5c
  | '/' => some 0x2f
  | 'b' => some 0x08
  | 'f' => some 0x0c
  | 'n' => some 0x0a
  | 'r' => some 0x0d
  | 't' => some 0x09
  | _ => none

/-- Codes of the characters up to the closing quote, and the text after it. Escapes may give halves
of surrogate pairs. -/
def readCodes : List Char → Option (List Nat × List Char)
  | [] => none
  | '"' :: rest => some ([], rest)
  | '\\' :: 'u' :: a :: b :: c :: d :: rest => do
    let code := ((((← hexDigit? a) * 16 + (← hexDigit? b)) * 16 + (← hexDigit? c)) * 16)
      + (← hexDigit? d)
    let (codes, rest) ← readCodes rest
    return (code :: codes, rest)
  | '\\' :: e :: rest => do
    let code ← escapeCode? e
    let (codes, rest) ← readCodes rest
    return (code :: codes, rest)
  | c :: rest =>
    if c.toNat < 0x20 ∨ c = '\\' then none
    else do
      let (codes, rest) ← readCodes rest
      return (c.toNat :: codes, rest)

/-- The text of a list of codes, unless half of a surrogate pair stands alone. -/
def ofCodes : List Nat → Option (List Char)
  | [] => some []
  | [a] => if 0xd800 ≤ a ∧ a ≤ 0xdfff then none else some [Char.ofNat a]
  | a :: b :: rest =>
    if 0xd800 ≤ a ∧ a ≤ 0xdbff then
      if 0xdc00 ≤ b ∧ b ≤ 0xdfff then
        (ofCodes rest).map (Char.ofNat (0x10000 + (a - 0xd800) * 0x400 + (b - 0xdc00)) :: ·)
      else none
    else if 0xdc00 ≤ a ∧ a ≤ 0xdfff then none
    else (ofCodes (b :: rest)).map (Char.ofNat a :: ·)

/-- Digits after the point, if there is a point. -/
def readFraction : List Char → Option (List Char × List Char)
  | '.' :: cs =>
    let digits := cs.takeWhile Char.isDigit
    if digits = [] then none else some (digits, cs.dropWhile Char.isDigit)
  | cs => some ([], cs)

/-- The exponent, if there is one. -/
def readExponent (cs : List Char) : Option (Option Int × List Char) :=
  match cs with
  | c :: rest =>
    if c ≠ 'e' ∧ c ≠ 'E' then some (none, cs)
    else
      let (negative, rest) := match rest with
        | '+' :: rest => (false, rest)
        | '-' :: rest => (true, rest)
        | rest => (false, rest)
      let digits := rest.takeWhile Char.isDigit
      if digits = [] then none
      else
        let n : Int := Number.digitsValue digits
        some (some (if negative then -n else n), rest.dropWhile Char.isDigit)
  | [] => some (none, cs)

/-- A number after its sign. -/
def readNumber (negative : Bool) (cs : List Char) : Option (Json × List Char) := do
  let whole := cs.takeWhile Char.isDigit
  if whole = [] ∨ (whole.head? = some '0' ∧ whole ≠ ['0']) then none
  let (fraction, rest) ← readFraction (cs.dropWhile Char.isDigit)
  let (exponent, rest) ← readExponent rest
  return (.number ⟨negative, whole, fraction, exponent⟩, rest)

/-- The lexeme at the front of a text that does not start with a blank. -/
def readLexeme : List Char → Option (Lexeme × List Char)
  | '[' :: cs => some (.openArray, cs)
  | ']' :: cs => some (.closeArray, cs)
  | '\x7b' :: cs => some (.openObject, cs)
  | '\x7d' :: cs => some (.closeObject, cs)
  | ',' :: cs => some (.comma, cs)
  | ':' :: cs => some (.colon, cs)
  | 'n' :: 'u' :: 'l' :: 'l' :: cs => some (.scalar .null, cs)
  | 't' :: 'r' :: 'u' :: 'e' :: cs => some (.scalar (.bool true), cs)
  | 'f' :: 'a' :: 'l' :: 's' :: 'e' :: cs => some (.scalar (.bool false), cs)
  | '"' :: cs => do
    let (codes, rest) ← readCodes cs
    return (.scalar (.string ((ofCodes codes).map String.ofList)), rest)
  | '-' :: cs => do
    let (n, rest) ← readNumber true cs
    return (.scalar n, rest)
  | cs => do
    let (n, rest) ← readNumber false cs
    return (.scalar n, rest)

/-- The lexemes of a text, blanks between them left out. Every lexeme takes a character, so the
length of the text bounds their number. -/
def lexemes (text : List Char) : Option (List Lexeme) := go text.length text
where
  go : Nat → List Char → Option (List Lexeme)
    | _, [] => some []
    | 0, _ => none
    | bound + 1, c :: cs =>
      if isBlank c then go bound cs
      else do
        let (l, rest) ← readLexeme (c :: cs)
        return l :: (← go bound rest)

/-- An array or object that is not closed yet. Items and fields are kept last first. -/
inductive Frame where
  | array (items : List Json)
  | object (fields : List (Option String × Json))
  /-- An object of which a key was read, but not yet its value. -/
  | field (fields : List (Option String × Json)) (key : Option String)

/-- What may come next. -/
inductive Awaited where
  | value
  /-- Right after an opening bracket. -/
  | valueOrClose
  | key
  /-- Right after an opening brace. -/
  | keyOrClose
  | colon
  | commaOrClose
  /-- Nothing: the value is complete. -/
  | finished (value : Json)

structure Reading where
  frames : List Frame
  awaited : Awaited

namespace Reading

/-- Adds a complete value to what is open. -/
def place (frames : List Frame) (v : Json) : Option Reading :=
  match frames with
  | [] => some ⟨[], .finished v⟩
  | .array items :: frames => some ⟨.array (v :: items) :: frames, .commaOrClose⟩
  | .field fields key :: frames => some ⟨.object ((key, v) :: fields) :: frames, .commaOrClose⟩
  | .object _ :: _ => none

def close (frames : List Frame) (l : Lexeme) : Option Reading :=
  match frames, l with
  | .array items :: frames, .closeArray => place frames (.array items.reverse)
  | .object fields :: frames, .closeObject => place frames (.object fields.reverse)
  | _, _ => none

def value (frames : List Frame) (l : Lexeme) : Option Reading :=
  match l with
  | .openArray => some ⟨.array [] :: frames, .valueOrClose⟩
  | .openObject => some ⟨.object [] :: frames, .keyOrClose⟩
  | .scalar v => place frames v
  | _ => none

def key (frames : List Frame) (l : Lexeme) : Option Reading :=
  match frames, l with
  | .object fields :: frames, .scalar (.string k) => some ⟨.field fields k :: frames, .colon⟩
  | _, _ => none

def comma (frames : List Frame) : Option Reading :=
  match frames with
  | .array _ :: _ => some ⟨frames, .value⟩
  | .object _ :: _ => some ⟨frames, .key⟩
  | _ => none

def step (r : Reading) (l : Lexeme) : Option Reading :=
  match r.awaited, l with
  | .finished _, _ => none
  | .colon, .colon => some ⟨r.frames, .value⟩
  | .colon, _ => none
  | .commaOrClose, .comma => comma r.frames
  | .commaOrClose, l | .valueOrClose, l@.closeArray | .keyOrClose, l@.closeObject =>
    close r.frames l
  | .value, l | .valueOrClose, l => value r.frames l
  | .key, l | .keyOrClose, l => key r.frames l

end Reading

/-- Reads one JSON value that takes up the whole text. -/
def read? (text : String) : Option Json := do
  let r ← (← lexemes text.toList).foldlM Reading.step ⟨[], .value⟩
  match r.awaited with
  | .finished v => some v
  | _ => none

end ChatFlow.Json
