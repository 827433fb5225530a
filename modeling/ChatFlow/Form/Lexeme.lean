import ChatFlow.Form.Basic
import ChatFlow.Number.Integer
import ChatFlow.Text.Blank
import ChatFlow.Text.Utf8

/-!
The flat pieces of a document: atoms and parentheses. Comments run from a semicolon to the end of
the line. A piece that cannot be read is the last one of its list.
-/
namespace ChatFlow.Form
open Number

/-- Why a text is not a sequence of forms; positions are byte offsets. -/
inductive ReadError where
  | unbalancedClose (position : Nat)
  | unclosedList (opened : Nat)
  | unclosedString (opened : Nat)
  | incompleteEscape (position : Nat)
  /-- The escape is shown by its first byte. -/
  | unknownEscape (byte : Nat) (position : Nat)
  | emptyKeyword (position : Nat)
  | invalidInteger (position : Nat)
deriving DecidableEq

def ReadError.message : ReadError → String
  | unbalancedClose position => s!"unbalanced ')' at byte {position}"
  | unclosedList opened => s!"list opened at byte {opened} is never closed"
  | unclosedString opened => s!"string starting at byte {opened} is never closed"
  | incompleteEscape position => s!"incomplete escape at byte {position}"
  | unknownEscape byte position =>
    "unknown escape \\" ++ (Char.ofNat byte).toString ++ s!" at byte {position}"
  | emptyKeyword position => s!"empty keyword at byte {position}"
  | invalidInteger position => s!"invalid integer literal at byte {position}"

inductive LexemeKind where
  | atom (form : Form)
  | opening
  | closing
  | fault (error : ReadError)

structure Lexeme where
  kind : LexemeKind
  position : Nat

/-- One lexeme read off the front of a text, with the offset and the text that follow it. -/
structure Scanned where
  kind : LexemeKind
  next : Nat
  rest : List Char

namespace Lexeme

/-- Characters of symbols: all but blanks and the four that have a meaning of their own. -/
def isSymbolChar (c : Char) : Bool :=
  !(c == '(' || c == ')' || c == '"' || c == ';' || Text.isBlank c)

def unescape? : Char → Option Char
  | '"' => some '"'
  | '\\' => some '\\'
  | 'n' => some '\n'
  | 't' => some '\t'
  | _ => none

/-- Content of a string up to its closing quote. -/
def readString (opened : Nat) : Nat → List Char → Except ReadError (List Char × Nat × List Char)
  | _, [] => .error (.unclosedString opened)
  | pos, '"' :: cs => .ok ([], pos + 1, cs)
  | pos, ['\\'] => .error (.incompleteEscape (pos + 1))
  | pos, '\\' :: e :: cs =>
    match unescape? e with
    | none => .error (.unknownEscape (Text.leadByte e) (pos + 1))
    | some v => do
      let (text, next, rest) ← readString opened (pos + 2) cs
      return (v :: text, next, rest)
  | pos, c :: cs => do
    let (text, next, rest) ← readString opened (pos + c.utf8Size) cs
    return (c :: text, next, rest)

/-- Reading of a symbol as a number: an optional sign, digits, and perhaps a point with digits
after it. The result is an error for an integer out of range. -/
def number? (finish : Nat) (cs : List Char) : Option (Except ReadError Form) :=
  let negative := cs.head? == some '-'
  let unsigned := if negative || cs.head? == some '+' then cs.drop 1 else cs
  let whole := unsigned.takeWhile Char.isDigit
  if whole = [] then none
  else
    match unsigned.dropWhile Char.isDigit with
    | [] =>
      match int64? negative (digitsValue whole) with
      | some n => some (.ok (.int n))
      | none => some (.error (.invalidInteger finish))
    | '.' :: fraction =>
      if fraction ≠ [] ∧ fraction.all Char.isDigit then
        some (.ok (.float (.ofDecimal negative (digitsValue (whole ++ fraction)) fraction.length)))
      else none
    | _ => none

/-- What a run of symbol characters means. -/
def word (finish : Nat) (cs : List Char) : Except ReadError Form :=
  match number? finish cs with
  | some r => r
  | none =>
    match String.ofList cs with
    | "true" => .ok (.bool true)
    | "false" => .ok (.bool false)
    | name => .ok (.symbol name)

def ofResult (r : Except ReadError Form) (next : Nat) (rest : List Char) : Scanned :=
  match r with
  | .ok f => ⟨.atom f, next, rest⟩
  | .error e => ⟨.fault e, next, []⟩

def scanString (start : Nat) (cs : List Char) : Scanned :=
  match readString start (start + 1) cs with
  | .ok (text, next, rest) => ⟨.atom (.string (String.ofList text)), next, rest⟩
  | .error e => ⟨.fault e, start, []⟩

/-- The lexeme that starts with `c`, which starts no comment and is no blank. -/
def scanOne (start : Nat) (c : Char) (cs : List Char) : Scanned :=
  match c with
  | '(' => ⟨.opening, start + 1, cs⟩
  | ')' => ⟨.closing, start + 1, cs⟩
  | '"' => scanString start cs
  | ':' =>
    let name := cs.takeWhile isSymbolChar
    if name = [] then ⟨.fault (.emptyKeyword (start + 1)), start, []⟩
    else
      ⟨.atom (.keyword (String.ofList name)), start + 1 + Text.byteLength name,
        cs.dropWhile isSymbolChar⟩
  | c =>
    let chars := c :: cs.takeWhile isSymbolChar
    let finish := start + Text.byteLength chars
    ofResult (word finish chars) finish (cs.dropWhile isSymbolChar)

theorem readString_length {opened pos : Nat} {cs : List Char} {r : List Char × Nat × List Char}
    (h : readString opened pos cs = .ok r) : r.2.2.length ≤ cs.length := by
  fun_induction readString opened pos cs generalizing r with
  | case1 | case3 | case4 => cases h
  | case2 => cases h; simp
  | case5 pos e cs v _ ih =>
    cases hr : readString opened (pos + 2) cs with
    | error e => rw [hr] at h; cases h
    | ok q =>
      have shorter := ih hr
      rw [hr] at h
      cases h
      exact Nat.le_succ_of_le (Nat.le_succ_of_le shorter)
  | case6 pos c cs _ _ _ ih =>
    cases hr : readString opened (pos + c.utf8Size) cs with
    | error e => rw [hr] at h; cases h
    | ok q =>
      have shorter := ih hr
      rw [hr] at h
      cases h
      exact Nat.le_succ_of_le shorter

theorem scanString_length (start : Nat) (cs : List Char) :
    (scanString start cs).rest.length ≤ cs.length := by
  unfold scanString
  split
  · next h => exact readString_length h
  · simp

theorem ofResult_length (r : Except ReadError Form) (next : Nat) (rest : List Char) :
    (ofResult r next rest).rest.length ≤ rest.length := by
  cases r <;> simp [ofResult]

theorem scanOne_length (start : Nat) (c : Char) (cs : List Char) :
    (scanOne start c cs).rest.length ≤ cs.length := by
  have h : (cs.dropWhile isSymbolChar).length ≤ cs.length := (List.dropWhile_sublist _).length_le
  unfold scanOne
  split
  · simp
  · simp
  · exact scanString_length start cs
  · simp only
    split <;> simp [h]
  · exact Nat.le_trans (ofResult_length ..) h

/-- The lexemes of a text that starts at a byte offset, blanks and comments left out. -/
def scan (pos : Nat) (cs : List Char) : List Lexeme :=
  match cs with
  | [] => []
  | c :: cs =>
    if Text.isBlank c then scan (pos + 1) cs
    else if c = ';' then
      scan (pos + 1 + Text.byteLength (cs.takeWhile (· ≠ '\n'))) (cs.dropWhile (· ≠ '\n'))
    else
      let s := scanOne pos c cs
      ⟨s.kind, pos⟩ :: scan s.next s.rest
termination_by cs.length
decreasing_by
  · simp
  · have : (cs.dropWhile (· ≠ '\n')).length ≤ cs.length := (List.dropWhile_sublist _).length_le
    simp only [List.length_cons]
    omega
  · have := scanOne_length pos c cs
    simp
    omega

end Lexeme
end ChatFlow.Form
