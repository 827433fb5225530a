import ChatFlow.Expr.Fault
import ChatFlow.Number.Integer
import ChatFlow.Text.Blank
import ChatFlow.Text.Utf8

/-!
Lexemes: the flat pieces of an expression's text, before the arguments of a member are gathered.
A lexeme depends only on the characters from its start on. Text that starts no lexeme becomes a
fault, which is the last one of its list, so that whoever reads the list may refuse an earlier
lexeme first.
-/
namespace ChatFlow.Expr
open Number

inductive LexemeKind where
  | literal (value : Value)
  /-- Mark and name of a member; `argsAt` is the offset of a parenthesis right after the name. -/
  | call (form : CallForm) (owner : Option String) (name : String) (argsAt : Option Nat)
  | operator (op : Operator)
  | opening
  | closing
  | comma
  | keyword (word : Keyword)
  | fault (error : LexError)

structure Lexeme where
  kind : LexemeKind
  /-- First character of the lexeme. -/
  first : Char
  position : Nat

/-- One lexeme read off the front of a text, with the offset and the text that follow it. -/
structure Scanned where
  kind : LexemeKind
  next : Nat
  rest : List Char

namespace Lexeme

def isLetter (c : Char) : Bool := c.isAlpha

/-- Characters of a member's name. -/
def isNameChar (c : Char) : Bool := c.isAlphanum || c == '_'

/-- Characters of a word, which may be an owner with dots in its name. -/
def isWordChar (c : Char) : Bool := isNameChar c || c == '.'

def isWordStart (c : Char) : Bool := isLetter c || c == '_'

/-- The character that a backslash and this one stand for. -/
def unescape? : Char → Option Char
  | '"' => some '"'
  | '\'' => some '\''
  | '\\' => some '\\'
  | 'n' => some '\n'
  | 'r' => some '\r'
  | 't' => some '\t'
  | _ => none

def refuse (reason : LexReason) (position : Nat) : Scanned :=
  ⟨.fault ⟨reason, position⟩, position, []⟩

/-- Content of a string literal up to its quote, from the character after the opening one. -/
def readString (quote : Char) (start : Nat) :
    Nat → List Char → Except LexError (List Char × Nat × List Char)
  | _, [] => .error ⟨.unterminatedString, start⟩
  | pos, c :: cs =>
    if c = quote then .ok ([], pos + c.utf8Size, cs)
    else if c = '\\' then
      match cs with
      | [] => .error ⟨.unterminatedString, start⟩
      | e :: cs =>
        match unescape? e with
        | none => .error ⟨.invalidEscape e, pos + 1 + e.utf8Size⟩
        | some v => do
          let (text, next, rest) ← readString quote start (pos + 1 + e.utf8Size) cs
          return (v :: text, next, rest)
    else do
      let (text, next, rest) ← readString quote start (pos + c.utf8Size) cs
      return (c :: text, next, rest)

def scanString (quote : Char) (start : Nat) (cs : List Char) : Scanned :=
  match readString quote start (start + 1) cs with
  | .ok (text, next, rest) => ⟨.literal (.str (String.ofList text)), next, rest⟩
  | .error e => ⟨.fault e, start, []⟩

/-- Value of a text of decimal digits. -/
def digits? (cs : List Char) : Option Nat :=
  if cs ≠ [] ∧ cs.all Char.isDigit then some (digitsValue cs) else none

/-- Value of a number's text without its sign: digits, or digits on both sides of one point. -/
def number? (negative : Bool) (cs : List Char) : Option Value :=
  if cs.contains '.' then do
    let whole := cs.takeWhile (· ≠ '.')
    let fraction := (cs.dropWhile (· ≠ '.')).drop 1
    let _ ← digits? whole
    let _ ← digits? fraction
    let digits ← digits? (whole ++ fraction)
    return .float (.ofDecimal negative digits fraction.length)
  else do
    return .int (← int64? negative (← digits? cs))

/-- A number runs over letters too, so that `12ab` is one malformed number. -/
def scanNumber (start : Nat) (c : Char) (cs : List Char) : Scanned :=
  let text := c :: cs.takeWhile isWordChar
  let value := if c = '-' then number? true (text.drop 1) else number? false text
  match value with
  | some v => ⟨.literal v, start + Text.byteLength text, cs.dropWhile isWordChar⟩
  | none => refuse (.malformedNumber (String.ofList text)) start

/-- The name after a member's mark, and a parenthesis if one follows at once. -/
def scanMember (form : CallForm) (owner : Option String) (start pos : Nat) (cs : List Char) :
    Scanned :=
  let name := cs.takeWhile isNameChar
  let after := pos + Text.byteLength name
  if name = [] then refuse .missingReferenceName start
  else
    match cs.dropWhile isNameChar with
    | '(' :: rest => ⟨.call form owner (String.ofList name) (some after), after + 1, rest⟩
    | rest => ⟨.call form owner (String.ofList name) none, after, rest⟩

/-- Meaning of a word on its own. Literals are case sensitive, operators and keywords are not. -/
def word? (word : String) : Option LexemeKind :=
  match word with
  | "true" => some (.literal (.bool true))
  | "false" => some (.literal (.bool false))
  | "null" => some (.literal .null)
  | _ =>
    match String.ofList (word.toList.map Char.toUpper) with
    | "AND" => some (.operator .and)
    | "OR" => some (.operator .or)
    | "IF" => some (.keyword .ifWord)
    | "DO" => some (.keyword .doWord)
    | "ELSE" => some (.keyword .elseWord)
    | _ => none

def scanWord (start : Nat) (c : Char) (cs : List Char) : Scanned :=
  let chars := c :: cs.takeWhile isWordChar
  let word := String.ofList chars
  let after := start + Text.byteLength chars
  match cs.dropWhile isWordChar with
  | '#' :: rest => scanMember .reference (some word) start (after + 1) rest
  | ':' :: ':' :: rest => scanMember .generator (some word) start (after + 2) rest
  | rest =>
    match word? word with
    | some kind => ⟨kind, after, rest⟩
    | none => refuse (.unexpectedIdentifier word) start

/-- The lexeme that starts with the character `c`, which is no blank. -/
def scanOne (start : Nat) (c : Char) (cs : List Char) : Scanned :=
  match c, cs with
  | '#', cs => scanMember .reference none start (start + 1) cs
  | ':', ':' :: cs => scanMember .generator none start (start + 2) cs
  | '"', cs => scanString '"' start cs
  | '\'', cs => scanString '\'' start cs
  | '(', cs => ⟨.opening, start + 1, cs⟩
  | ')', cs => ⟨.closing, start + 1, cs⟩
  | ',', cs => ⟨.comma, start + 1, cs⟩
  | ';', cs => ⟨.operator .sequence, start + 1, cs⟩
  | '-', '>' :: cs => ⟨.operator .chain, start + 2, cs⟩
  | '=', '=' :: cs => ⟨.operator .equals, start + 2, cs⟩
  | '!', '=' :: cs => ⟨.operator .notEquals, start + 2, cs⟩
  | '>', '=' :: cs => ⟨.operator .greaterOrEqual, start + 2, cs⟩
  | '<', '=' :: cs => ⟨.operator .lessOrEqual, start + 2, cs⟩
  | '>', cs => ⟨.operator .greater, start + 1, cs⟩
  | '<', cs => ⟨.operator .less, start + 1, cs⟩
  | c, cs =>
    if c.isDigit || (c == '-' && cs.head?.any Char.isDigit) then scanNumber start c cs
    else if isWordStart c then scanWord start c cs
    else refuse (.unknownSymbol c) start

theorem readString_length {quote : Char} {start pos : Nat} {cs : List Char}
    {r : List Char × Nat × List Char} (h : readString quote start pos cs = .ok r) :
    r.2.2.length ≤ cs.length := by
  fun_induction readString quote start pos cs generalizing r with
  | case1 | case3 | case4 => cases h
  | case2 => cases h; simp
  | case5 pos e cs v _ _ ih =>
    cases hr : readString quote start (pos + 1 + e.utf8Size) cs with
    | error e => rw [hr] at h; cases h
    | ok q =>
      have shorter := ih hr
      rw [hr] at h
      cases h
      exact Nat.le_succ_of_le (Nat.le_succ_of_le shorter)
  | case6 pos c cs _ _ ih =>
    cases hr : readString quote start (pos + c.utf8Size) cs with
    | error e => rw [hr] at h; cases h
    | ok q =>
      have shorter := ih hr
      rw [hr] at h
      cases h
      exact Nat.le_succ_of_le shorter

theorem scanString_length (quote : Char) (start : Nat) (cs : List Char) :
    (scanString quote start cs).rest.length ≤ cs.length := by
  unfold scanString
  split
  · next h => exact readString_length h
  · simp

theorem scanNumber_length (start : Nat) (c : Char) (cs : List Char) :
    (scanNumber start c cs).rest.length ≤ cs.length := by
  have : (cs.dropWhile isWordChar).length ≤ cs.length := (List.dropWhile_sublist _).length_le
  unfold scanNumber
  simp only
  split <;> simp_all [refuse]

theorem scanMember_length (form : CallForm) (owner : Option String) (start pos : Nat)
    (cs : List Char) : (scanMember form owner start pos cs).rest.length ≤ cs.length := by
  have h : (cs.dropWhile isNameChar).length ≤ cs.length := (List.dropWhile_sublist _).length_le
  unfold scanMember
  simp only
  split
  · simp [refuse]
  · split
    · next hd => simp [hd] at h; simp; omega
    · exact h

theorem scanWord_length (start : Nat) (c : Char) (cs : List Char) :
    (scanWord start c cs).rest.length ≤ cs.length := by
  have h : (cs.dropWhile isWordChar).length ≤ cs.length := (List.dropWhile_sublist _).length_le
  unfold scanWord
  simp only
  split
  · next hd => exact Nat.le_trans (scanMember_length ..) (by simp [hd] at h; omega)
  · next hd => exact Nat.le_trans (scanMember_length ..) (by simp [hd] at h; omega)
  · split <;> simp_all [refuse]

theorem scanOne_length (start : Nat) (c : Char) (cs : List Char) :
    (scanOne start c cs).rest.length ≤ cs.length := by
  have h := scanMember_length
  unfold scanOne
  split <;> grind [scanString_length, scanNumber_length, scanWord_length, refuse]

/-- The lexemes of a text that starts at a byte offset, blanks between them left out. -/
def scan (pos : Nat) (cs : List Char) : List Lexeme :=
  match cs with
  | [] => []
  | c :: cs =>
    if Text.isBlank c then scan (pos + 1) cs
    else
      let s := scanOne pos c cs
      ⟨s.kind, c, pos⟩ :: scan s.next s.rest
termination_by cs.length
decreasing_by
  · simp
  · have := scanOne_length pos c cs
    simp
    omega

end Lexeme
end ChatFlow.Expr
