import Mathlib.Data.List.TakeWhile
import ChatFlow.Proofs.Expr.Concatenation
import ChatFlow.Proofs.Text.Bytes

/-!
Lexemes read off a text by its bytes. Such a reader looks at single bytes, steps over marks of one or two
bytes and cuts its names, numbers and words out of the text at the offsets that it has come to; it has no
result when an offset stands inside of a character or beyond the end. Main statement: `scanAt_eq`, it always
has the result of reading the characters one after another.
-/
namespace ChatFlow.Expr
open Text
variable {text : String} {start pos : Nat} {c : Char} {cs rest : List Char} {s : Scanned}
  {r : Option (LexemeKind × Nat)} {kind : LexemeKind}

/-- Whether the offsets that a lexeme carries stand between characters. -/
def LexemeKind.Anchored (text : String) : LexemeKind → Prop
  | .fault e => IsBoundary text e.position
  | .call _ _ _ argsAt => ∀ i ∈ argsAt, IsBoundary text i
  | _ => True

namespace Lexeme

section Readers

def refuseAt (reason : LexReason) (position : Nat) : LexemeKind × Nat :=
  (.fault ⟨reason, position⟩, position)

def memberAt (text : String) (form : CallForm) (owner : Option String) (start pos : Nat) :
    Option (LexemeKind × Nat) := do
  let after := skipWhile isNameChar text pos
  let name ← slice? text pos after
  if name = [] then return refuseAt .missingReferenceName start
  else if sees '(' text after then
    return (.call form owner (String.ofList name) (some after), after + 1)
  else return (.call form owner (String.ofList name) none, after)

/-- Content of a string literal and the offset after its quote. Here the text is cut at each character. -/
def stringFrom (text : String) (quote : Char) (start pos : Nat) :
    Option (Except LexError (List Char × Nat)) :=
  match _h : sliceFrom? text pos with
  | none => none
  | some [] => some (.error ⟨.unterminatedString, start⟩)
  | some (c :: _) =>
    if c = quote then some (.ok ([], pos + c.utf8Size))
    else if c = '\\' then
      match sliceFrom? text (pos + c.utf8Size) with
      | none => none
      | some [] => some (.error ⟨.unterminatedString, start⟩)
      | some (e :: _) =>
        match unescape? e with
        | none => some (.error ⟨.invalidEscape e, pos + c.utf8Size + e.utf8Size⟩)
        | some v =>
          (stringFrom text quote start (pos + c.utf8Size + e.utf8Size)).map
            (·.map fun r => (v :: r.1, r.2))
    else (stringFrom text quote start (pos + c.utf8Size)).map (·.map fun r => (c :: r.1, r.2))
termination_by text.utf8ByteSize - pos
decreasing_by
  all_goals
    have := lt_of_sliceFrom? _h
    have := c.utf8Size_pos
    omega

def stringAt (text : String) (quote : Char) (start : Nat) : Option (LexemeKind × Nat) := do
  match ← stringFrom text quote start (start + 1) with
  | .ok (content, next) => return (.literal (.str (String.ofList content)), next)
  | .error e => return (.fault e, start)

def numberAt (text : String) (start : Nat) : Option (LexemeKind × Nat) := do
  let negative := sees '-' text start
  let finish := skipWhile isWordChar text (if negative then start + 1 else start)
  let number ← slice? text start finish
  match number? negative (if negative then number.drop 1 else number) with
  | some v => return (.literal v, finish)
  | none => return refuseAt (.malformedNumber (String.ofList number)) start

def wordAt (text : String) (start : Nat) : Option (LexemeKind × Nat) := do
  let after := skipWhile isWordChar text start
  let word := String.ofList (← slice? text start after)
  if ← startsWith? "#" text after then memberAt text .reference (some word) start (after + 1)
  else if ← startsWith? "::" text after then memberAt text .generator (some word) start (after + 2)
  else
    match word? word with
    | some kind => return (kind, after)
    | none => return refuseAt (.unexpectedIdentifier word) start

/-- Operators that are written in symbols, those of two symbols first. -/
def symbolic : List Operator :=
  [.chain, .equals, .notEquals, .greaterOrEqual, .lessOrEqual, .greater, .less, .sequence]

def operatorAt (text : String) (start : Nat) : Option (LexemeKind × Nat) := do
  match ← symbolic.findM? fun op => startsWith? op.symbol text start with
  | some op => return (.operator op, start + op.symbol.utf8ByteSize)
  | none => return refuseAt (.unknownSymbol ((← sliceFrom? text start).headD '\x00')) start

/-- The lexeme at an offset where no blank stands. -/
def lexemeAt (text : String) (start : Nat) : Option (LexemeKind × Nat) :=
  if sees '#' text start then memberAt text .reference none start (start + 1)
  else if sees ':' text start && sees ':' text (start + 1) then
    memberAt text .generator none start (start + 2)
  else if sees '"' text start then stringAt text '"' start
  else if sees '\'' text start then stringAt text '\'' start
  else if meets Char.isDigit text start ||
      (sees '-' text start && meets Char.isDigit text (start + 1)) then
    numberAt text start
  else if sees '(' text start then some (.opening, start + 1)
  else if sees ')' text start then some (.closing, start + 1)
  else if sees ',' text start then some (.comma, start + 1)
  else if meets isWordStart text start then wordAt text start
  else operatorAt text start

/-- The lexemes from an offset on. A reader that would stand still has no result either. -/
def scanAt (text : String) (pos : Nat) : Option (List Lexeme) :=
  let start := skipWhile isBlank text pos
  match _h : sliceFrom? text start with
  | none => none
  | some [] => some []
  | some (first :: _) =>
    match lexemeAt text start with
    | none => none
    | some (.fault e, _) => some [⟨.fault e, first, start⟩]
    | some (kind, next) =>
      if start < next then (scanAt text next).map (⟨kind, first, start⟩ :: ·) else none
termination_by text.utf8ByteSize - pos
decreasing_by
  have := lt_of_sliceFrom? _h
  have := le_skipWhile isBlank text pos
  omega

end Readers

section Classes

theorem isAsciiClass_isNameChar : IsAsciiClass isNameChar :=
  (isAsciiClass_isAlpha.or isAsciiClass_isDigit).or (isAsciiClass_eq (by decide))

theorem isAsciiClass_isWordChar : IsAsciiClass isWordChar :=
  isAsciiClass_isNameChar.or (isAsciiClass_eq (by decide))

theorem isAsciiClass_isWordStart : IsAsciiClass isWordStart :=
  isAsciiClass_isAlpha.or (isAsciiClass_eq (by decide))

end Classes

/-- Whether what a reader has by bytes is a lexeme read off the characters. Where it is no fault, the text
that is left starts at the offset after it. -/
structure Agrees (text : String) (r : Option (LexemeKind × Nat)) (s : Scanned) : Prop where
  read : r = some (s.kind, s.next)
  anchored : s.kind.Anchored text
  goesOn : match s.kind with
    | .fault _ => s.rest = []
    | _ => RestAt text s.next s.rest

theorem agrees_refuse (h : RestAt text start rest) (reason : LexReason) :
    Agrees text (some (refuseAt reason start)) (refuse reason start) :=
  ⟨rfl, h.isBoundary, rfl⟩

theorem agrees_member (form : CallForm) (owner : Option String) (hstart : IsBoundary text start)
    (h : RestAt text pos cs) :
    Agrees text (memberAt text form owner start pos) (scanMember form owner start pos cs) := by
  have hafter := h.at_skipWhile isAsciiClass_isNameChar
  simp only [memberAt, h.slice_skipWhile isAsciiClass_isNameChar, Option.bind_eq_bind,
    Option.bind_some, scanMember]
  rw [h.skipWhile isAsciiClass_isNameChar] at hafter ⊢
  by_cases hne : cs.takeWhile isNameChar = []
  · rw [if_pos hne, if_pos hne]
    exact ⟨rfl, hstart, rfl⟩
  · rw [if_neg hne, if_neg hne]
    have hsees := hafter.sees_iff (d := '(') (by decide)
    split
    · next hopen =>
      obtain ⟨ds, hds⟩ := hsees.1 hopen
      rw [hds] at hafter ⊢
      exact ⟨rfl, fun i hi => Option.mem_some.1 hi ▸ hafter.isBoundary, hafter.next⟩
    · next hopen =>
      split
      · next ds hds => exact absurd (hsees.2 ⟨ds, hds⟩) hopen
      · exact ⟨rfl, fun _ hi => (by cases hi), hafter⟩

theorem stringFrom_of_sliceFrom? (quote : Char) (start : Nat) (h : sliceFrom? text pos = some cs) :
    stringFrom text quote start pos =
      match cs with
      | [] => some (.error ⟨.unterminatedString, start⟩)
      | c :: _ =>
        if c = quote then some (.ok ([], pos + c.utf8Size))
        else if c = '\\' then
          match sliceFrom? text (pos + c.utf8Size) with
          | none => none
          | some [] => some (.error ⟨.unterminatedString, start⟩)
          | some (e :: _) =>
            match unescape? e with
            | none => some (.error ⟨.invalidEscape e, pos + c.utf8Size + e.utf8Size⟩)
            | some v =>
              (stringFrom text quote start (pos + c.utf8Size + e.utf8Size)).map
                (·.map fun r => (v :: r.1, r.2))
        else (stringFrom text quote start (pos + c.utf8Size)).map (·.map fun r => (c :: r.1, r.2)) := by
  rw [stringFrom]
  split <;> next h' => cases h.symm.trans h' <;> rfl

theorem stringFrom_eq (quote : Char) (h : RestAt text pos cs) :
    stringFrom text quote start pos =
      some ((readString quote start pos cs).map fun r => (r.1, r.2.1)) := by
  have hat {pos : Nat} {cs : List Char} (h : RestAt text pos cs) :=
    stringFrom_of_sliceFrom? quote start h.sliceFrom
  fun_induction readString quote start pos cs with
  | case1 pos => exact hat h
  | case2 pos cs => exact (hat h).trans (if_pos rfl)
  | case3 pos hquote =>
    rw [hat h]
    simp only [if_neg hquote, if_true, h.next.sliceFrom]
    rfl
  | case4 pos e cs hunescape hquote =>
    rw [hat h]
    simp only [if_neg hquote, if_true, h.next.sliceFrom, hunescape]
    rfl
  | case5 pos e cs v hunescape hquote ih =>
    rw [hat h]
    simp only [if_neg hquote, if_true, h.next.sliceFrom, hunescape]
    change (stringFrom text quote start (pos + 1 + e.utf8Size)).map _ = _
    rw [ih h.next.next]
    cases readString quote start (pos + 1 + e.utf8Size) cs <;> rfl
  | case6 pos c cs hquote hplain ih =>
    rw [hat h]
    simp only [if_neg hquote, if_neg hplain]
    rw [ih h.next]
    cases readString quote start (pos + c.utf8Size) cs <;> rfl

/-- After a string literal the text goes on; where a literal is at fault, it is at a character. -/
theorem readString_at (quote : Char) (hstart : IsBoundary text start) (h : RestAt text pos cs) :
    match readString quote start pos cs with
    | .ok r => RestAt text r.2.1 r.2.2
    | .error e => IsBoundary text e.position := by
  fun_induction readString quote start pos cs with
  | case1 | case3 => exact hstart
  | case2 pos cs => exact h.next
  | case4 pos e cs =>
    have hnext : RestAt text (pos + 1) (e :: cs) := h.next
    exact hnext.next.isBoundary
  | case5 pos e cs v _ _ ih =>
    have hnext : RestAt text (pos + 1) (e :: cs) := h.next
    have hrest := ih hnext.next
    cases hr : readString quote start (pos + 1 + e.utf8Size) cs with
    | error e => rw [hr] at hrest; exact hrest
    | ok r => rw [hr] at hrest; exact hrest
  | case6 pos c cs _ _ ih =>
    have hrest := ih h.next
    cases hr : readString quote start (pos + c.utf8Size) cs with
    | error e => rw [hr] at hrest; exact hrest
    | ok r => rw [hr] at hrest; exact hrest

theorem agrees_string (quote : Char) (hstart : IsBoundary text start) (h : RestAt text (start + 1) cs) :
    Agrees text (stringAt text quote start) (scanString quote start cs) := by
  have hrest := readString_at quote hstart h
  rw [stringAt, stringFrom_eq quote h, scanString]
  cases hr : readString quote start (start + 1) cs with
  | error e =>
    rw [hr] at hrest
    exact ⟨rfl, hrest, rfl⟩
  | ok r =>
    rw [hr] at hrest
    exact ⟨rfl, trivial, hrest⟩

theorem skipWhile_word (h : RestAt text start (c :: cs)) (hc : isWordChar c = true) :
    skipWhile isWordChar text start = start + byteLength (c :: cs.takeWhile isWordChar) := by
  rw [h.skipWhile isAsciiClass_isWordChar, List.takeWhile_cons, if_pos hc]

theorem agrees_number (h : RestAt text start (c :: cs))
    (hnumber : (c.isDigit || (c == '-' && cs.head?.any Char.isDigit)) = true) :
    Agrees text (numberAt text start) (scanNumber start c cs) := by
  obtain ⟨hslice, hrest⟩ := h.slice_run isWordChar
  have hfinish : skipWhile isWordChar text (if c = '-' then start + 1 else start) =
      start + byteLength (c :: cs.takeWhile isWordChar) := by
    split
    · next hc =>
      subst hc
      have hnext : RestAt text (start + 1) cs := h.next
      rw [hnext.skipWhile isAsciiClass_isWordChar, byteLength, ← Nat.add_assoc]
      rfl
    · next hc =>
      have hdigit : c.isDigit = true := by simpa [hc] using hnumber
      exact skipWhile_word h (isWordChar_of_isDigit hdigit)
  have hminus : sees '-' text start = (c == '-') := h.sees (by decide)
  have hvalue (cs : List Char) : number? (c == '-') (if c = '-' then cs.drop 1 else cs) =
      if c = '-' then number? true (cs.drop 1) else number? false cs := by
    split
    · next hc => rw [beq_iff_eq.2 hc]
    · next hc => rw [beq_eq_false_iff_ne.2 hc]
  simp only [numberAt, hminus, beq_iff_eq, hfinish, hslice, Option.bind_eq_bind, Option.bind_some,
    hvalue, scanNumber]
  generalize (if c = '-' then _ else _ : Option Value) = value
  cases value with
  | some v => exact ⟨rfl, trivial, hrest⟩
  | none => exact agrees_refuse h _

/-- A word on its own is a literal, an operator or a keyword. -/
theorem agrees_of_word? {word : String} {next : Nat} (h : word? word = some kind)
    (hrest : RestAt text next rest) : Agrees text (some (kind, next)) ⟨kind, next, rest⟩ := by
  unfold word? at h
  split at h
  case h_4 =>
    split at h
    case h_6 => cases h
    all_goals cases h; exact ⟨rfl, trivial, hrest⟩
  all_goals cases h; exact ⟨rfl, trivial, hrest⟩

/-- A word with no mark right after it. -/
theorem scanWord_unmarked (hreference : ¬ "#".toList <+: cs.dropWhile isWordChar)
    (hgenerator : ¬ "::".toList <+: cs.dropWhile isWordChar) :
    scanWord start c cs =
      match word? (String.ofList (c :: cs.takeWhile isWordChar)) with
      | some kind =>
        ⟨kind, start + byteLength (c :: cs.takeWhile isWordChar), cs.dropWhile isWordChar⟩
      | none => refuse (.unexpectedIdentifier (String.ofList (c :: cs.takeWhile isWordChar))) start := by
  simp only [scanWord]
  split
  · next rest hrest => exact absurd ⟨rest, hrest.symm⟩ hreference
  · next rest hrest => exact absurd ⟨rest, hrest.symm⟩ hgenerator
  · rfl

theorem agrees_word (h : RestAt text start (c :: cs)) (hc : isWordStart c = true) :
    Agrees text (wordAt text start) (scanWord start c cs) := by
  obtain ⟨hslice, hrest⟩ := h.slice_run isWordChar
  have hafter := skipWhile_word h (isWordChar_of_isWordStart hc)
  simp only [wordAt, hafter, hslice, Option.bind_eq_bind, Option.bind_some, hrest.startsWith,
    List.isPrefixOf_iff_prefix]
  split
  · next hreference =>
    obtain ⟨rest, hdrop⟩ := hreference
    simp only [scanWord, ← hdrop] at hrest ⊢
    exact agrees_member .reference _ h.isBoundary hrest.next
  · split
    · next hgenerator =>
      obtain ⟨rest, hdrop⟩ := hgenerator
      simp only [scanWord, ← hdrop] at hrest ⊢
      exact agrees_member .generator _ h.isBoundary hrest.next.next
    · next hreference hgenerator =>
      rw [scanWord_unmarked hreference hgenerator]
      cases hword : word? (String.ofList (c :: cs.takeWhile isWordChar)) with
      | some kind => exact agrees_of_word? hword hrest
      | none => exact agrees_refuse h _

theorem operatorAt_eq (h : RestAt text start (c :: cs)) :
    operatorAt text start =
      some (match symbolic.find? (·.symbol.toList.isPrefixOf (c :: cs)) with
        | some op => (.operator op, start + op.symbol.utf8ByteSize)
        | none => refuseAt (.unknownSymbol c) start) := by
  have hfind : symbolic.findM? (fun op => startsWith? op.symbol text start) =
      some (symbolic.find? (·.symbol.toList.isPrefixOf (c :: cs))) := by
    simp only [h.startsWith]
    exact List.findM?_pure ..
  rw [operatorAt, hfind]
  simp only [Option.bind_eq_bind, Option.bind_some, h.sliceFrom]
  cases symbolic.find? (·.symbol.toList.isPrefixOf (c :: cs)) <;> rfl

/-- The reader of one lexeme, by the characters that its bytes stand for. -/
theorem lexemeAt_eq (h : RestAt text start (c :: cs)) :
    lexemeAt text start =
      if c == '#' then memberAt text .reference none start (start + 1)
      else if c == ':' && cs.head?.any (· == ':') then memberAt text .generator none start (start + 2)
      else if c == '"' then stringAt text '"' start
      else if c == '\'' then stringAt text '\'' start
      else if c.isDigit || (c == '-' && cs.head?.any Char.isDigit) then numberAt text start
      else if c == '(' then some (.opening, start + 1)
      else if c == ')' then some (.closing, start + 1)
      else if c == ',' then some (.comma, start + 1)
      else if isWordStart c then wordAt text start
      else operatorAt text start := by
  have hsees {d : Char} (hd : d.toNat < 128) : sees d text start = (c == d) := h.sees hd
  have hdigit : meets Char.isDigit text start = c.isDigit := h.meets isAsciiClass_isDigit
  have hword : meets isWordStart text start = isWordStart c := h.meets isAsciiClass_isWordStart
  have hcolons : (sees ':' text start && sees ':' text (start + 1)) =
      (c == ':' && cs.head?.any (· == ':')) := h.sees_meets (by decide) (isAsciiClass_eq (by decide))
  have hminus := h.sees_meets (d := '-') (by decide) isAsciiClass_isDigit
  rw [lexemeAt, hcolons, hminus, hdigit, hword, hsees (by decide), hsees (by decide),
    hsees (by decide), hsees (by decide), hsees (by decide), hsees (by decide)]

theorem lexemeAt_unmarked (h : RestAt text start (c :: cs)) (hhash : c ≠ '#')
    (hcolons : ∀ ds, c = ':' → cs ≠ ':' :: ds) (hdouble : c ≠ '"') (hsingle : c ≠ '\'') :
    lexemeAt text start =
      if c.isDigit || (c == '-' && cs.head?.any Char.isDigit) then numberAt text start
      else if c = '(' then some (.opening, start + 1)
      else if c = ')' then some (.closing, start + 1)
      else if c = ',' then some (.comma, start + 1)
      else if isWordStart c then wordAt text start
      else operatorAt text start := by
  have hcolons : (c == ':' && cs.head?.any (· == ':')) = false := by
    by_contra hboth
    rw [Bool.not_eq_false, Bool.and_eq_true, beq_iff_eq, Option.any_eq_true] at hboth
    obtain ⟨hc, d, hd, hcolon⟩ := hboth
    obtain ⟨ds, hds⟩ := List.head?_eq_some_iff.1 hd
    exact hcolons ds hc (beq_iff_eq.1 hcolon ▸ hds)
  simp only [lexemeAt_eq h, beq_iff_eq, hcolons, if_neg hhash, if_neg hdouble, if_neg hsingle,
    Bool.false_eq_true, if_false]

theorem find?_angle (hequals : ∀ after, cs ≠ '=' :: after) :
    symbolic.find? (·.symbol.toList.isPrefixOf ('>' :: cs)) = some .greater ∧
      symbolic.find? (·.symbol.toList.isPrefixOf ('<' :: cs)) = some .less := by
  cases cs with
  | nil => exact ⟨rfl, rfl⟩
  | cons d ds =>
    have hd : ('=' == d) = false := beq_eq_false_iff_ne.2 fun hd => hequals ds (hd ▸ rfl)
    simp [symbolic, Operator.symbol, List.isPrefixOf, hd]

theorem find?_none (hchain : ∀ ds, c = '-' → cs ≠ '>' :: ds)
    (hequals : ∀ ds, c = '=' → cs ≠ '=' :: ds) (hnot : ∀ ds, c = '!' → cs ≠ '=' :: ds)
    (hgreater : c ≠ '>') (hless : c ≠ '<') (hsequence : c ≠ ';') :
    symbolic.find? (·.symbol.toList.isPrefixOf (c :: cs)) = none := by
  rw [List.find?_eq_none]
  intro op hop
  rw [List.isPrefixOf_iff_prefix]
  rintro ⟨ds, hds⟩
  simp only [symbolic, List.mem_cons, List.not_mem_nil, or_false] at hop
  rcases hop with rfl | rfl | rfl | rfl | rfl | rfl | rfl | rfl
  · exact hchain ds (List.cons.inj hds).1.symm (List.cons.inj hds).2.symm
  · exact hequals ds (List.cons.inj hds).1.symm (List.cons.inj hds).2.symm
  · exact hnot ds (List.cons.inj hds).1.symm (List.cons.inj hds).2.symm
  · exact hgreater (List.cons.inj hds).1.symm
  · exact hless (List.cons.inj hds).1.symm
  · exact hgreater (List.cons.inj hds).1.symm
  · exact hless (List.cons.inj hds).1.symm
  · exact hsequence (List.cons.inj hds).1.symm

theorem agrees_lexeme (h : RestAt text start (c :: cs)) :
    Agrees text (lexemeAt text start) (scanOne start c cs) := by
  have hmember (form : CallForm) {pos : Nat} {cs : List Char} (hrest : RestAt text pos cs) :=
    agrees_member form none h.isBoundary hrest
  rw [lexemeAt_eq h]
  fun_cases scanOne start c cs
  case case1 => exact hmember .reference h.next
  case case2 => exact hmember .generator h.next.next
  case case3 | case4 => exact agrees_string _ h.isBoundary h.next
  case case5 | case6 | case7 => exact ⟨rfl, trivial, h.next⟩
  case case8 => exact ⟨operatorAt_eq h, trivial, h.next⟩
  case case9 | case10 | case11 | case12 | case13 =>
    exact ⟨operatorAt_eq h, trivial, h.next.next⟩
  case case14 hequals =>
    refine ⟨(operatorAt_eq h).trans ?_, trivial, h.next⟩
    rw [(find?_angle hequals).1]
    rfl
  case case15 hequals =>
    refine ⟨(operatorAt_eq h).trans ?_, trivial, h.next⟩
    rw [(find?_angle hequals).2]
    rfl
  case case16 hnumber =>
    rw [← lexemeAt_eq h, lexemeAt_unmarked h ‹_› ‹_› ‹_› ‹_›, if_pos hnumber]
    exact agrees_number h hnumber
  case case17 =>
    rw [← lexemeAt_eq h, lexemeAt_unmarked h ‹_› ‹_› ‹_› ‹_›, if_neg ‹_›, if_neg ‹_›, if_neg ‹_›,
      if_neg ‹_›, if_pos ‹_›]
    exact agrees_word h ‹_›
  case case18 =>
    rw [← lexemeAt_eq h, lexemeAt_unmarked h ‹_› ‹_› ‹_› ‹_›, if_neg ‹_›, if_neg ‹_›, if_neg ‹_›,
      if_neg ‹_›, if_neg ‹_›, operatorAt_eq h, find?_none ‹_› ‹_› ‹_› ‹_› ‹_› ‹_›]
    exact agrees_refuse h _

/-- Scanning begins with the blanks; the first character that is none starts a lexeme. -/
theorem scan_cases (h : RestAt text pos cs) :
    (RestAt text (skipWhile isBlank text pos) [] ∧ scan pos cs = []) ∨
      ∃ c ds, RestAt text (skipWhile isBlank text pos) (c :: ds) ∧ ds.length < cs.length ∧
        scan pos cs =
          ⟨(scanOne (skipWhile isBlank text pos) c ds).kind, c, skipWhile isBlank text pos⟩ ::
            scan (scanOne (skipWhile isBlank text pos) c ds).next
              (scanOne (skipWhile isBlank text pos) c ds).rest := by
  have hrest := h.at_skipWhile isAsciiClass_isBlank
  have hscan : scan pos cs = scan (skipWhile isBlank text pos) (cs.dropWhile isBlank) := by
    rw [h.skipWhile isAsciiClass_isBlank, ← scan_blanks, List.takeWhile_append_dropWhile]
    exact fun c hc => List.all_eq_true.1 (List.all_takeWhile ..) c hc
  have hlength := List.length_dropWhile_le isBlank cs
  rw [hscan]
  cases hcs : cs.dropWhile isBlank with
  | nil => exact Or.inl ⟨hcs ▸ hrest, by rw [scan]⟩
  | cons c ds =>
    have hc : isBlank c = false := by
      have := List.head?_dropWhile_not isBlank cs
      rw [hcs] at this
      simpa using this
    rw [hcs] at hrest hlength
    refine Or.inr ⟨c, ds, hrest, hlength, ?_⟩
    rw [scan, if_neg (by simp [hc])]

theorem scanAt_of_sliceFrom? (h : sliceFrom? text (skipWhile isBlank text pos) = some cs) :
    scanAt text pos =
      match cs with
      | [] => some []
      | first :: _ =>
        match lexemeAt text (skipWhile isBlank text pos) with
        | none => none
        | some (.fault e, _) => some [⟨.fault e, first, skipWhile isBlank text pos⟩]
        | some (kind, next) =>
          if skipWhile isBlank text pos < next then
            (scanAt text next).map (⟨kind, first, skipWhile isBlank text pos⟩ :: ·)
          else none := by
  rw [scanAt]
  split <;> next h' => cases h.symm.trans h' <;> rfl

/-- Going by its bytes, a text has the lexemes that its characters make up. -/
theorem scanAt_eq (h : RestAt text pos cs) : scanAt text pos = some (scan pos cs) := by
  induction hlength : cs.length using Nat.strongRecOn generalizing pos cs with
  | ind n ih =>
    subst hlength
    obtain ⟨hend, hscan⟩ | ⟨c, ds, hrest, hshorter, hscan⟩ := scan_cases h
    · rw [scanAt_of_sliceFrom? hend.sliceFrom, hscan]
    · obtain ⟨hread, -, hnext⟩ := agrees_lexeme hrest
      have hlast := scanOne_length (skipWhile isBlank text pos) c ds
      rw [scanAt_of_sliceFrom? hrest.sliceFrom, hscan, hread]
      generalize hs : scanOne (skipWhile isBlank text pos) c ds = s at hnext hlast ⊢
      obtain ⟨kind, next, rest⟩ := s
      cases kind with
      | fault e =>
        simp only at hnext
        rw [hnext, scan]
      | literal | call | operator | opening | closing | comma | keyword =>
        have hprogress := hrest.lt hnext (Nat.lt_succ_of_le hlast)
        simp only [if_pos hprogress]
        rw [ih rest.length (Nat.lt_of_le_of_lt hlast hshorter) hnext rfl]
        rfl

end Lexeme

/-- Splits the text of an expression into tokens by its bytes. -/
def tokenizeBytes (text : String) : Option (Except LexError (List Token)) :=
  (Lexeme.scanAt text 0).map gather

theorem tokenizeBytes_eq (text : String) : tokenizeBytes text = some (tokenize text) := by
  rw [tokenizeBytes, Lexeme.scanAt_eq (RestAt.start text), Option.map_some, tokenize]

end ChatFlow.Expr
