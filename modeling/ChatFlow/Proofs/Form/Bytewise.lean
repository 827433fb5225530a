import Mathlib.Data.List.TakeWhile
import ChatFlow.Proofs.Form.Rereading
import ChatFlow.Proofs.Text.Bytes

/-!
Documents read by their bytes. Numbers are tried first and read again as symbols where they turn out to be
none, strings are put together from the runs between their escapes, and an escape is looked up by a single
byte. Main statement: `scanAt_eq`, no piece is ever cut out inside of a character or beyond the end, and the
lexemes are those that the characters make up.
-/
namespace ChatFlow.Form
open Text
variable {text : String} {start pos opened finish : Nat} {c : Char} {cs mid rest run : List Char}
  {s : Scanned} {p q : Char → Bool}

namespace Lexeme

section Readers

/-- The characters of a string that are taken as they are. -/
def isPlain (c : Char) : Bool := !(c == '"' || c == '\\')

/-- The offset where the line after this one starts. -/
def nextLine (text : String) (i : Nat) : Nat :=
  let finish := skipWhile (· ≠ '\n') text i
  if sees '\n' text finish then finish + 1 else finish

theorem le_nextLine (text : String) (i : Nat) : i ≤ nextLine text i := by
  have := le_skipWhile (· ≠ '\n') text i
  rw [nextLine]
  split <;> omega

/-- The first offset from `pos` on that is in no comment and holds no blank. -/
def skipGap (text : String) (pos : Nat) : Nat :=
  let start := skipWhile isBlank text pos
  if _h : sees ';' text start then skipGap text (nextLine text (start + 1)) else start
termination_by text.utf8ByteSize - pos
decreasing_by
  have := lt_of_meets _h
  have := le_skipWhile isBlank text pos
  have := le_nextLine text (skipWhile isBlank text pos + 1)
  omega

theorem le_skipGap (text : String) (pos : Nat) : pos ≤ skipGap text pos := by
  have hblanks := le_skipWhile isBlank text
  fun_induction skipGap text pos with
  | case1 pos start _ ih =>
    have hstart : pos ≤ start := hblanks pos
    have hline := le_nextLine text (start + 1)
    omega
  | case2 pos start => exact hblanks pos

/-- Content of a string, run by run, and the offset after its quote. -/
def stringFrom (text : String) (opened pos : Nat) : Option (Except ReadError (List Char × Nat)) :=
  let stop := skipWhile isPlain text pos
  match _h : byteAt? text stop with
  | none => some (.error (.unclosedString opened))
  | some b =>
    match slice? text pos stop with
    | none => none
    | some run =>
      if Char.ofUInt8 b = '"' then some (.ok (run, stop + 1))
      else
        match byteAt? text (stop + 1) with
        | none => some (.error (.incompleteEscape (stop + 1)))
        | some e =>
          match unescape? (Char.ofUInt8 e) with
          | none => some (.error (.unknownEscape e.toNat (stop + 1)))
          | some v => (stringFrom text opened (stop + 2)).map (·.map fun r => (run ++ v :: r.1, r.2))
termination_by text.utf8ByteSize - pos
decreasing_by
  have := lt_of_byteAt? _h
  have := le_skipWhile isPlain text pos
  omega

def stringAt (text : String) (start : Nat) : Option (LexemeKind × Nat) := do
  match ← stringFrom text start (start + 1) with
  | .ok (content, next) => return (.atom (.string (String.ofList content)), next)
  | .error e => return (.fault e, start)

def keywordAt (text : String) (start : Nat) : Option (LexemeKind × Nat) := do
  let after := skipWhile isSymbolChar text (start + 1)
  let name ← slice? text (start + 1) after
  if name = [] then return (.fault (.emptyKeyword (start + 1)), start)
  else return (.atom (.keyword (String.ofList name)), after)

/-- What a word means that is no number. -/
def plainWord (word : String) : Form :=
  match word with
  | "true" => .bool true
  | "false" => .bool false
  | name => .symbol name

def symbolAt (text : String) (start : Nat) : Option (LexemeKind × Nat) := do
  let after := skipWhile isSymbolChar text start
  return (.atom (plainWord (String.ofList (← slice? text start after))), after)

/-- The offset after digits, and after a point and more digits if there are any. -/
def numberEnd (text : String) (digits : Nat) : Nat :=
  let point := skipWhile Char.isDigit text digits
  if meets Char.isDigit text digits && (sees '.' text point && meets Char.isDigit text (point + 1)) then
    skipWhile Char.isDigit text (point + 1)
  else point

/-- A number if it ends where the word does, and a symbol otherwise. -/
def numberOrSymbolAt (text : String) (start : Nat) : Option (LexemeKind × Nat) :=
  let digits := if sees '-' text start || sees '+' text start then start + 1 else start
  let finish := numberEnd text digits
  if !meets Char.isDigit text digits || meets isSymbolChar text finish then symbolAt text start
  else do
    match word finish (← slice? text start finish) with
    | .ok f => return (.atom f, finish)
    | .error e => return (.fault e, finish)

/-- The lexeme at an offset that is in no comment and holds no blank. -/
def lexemeAt (text : String) (start : Nat) : Option (LexemeKind × Nat) :=
  if sees '(' text start then some (.opening, start + 1)
  else if sees ')' text start then some (.closing, start + 1)
  else if sees '"' text start then stringAt text start
  else if sees ':' text start then keywordAt text start
  else if sees '-' text start || sees '+' text start || meets Char.isDigit text start then
    numberOrSymbolAt text start
  else symbolAt text start

/-- The lexemes from an offset on. A reader that would stand still has no result either. -/
def scanAt (text : String) (pos : Nat) : Option (List Lexeme) :=
  let start := skipGap text pos
  if text.utf8ByteSize ≤ start then some []
  else
    match lexemeAt text start with
    | none => none
    | some (.fault e, _) => some [⟨.fault e, start⟩]
    | some (kind, next) =>
      if start < next then (scanAt text next).map (⟨kind, start⟩ :: ·) else none
termination_by text.utf8ByteSize - pos
decreasing_by
  have := le_skipGap text pos
  omega

end Readers

theorem isAsciiClass_isSymbolChar : IsAsciiClass isSymbolChar :=
  ((((isAsciiClass_eq (by decide)).or (isAsciiClass_eq (by decide))).or
    (isAsciiClass_eq (by decide))).or (isAsciiClass_eq (by decide))).or isAsciiClass_isBlank |>.not

theorem isAsciiClass_ne_newline : IsAsciiClass fun c => decide (c ≠ '\n') :=
  ⟨true, fun c hc => decide_eq_true (by rintro rfl; exact absurd hc (by decide))⟩

theorem isAsciiClass_isPlain : IsAsciiClass isPlain :=
  ((isAsciiClass_eq (by decide)).or (isAsciiClass_eq (by decide))).not

theorem scan_blanks (h : ∀ c ∈ mid, isBlank c = true) (pos : Nat) (rest : List Char) :
    scan pos (mid ++ rest) = scan (pos + byteLength mid) rest := by
  induction mid generalizing pos with
  | nil => rfl
  | cons c mid ih =>
    obtain ⟨hc, hmid⟩ := List.forall_mem_cons.1 h
    rw [List.cons_append, scan, if_pos hc, ih hmid, byteLength, Expr.utf8Size_of_isBlank hc,
      Nat.add_assoc]

/-- The line that goes on at an offset is over after its line feed, which is a blank. -/
theorem nextLine_at (h : RestAt text pos cs) :
    ∃ rest, RestAt text (nextLine text pos) rest ∧ rest.length ≤ cs.length ∧
      scan (pos + byteLength (cs.takeWhile (· ≠ '\n'))) (cs.dropWhile (· ≠ '\n')) =
        scan (nextLine text pos) rest := by
  have hline := h.at_skipWhile isAsciiClass_ne_newline
  have hlength := List.length_dropWhile_le (· ≠ '\n') cs
  rw [nextLine, ← h.skipWhile isAsciiClass_ne_newline]
  split
  · next hnewline =>
    obtain ⟨ds, hds⟩ := (hline.sees_iff (by decide)).1 hnewline
    rw [hds] at hline hlength ⊢
    exact ⟨ds, hline.next, (Nat.le_succ _).trans hlength, by rw [scan, if_pos (by decide)]⟩
  · exact ⟨_, hline, hlength, rfl⟩

/-- Comments and blanks are passed over, to a character that is the first one of a lexeme. -/
theorem skipGap_at (h : RestAt text pos cs) :
    ∃ rest, RestAt text (skipGap text pos) rest ∧ rest.length ≤ cs.length ∧
      scan pos cs = scan (skipGap text pos) rest ∧ ∀ c ∈ rest.head?, isBlank c = false ∧ c ≠ ';' := by
  have hstart {pos : Nat} {cs : List Char} (h : RestAt text pos cs) :=
    h.at_skipWhile isAsciiClass_isBlank
  have hblanks {pos : Nat} {cs : List Char} (h : RestAt text pos cs) :
      scan pos cs = scan (skipWhile isBlank text pos) (cs.dropWhile isBlank) := by
    rw [h.skipWhile isAsciiClass_isBlank, ← scan_blanks (fun c hc => List.mem_takeWhile_imp hc),
      List.takeWhile_append_dropWhile]
  fun_induction skipGap text pos generalizing cs with
  | case1 pos start hcomment =>
    rename_i ih
    have hlength := List.length_dropWhile_le isBlank cs
    obtain ⟨ds, hds⟩ := ((hstart h).sees_iff (by decide)).1 hcomment
    have hsemicolon := hstart h
    rw [hds] at hsemicolon hlength
    obtain ⟨rest, hrest, hle, hscan⟩ := nextLine_at hsemicolon.next
    obtain ⟨rest', hrest', hle', hscan', hhead⟩ := ih hrest
    refine ⟨rest', hrest', (hle'.trans hle).trans ((Nat.le_succ _).trans hlength), ?_, hhead⟩
    rw [hblanks h, hds, scan, if_neg (by decide), if_pos rfl]
    exact hscan.trans hscan'
  | case2 pos start =>
    rename_i hcomment
    refine ⟨_, hstart h, List.length_dropWhile_le .., hblanks h, fun c hc => ⟨?_, ?_⟩⟩
    · simpa [Option.mem_def.1 hc] using List.head?_dropWhile_not isBlank cs
    · rintro rfl
      obtain ⟨ds, hds⟩ := List.head?_eq_some_iff.1 hc
      exact hcomment (((hstart h).sees_iff (by decide)).2 ⟨ds, hds⟩)

/-- Whether what a reader has by bytes is a lexeme read off the characters. Where it is no fault, the text
that is left starts at the offset after it. -/
structure Agrees (text : String) (r : Option (LexemeKind × Nat)) (s : Scanned) : Prop where
  read : r = some (s.kind, s.next)
  goesOn : match s.kind with
    | .fault _ => s.rest = []
    | _ => RestAt text s.next s.rest

theorem isAsciiClass_unescape? : IsAsciiClass unescape? := by
  refine ⟨none, fun c hc => ?_⟩
  unfold unescape?
  split
  case h_5 => rfl
  all_goals revert hc; decide

theorem utf8Size_of_unescape? {v : Char} (h : unescape? c = some v) : c.utf8Size = 1 := by
  unfold unescape? at h
  split at h
  case h_5 => cases h
  all_goals rfl

theorem readString_plain (hc : isPlain c = true) (opened pos : Nat) (cs : List Char) :
    readString opened pos (c :: cs) =
      (readString opened (pos + c.utf8Size) cs).map fun r => (c :: r.1, r.2) := by
  rw [readString.eq_def]
  split
  case h_1 h => cases h
  case h_2 h => cases h; exact absurd hc (by decide)
  case h_3 h => cases h; exact absurd hc (by decide)
  case h_4 h => cases h; exact absurd hc (by decide)
  case h_5 h =>
    cases h
    cases readString opened _ _ <;> rfl

/-- A string goes on over a run of characters that are taken as they are. -/
theorem readString_run (opened pos : Nat) (cs : List Char) :
    readString opened pos cs =
      (readString opened (pos + byteLength (cs.takeWhile isPlain)) (cs.dropWhile isPlain)).map
        fun r => (cs.takeWhile isPlain ++ r.1, r.2) := by
  induction cs generalizing pos with
  | nil => rfl
  | cons c cs ih =>
    by_cases hc : isPlain c = true
    · rw [readString_plain hc, ih, List.takeWhile_cons, List.dropWhile_cons, if_pos hc, if_pos hc,
        byteLength, ← Nat.add_assoc]
      cases readString opened _ (cs.dropWhile isPlain) <;> rfl
    · rw [List.takeWhile_cons, List.dropWhile_cons, if_neg hc, if_neg hc]
      change _ = (readString opened pos (c :: cs)).map _
      cases readString opened pos (c :: cs) <;> rfl

theorem stringFrom_end (opened : Nat) (hend : byteAt? text (skipWhile isPlain text pos) = none) :
    stringFrom text opened pos = some (.error (.unclosedString opened)) := by
  rw [stringFrom]
  split
  · rfl
  · next hb => cases hend.symm.trans hb

theorem stringFrom_stop (opened : Nat) {b : UInt8}
    (hstop : byteAt? text (skipWhile isPlain text pos) = some b)
    (hrun : slice? text pos (skipWhile isPlain text pos) = some run) :
    stringFrom text opened pos =
      if Char.ofUInt8 b = '"' then some (.ok (run, skipWhile isPlain text pos + 1))
      else
        match byteAt? text (skipWhile isPlain text pos + 1) with
        | none => some (.error (.incompleteEscape (skipWhile isPlain text pos + 1)))
        | some e =>
          match unescape? (Char.ofUInt8 e) with
          | none => some (.error (.unknownEscape e.toNat (skipWhile isPlain text pos + 1)))
          | some v =>
            (stringFrom text opened (skipWhile isPlain text pos + 2)).map
              (·.map fun r => (run ++ v :: r.1, r.2)) := by
  rw [stringFrom]
  split
  · next hb => cases hstop.symm.trans hb
  · next hb =>
    cases hstop.symm.trans hb
    rw [hrun]

theorem stringFrom_eq (h : RestAt text pos cs) :
    stringFrom text opened pos = some ((readString opened pos cs).map fun r => (r.1, r.2.1)) := by
  induction hlength : cs.length using Nat.strongRecOn generalizing pos cs with
  | ind n ih =>
    subst hlength
    have hstop := h.at_skipWhile isAsciiClass_isPlain
    have hrun := h.slice_skipWhile isAsciiClass_isPlain
    have hshorter := List.length_dropWhile_le isPlain cs
    have hhead := List.head?_dropWhile_not isPlain cs
    rw [readString_run, ← h.skipWhile isAsciiClass_isPlain]
    cases hrest : cs.dropWhile isPlain with
    | nil =>
      rw [hrest] at hstop
      rw [stringFrom_end opened hstop.byteAt]
      rfl
    | cons c ds =>
      rw [hrest] at hstop hshorter hhead
      obtain rfl | rfl : c = '"' ∨ c = '\\' := by
        by_contra hc
        simp_all [isPlain]
      · rw [stringFrom_stop opened hstop.byteAt hrun, if_pos (by decide), readString]
        change _ = some (Except.ok (cs.takeWhile isPlain ++ [], _))
        rw [List.append_nil]
      · have hescape : RestAt text (skipWhile isPlain text pos + 1) ds := hstop.next
        rw [stringFrom_stop opened hstop.byteAt hrun, if_neg (by decide), hescape.byteAt]
        cases ds with
        | nil => rfl
        | cons e ds =>
          obtain ⟨b, hb, hlead⟩ := head?_utf8EncodeChar e
          have hvalue : unescape? (Char.ofUInt8 b) = unescape? e :=
            isAsciiClass_unescape?.of_mem (List.mem_of_mem_head? hb)
          rw [List.head?_cons, Option.bind_some, hb, readString]
          simp only [hvalue]
          cases hunescape : unescape? e with
          | none => rw [hlead]; rfl
          | some v =>
            have hsize := utf8Size_of_unescape? hunescape
            have hnext : RestAt text (skipWhile isPlain text pos + 2) ds := hstop.next₂ rfl hsize
            rw [ih ds.length (by simp only [List.length_cons] at hshorter; omega) hnext rfl]
            cases readString opened _ ds <;> rfl

theorem readString_at (h : RestAt text pos cs) {r : List Char × Nat × List Char}
    (hr : readString opened pos cs = .ok r) : RestAt text r.2.1 r.2.2 := by
  fun_induction readString opened pos cs generalizing r with
  | case1 | case3 | case4 => cases hr
  | case2 pos cs => cases hr; exact h.next
  | case5 pos e cs v hv ih =>
    obtain ⟨r', hr', h'⟩ := bind_eq_ok.1 hr
    cases h'
    exact (ih (h.next₂ rfl (utf8Size_of_unescape? hv)) hr' :)
  | case6 pos c cs _ _ _ ih =>
    obtain ⟨r', hr', h'⟩ := bind_eq_ok.1 hr
    cases h'
    exact (ih h.next hr' :)

theorem agrees_string (h : RestAt text (start + 1) cs) :
    Agrees text (stringAt text start) (scanString start cs) := by
  rw [stringAt, stringFrom_eq h, scanString]
  cases hr : readString start (start + 1) cs with
  | error e => exact ⟨rfl, rfl⟩
  | ok r => exact ⟨rfl, readString_at h hr⟩

theorem agrees_keyword (h : RestAt text start (':' :: cs)) :
    Agrees text (keywordAt text start) (scanOne start ':' cs) := by
  have hname : RestAt text (start + 1) cs := h.next
  have hrest := hname.at_skipWhile isAsciiClass_isSymbolChar
  simp only [keywordAt, hname.slice_skipWhile isAsciiClass_isSymbolChar, Option.bind_eq_bind,
    Option.bind_some, scanOne]
  rw [hname.skipWhile isAsciiClass_isSymbolChar] at hrest ⊢
  split
  · exact ⟨rfl, rfl⟩
  · exact ⟨rfl, hrest⟩

theorem word_of_number? (h : number? finish cs = none) :
    word finish cs = .ok (plainWord (String.ofList cs)) := by
  simp only [word, h]
  generalize String.ofList cs = name
  by_cases htrue : name = "true"
  · subst htrue
    rfl
  by_cases hfalse : name = "false"
  · subst hfalse
    rfl
  rw [plainWord.eq_3 name htrue hfalse]
  split
  · exact absurd rfl htrue
  · exact absurd rfl hfalse
  · rfl

/-- A word that is no number is a truth value or a symbol. -/
theorem agrees_symbol (h : RestAt text start (c :: cs)) (hc : isSymbolChar c = true)
    (hfinish : finish = start + byteLength (c :: cs.takeWhile isSymbolChar))
    (hnumber : number? finish (c :: cs.takeWhile isSymbolChar) = none) :
    Agrees text (symbolAt text start)
      (ofResult (word finish (c :: cs.takeWhile isSymbolChar)) finish (cs.dropWhile isSymbolChar)) := by
  obtain ⟨hslice, hrest⟩ := h.slice_run isSymbolChar
  rw [← hfinish] at hslice hrest
  have hafter : skipWhile isSymbolChar text start = finish := by
    rw [h.skipWhile isAsciiClass_isSymbolChar, List.takeWhile_cons, if_pos hc, hfinish]
  rw [symbolAt, hafter, hslice, word_of_number? hnumber]
  exact ⟨rfl, hrest⟩

section Numbers

/-- What follows the number at the front of a text. -/
def afterNumber (cs : List Char) : List Char :=
  match cs.dropWhile Char.isDigit with
  | '.' :: fraction =>
    if fraction.head?.any Char.isDigit then fraction.dropWhile Char.isDigit else '.' :: fraction
  | rest => rest

theorem afterNumber_at (h : RestAt text pos cs) (hdigit : cs.head?.any Char.isDigit = true) :
    RestAt text (numberEnd text pos) (afterNumber cs) := by
  have hpoint := h.at_skipWhile isAsciiClass_isDigit
  simp only [numberEnd, h.meets isAsciiClass_isDigit, hdigit, Bool.true_and, afterNumber]
  cases hrest : cs.dropWhile Char.isDigit with
  | nil =>
    rw [hrest] at hpoint
    rw [hpoint.sees (by decide)]
    exact hpoint
  | cons c ds =>
    rw [hrest] at hpoint
    rw [hpoint.sees_meets (by decide) isAsciiClass_isDigit]
    by_cases hc : c = '.'
    · subst hc
      rw [beq_self_eq_true, Bool.true_and]
      by_cases hmore : ds.head?.any Char.isDigit = true
      · have hfraction : RestAt text (skipWhile Char.isDigit text pos + 1) ds := hpoint.next
        simp only [if_pos hmore]
        exact hfraction.at_skipWhile isAsciiClass_isDigit
      · simp only [if_neg hmore]
        exact hpoint
    · rw [beq_eq_false_iff_ne.2 hc, Bool.false_and, if_neg (by decide)]
      split
      · next fraction heq => exact absurd (List.cons.inj heq).1 hc
      · exact hpoint

/-- The run of a class within a run of a larger one. -/
theorem span_within (hpq : ∀ c, p c = true → q c = true) (cs : List Char) :
    (cs.takeWhile q).takeWhile p = cs.takeWhile p ∧
      (cs.takeWhile q).dropWhile p = (cs.dropWhile p).takeWhile q := by
  induction cs with
  | nil => exact ⟨rfl, rfl⟩
  | cons c cs ih =>
    by_cases hp : p c = true
    · simp [hp, hpq c hp, ih.1, ih.2]
    · by_cases hq : q c = true <;> simp [hp, hq]

/-- A number is part of the word that it is in the front of. -/
theorem exists_append_afterNumber (cs : List Char) :
    ∃ number, cs = number ++ afterNumber cs ∧ ∀ c ∈ number, isSymbolChar c = true := by
  have hdigits {cs : List Char} : ∀ c ∈ cs.takeWhile Char.isDigit, isSymbolChar c = true :=
    fun c hc => isSymbolChar_of_isDigit (List.mem_takeWhile_imp hc)
  have hsplit := List.takeWhile_append_dropWhile (p := Char.isDigit) (l := cs)
  unfold afterNumber
  split
  · next fraction hrest =>
    rw [hrest] at hsplit
    split
    · refine ⟨cs.takeWhile Char.isDigit ++ '.' :: fraction.takeWhile Char.isDigit, ?_, ?_⟩
      · rw [List.append_assoc, List.cons_append, List.takeWhile_append_dropWhile, hsplit]
      · exact List.forall_mem_append.2 ⟨hdigits, List.forall_mem_cons.2 ⟨by decide, hdigits⟩⟩
    · exact ⟨_, hsplit.symm, hdigits⟩
  · exact ⟨_, hsplit.symm, hdigits⟩

theorem isDigit_of_takeWhile_ne_nil (h : cs.takeWhile Char.isDigit ≠ []) :
    cs.head?.any Char.isDigit = true := by
  cases cs with
  | nil => exact absurd rfl h
  | cons c cs =>
    by_contra hc
    exact h (by rw [List.takeWhile_cons, if_neg (by simpa using hc)])

/-- Digits that run to the end of a word have no symbol character after them. -/
theorem not_goesOn_of_all (hne : cs.takeWhile isSymbolChar ≠ [])
    (hall : (cs.takeWhile isSymbolChar).all Char.isDigit = true) :
    cs.head?.any Char.isDigit = true ∧ (cs.dropWhile Char.isDigit).head?.any isSymbolChar = false := by
  obtain ⟨htake, hdrop⟩ := span_within (p := Char.isDigit) (fun _ => isSymbolChar_of_isDigit) cs
  rw [List.all_eq_true] at hall
  rw [List.takeWhile_eq_self_iff.2 hall] at htake
  rw [List.dropWhile_eq_nil_iff.2 hall] at hdrop
  refine ⟨isDigit_of_takeWhile_ne_nil (htake ▸ hne), ?_⟩
  cases hrest : cs.dropWhile Char.isDigit with
  | nil => rfl
  | cons c ds =>
    by_contra hc
    rw [Bool.not_eq_false] at hc
    rw [hrest, List.takeWhile_cons, if_pos (show isSymbolChar c = true from hc)] at hdrop
    cases hdrop

/-- A word is no number if it goes on after the number at its front. -/
theorem number?_eq_none (finish : Nat) (cs : List Char) {word : List Char}
    (hword : (if word.head? == some '-' || word.head? == some '+' then word.drop 1 else word) =
      cs.takeWhile isSymbolChar)
    (hgoesOn : cs.head?.any Char.isDigit = true → (afterNumber cs).head?.any isSymbolChar = true) :
    number? finish word = none := by
  obtain ⟨htake, hdrop⟩ := span_within (p := Char.isDigit) (fun _ => isSymbolChar_of_isDigit) cs
  simp only [number?, hword, htake, hdrop]
  split
  · rfl
  · next hwhole =>
    have hnext := hgoesOn (isDigit_of_takeWhile_ne_nil hwhole)
    unfold afterNumber at hnext
    split at hnext
    · next fraction hrest =>
      rw [hrest, List.takeWhile_cons, if_pos (by decide)]
      refine if_neg fun hall => ?_
      obtain ⟨hdigit, hstop⟩ := not_goesOn_of_all hall.1 hall.2
      rw [if_pos hdigit, hstop] at hnext
      cases hnext
    · next hrest =>
      cases hcs : cs.dropWhile Char.isDigit with
      | nil => rw [hcs] at hnext; cases hnext
      | cons x t =>
        rw [hcs] at hnext hrest
        rw [List.takeWhile_cons, if_pos (show isSymbolChar x = true from hnext)]
        split
        · next h => cases h
        · next h => exact absurd (List.cons.inj h).1 fun hx => hrest t (hx ▸ rfl)
        · rfl

theorem agrees_numberOrSymbol (h : RestAt text start (c :: cs)) (hc : isSymbolChar c = true)
    (hfinish : finish = start + byteLength (c :: cs.takeWhile isSymbolChar)) :
    Agrees text (numberOrSymbolAt text start)
      (ofResult (word finish (c :: cs.takeWhile isSymbolChar)) finish (cs.dropWhile isSymbolChar)) := by
  have hminus : sees '-' text start = (c == '-') := h.sees (by decide)
  have hplus : sees '+' text start = (c == '+') := h.sees (by decide)
  -- what follows the sign, if there is one
  obtain ⟨digits, unsigned, hdigits, hunsigned, hword, hdrop⟩ : ∃ digits unsigned,
      (if sees '-' text start || sees '+' text start then start + 1 else start) = digits ∧
      RestAt text digits unsigned ∧
      (if (c :: cs.takeWhile isSymbolChar).head? == some '-' ||
          (c :: cs.takeWhile isSymbolChar).head? == some '+' then
        (c :: cs.takeWhile isSymbolChar).drop 1 else c :: cs.takeWhile isSymbolChar) =
          unsigned.takeWhile isSymbolChar ∧
      unsigned.dropWhile isSymbolChar = cs.dropWhile isSymbolChar := by
    rw [hminus, hplus]
    by_cases hsign : c = '-' ∨ c = '+'
    · have hnext : RestAt text (start + 1) cs := by rcases hsign with rfl | rfl <;> exact h.next
      exact ⟨start + 1, cs, by simp [hsign], hnext, by simp [hsign], rfl⟩
    · refine ⟨start, c :: cs, by simp [hsign], h, by simp [hsign, hc], ?_⟩
      rw [List.dropWhile_cons, if_pos hc]
  have hsymbol (hgoesOn) := agrees_symbol h hc hfinish (number?_eq_none finish _ hword hgoesOn)
  simp only [numberOrSymbolAt, hdigits, hunsigned.meets isAsciiClass_isDigit]
  by_cases hdigit : unsigned.head?.any Char.isDigit = true
  · have hafter := afterNumber_at hunsigned hdigit
    rw [hdigit, hafter.meets isAsciiClass_isSymbolChar, Bool.not_true, Bool.false_or]
    split
    · next hgoesOn => exact hsymbol fun _ => hgoesOn
    · next hstops =>
      obtain ⟨number, hsplit, hnumber⟩ := exists_append_afterNumber unsigned
      obtain ⟨hslice, hrest⟩ := h.slice_run isSymbolChar
      have hstop : ∀ d ∈ (afterNumber unsigned).head?, isSymbolChar d = false := by
        intro d hd
        rw [Option.mem_def.1 hd] at hstops
        exact Bool.not_eq_true _ ▸ hstops
      have hrun : afterNumber unsigned = cs.dropWhile isSymbolChar := by
        rw [← hdrop]
        conv_rhs => rw [hsplit, (Expr.span_append hnumber hstop).2]
      rw [hrun] at hafter
      rw [hafter.unique hrest, hslice, hfinish]
      simp only [Option.bind_eq_bind, Option.bind_some]
      cases word _ (c :: cs.takeWhile isSymbolChar) with
      | ok f => exact ⟨rfl, hrest⟩
      | error e => exact ⟨rfl, rfl⟩
  · rw [Bool.not_eq_true] at hdigit
    rw [hdigit]
    exact hsymbol fun h => absurd h (by simp [hdigit])

end Numbers

theorem agrees_lexeme (h : RestAt text start (c :: cs)) (hblank : isBlank c = false)
    (hcomment : c ≠ ';') :
    Agrees text (lexemeAt text start) (scanOne start c cs) := by
  have hsees {d : Char} (hd : d.toNat < 128) : sees d text start = (c == d) := h.sees hd
  have hdigit : meets Char.isDigit text start = c.isDigit := h.meets isAsciiClass_isDigit
  rw [lexemeAt, hsees (by decide), hsees (by decide), hsees (by decide), hsees (by decide),
    hsees (by decide), hsees (by decide), hdigit]
  by_cases hmark : c ∈ ['(', ')', '"', ':']
  · simp only [List.mem_cons, List.not_mem_nil, or_false] at hmark
    rcases hmark with rfl | rfl | rfl | rfl
    · exact ⟨rfl, h.next⟩
    · exact ⟨rfl, h.next⟩
    · exact agrees_string h.next
    · exact agrees_keyword h
  · simp only [List.mem_cons, List.not_mem_nil, or_false, not_or] at hmark
    obtain ⟨hopening, hclosing, hquote, hcolon⟩ := hmark
    have hc := isSymbolChar_iff.2 ⟨hblank, hcomment, hopening, hclosing, hquote⟩
    have hword : scanOne start c cs = ofResult _ _ _ := scanOne.eq_5 _ _ _ hopening hclosing hquote hcolon
    simp only [beq_iff_eq, if_neg hopening, if_neg hclosing, if_neg hquote, if_neg hcolon, hword]
    split
    · exact agrees_numberOrSymbol h hc rfl
    · next hnumber =>
      simp only [Bool.or_eq_true, beq_iff_eq, not_or] at hnumber
      obtain ⟨⟨hminus, hplus⟩, hdigit⟩ := hnumber
      refine agrees_symbol h hc rfl (number?_eq_none _ (c :: cs) ?_ fun h => absurd h hdigit)
      simp [hminus, hplus, hc]

/-- Going by its bytes, a text has the lexemes that its characters make up. -/
theorem scanAt_eq (h : RestAt text pos cs) : scanAt text pos = some (scan pos cs) := by
  induction hlength : cs.length using Nat.strongRecOn generalizing pos cs with
  | ind n ih =>
    subst hlength
    obtain ⟨rest, hrest, hle, hscan, hhead⟩ := skipGap_at h
    have hsize := hrest.size
    rw [scanAt, hscan]
    cases rest with
    | nil =>
      rw [if_pos (by simp only [byteLength] at hsize; omega), scan]
    | cons c ds =>
      obtain ⟨hblank, hcomment⟩ := hhead c rfl
      obtain ⟨hread, hnext⟩ := agrees_lexeme hrest hblank hcomment
      have hlast := scanOne_length (skipGap text pos) c ds
      have := c.utf8Size_pos
      rw [if_neg (by simp only [byteLength] at hsize; omega), scan, if_neg (by simp [hblank]),
        if_neg hcomment, hread]
      generalize scanOne (skipGap text pos) c ds = s at hnext hlast ⊢
      obtain ⟨kind, next, rest⟩ := s
      cases kind with
      | fault e =>
        simp only at hnext
        simp only [hnext, scan]
      | atom | opening | closing =>
        have hprogress := hrest.lt hnext (Nat.lt_succ_of_le hlast)
        simp only [if_pos hprogress]
        rw [ih rest.length (hlast.trans_lt hle) hnext rfl]
        rfl

end Lexeme

/-- Reads the forms of a document by its bytes. -/
def readBytes (text : String) : Option (Except ReadError (List Form)) :=
  (Lexeme.scanAt text 0).map nest

theorem readBytes_eq (text : String) : readBytes text = some (readAll text) := by
  rw [readBytes, Lexeme.scanAt_eq (RestAt.start text), Option.map_some, readAll]

end ChatFlow.Form
