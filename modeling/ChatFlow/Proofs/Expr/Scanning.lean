import ChatFlow.Proofs.Expr.Rendering
import ChatFlow.Proofs.Text.Bytes

/-! The lexeme at the front of a text that spells a token. -/
namespace ChatFlow.Expr
open Number
variable {pos start m : Nat} {c : Char} {cs rest blanks text : List Char} {kind : LexemeKind}
  {form : CallForm} {owner : Option String} {name word : String} {v : Value}

/-- Whether a text can follow a token: it starts with no character of a word, of a member's mark or of
an argument list. -/
def Ends (rest : List Char) : Prop :=
  ∀ c ∈ rest.head?, Text.isBlank c = true ∨ c = ',' ∨ c = ')'

theorem ends_of_isBlank (h : ∀ c ∈ rest.head?, Text.isBlank c = true) : Ends rest :=
  fun c hc => Or.inl (h c hc)

theorem Ends.isWordChar (h : Ends rest) (c : Char) (hc : c ∈ rest.head?) :
    Lexeme.isWordChar c = false := by
  have hc := h c hc
  simp only [Text.isBlank, Bool.or_eq_true, beq_iff_eq] at hc
  rcases hc with ((((rfl | rfl) | rfl) | rfl) | rfl) | rfl | rfl <;> decide

theorem Ends.isNameChar (h : Ends rest) (c : Char) (hc : c ∈ rest.head?) :
    Lexeme.isNameChar c = false := by
  have hword := h.isWordChar c hc
  simp only [Lexeme.isWordChar, Bool.or_eq_false_iff] at hword
  exact hword.1

theorem Ends.ne (h : Ends rest) (d : Char) (hd : d ∈ ['#', ':', '(', '>', '=']) (cs : List Char) :
    rest ≠ d :: cs := by
  rintro rfl
  have hd' := h d rfl
  simp only [List.mem_cons, List.not_mem_nil, or_false] at hd
  rcases hd with rfl | rfl | rfl | rfl | rfl <;> revert hd' <;> decide

/-- A run of characters ends where the first other one stands. -/
theorem span_append {p : Char → Bool} (hcs : ∀ c ∈ cs, p c = true)
    (hrest : ∀ c ∈ rest.head?, p c = false) :
    (cs ++ rest).takeWhile p = cs ∧ (cs ++ rest).dropWhile p = rest := by
  have hstop : rest.takeWhile p = [] ∧ rest.dropWhile p = rest := by
    cases rest with
    | nil => exact ⟨rfl, rfl⟩
    | cons c rest => simp [hrest c rfl]
  rw [List.takeWhile_append_of_pos hcs, List.dropWhile_append_of_pos hcs, hstop.1, hstop.2,
    List.append_nil]
  exact ⟨rfl, rfl⟩

theorem utf8Size_of_isBlank (h : Text.isBlank c = true) : c.utf8Size = 1 := by
  simp only [Text.isBlank, Bool.or_eq_true, beq_iff_eq] at h
  rcases h with (((rfl | rfl) | rfl) | rfl) | rfl <;> rfl

theorem isBlank_of_isWordChar (h : Lexeme.isWordChar c = true) : Text.isBlank c = false := by
  by_cases hc : Text.isBlank c = true
  · simp only [Text.isBlank, Bool.or_eq_true, beq_iff_eq] at hc
    rcases hc with (((rfl | rfl) | rfl) | rfl) | rfl <;> revert h <;> decide
  · simpa using hc

theorem isWordChar_of_isWordStart (h : Lexeme.isWordStart c = true) : Lexeme.isWordChar c = true := by
  simp only [Lexeme.isWordStart, Lexeme.isLetter, Bool.or_eq_true] at h
  rcases h with h | h <;> simp [Lexeme.isWordChar, Lexeme.isNameChar, Char.isAlphanum, h]

theorem isWordChar_of_isDigit (h : c.isDigit = true) : Lexeme.isWordChar c = true := by
  simp [Lexeme.isWordChar, Lexeme.isNameChar, Char.isAlphanum, h]

theorem isDigit_of_isWordStart (h : Lexeme.isWordStart c = true) : c.isDigit = false := by
  rw [Lexeme.isWordStart, Lexeme.isLetter, Bool.or_eq_true, beq_iff_eq, Text.isAlpha_iff] at h
  rcases h with hletter | rfl
  · refine Bool.eq_false_iff.2 fun hdigit => ?_
    have hrange : 48 ≤ c.toNat ∧ c.toNat ≤ 57 := Char.isDigit_iff_toNat.1 hdigit
    omega
  · rfl

/-- Only letters change their case, and to letters. -/
theorem toUpper_cases (c : Char) : c.isAlpha = true ∧ c.toUpper.isAlpha = true ∨ c.toUpper = c := by
  unfold Char.toUpper
  split
  · next hlower =>
    have hlower : 97 ≤ c.toNat ∧ c.toNat ≤ 122 := hlower
    have hupper : (c.val + ('A'.val - 'a'.val)).toNat = c.toNat - 32 := by
      rw [UInt32.toNat_add]
      change (c.toNat + 4294967264) % 4294967296 = _
      omega
    refine Or.inl ⟨Text.isAlpha_iff.2 (Or.inr hlower), Text.isAlpha_iff.2 (Or.inl ?_)⟩
    change 65 ≤ (c.val + _).toNat ∧ (c.val + _).toNat ≤ 90
    rw [hupper]
    omega
  · exact Or.inr rfl

theorem eq_of_map_toUpper (h : cs.map Char.toUpper = text) (htext : ∀ c ∈ text, c.isAlpha = false) :
    cs = text := by
  subst h
  have hsame : ∀ c ∈ cs, c.toUpper = c := fun c hc => by
    rcases toUpper_cases c with ⟨_, halpha⟩ | hsame
    · exact Bool.noConfusion (halpha.symm.trans (htext _ (List.mem_map_of_mem hc)))
    · exact hsame
  exact (List.map_id cs).symm.trans (List.map_congr_left fun c hc => (hsame c hc).symm)

namespace Lexeme

theorem scan_blanks (hblanks : IsBlanks blanks) :
    scan pos (blanks ++ rest) = scan (pos + Text.byteLength blanks) rest := by
  induction blanks generalizing pos with
  | nil => rfl
  | cons c blanks ih =>
    have hc := hblanks c List.mem_cons_self
    rw [List.cons_append, scan, if_pos hc, ih fun c hc => hblanks c (List.mem_cons_of_mem _ hc),
      Text.byteLength, utf8Size_of_isBlank hc, Nat.add_assoc]

/-- The characters `cs` are one lexeme when `rest` follows them. -/
def Fronts (pos : Nat) (cs : List Char) (kind : LexemeKind) (rest : List Char) : Prop :=
  ∃ c, scan pos (cs ++ rest) = ⟨kind, c, pos⟩ :: scan (pos + Text.byteLength cs) rest

theorem fronts_of_scanOne (hc : Text.isBlank c = false)
    (h : scanOne pos c (cs ++ rest) = ⟨kind, pos + Text.byteLength (c :: cs), rest⟩) :
    Fronts pos (c :: cs) kind rest :=
  ⟨c, by rw [List.cons_append, scan, if_neg (by simp [hc]), h]⟩

section Words

theorem scanOne_of_isWordStart (hc : isWordStart c = true) :
    scanOne start c cs = scanWord start c cs := by
  have hminus : (c == '-') = false := by
    rw [beq_eq_false_iff_ne]
    rintro rfl
    exact absurd hc (by decide)
  unfold scanOne
  split
  case h_16 => simp [isDigit_of_isWordStart hc, hminus, hc]
  all_goals exact absurd hc (by decide)

theorem scanWord_word (hcs : ∀ c ∈ cs, isWordChar c = true) (hrest : Ends rest)
    (hword : word? (String.ofList (c :: cs)) = some kind) :
    scanWord start c (cs ++ rest) = ⟨kind, start + Text.byteLength (c :: cs), rest⟩ := by
  obtain ⟨htake, hdrop⟩ := span_append hcs hrest.isWordChar
  simp only [scanWord, htake, hdrop]
  split
  · exact absurd rfl (hrest.ne '#' (by decide) _)
  · exact absurd rfl (hrest.ne ':' (by decide) _)
  · simp only [hword]

/-- A word that means something on its own. -/
theorem fronts_word (hcs : ∀ c ∈ cs, isWordChar c = true) (hstart : ∀ c ∈ cs.head?, isWordStart c = true)
    (hword : word? (String.ofList cs) = some kind) (hrest : Ends rest) :
    Fronts pos cs kind rest := by
  cases cs with
  | nil => cases hword
  | cons c cs =>
    have hc := hcs c List.mem_cons_self
    refine fronts_of_scanOne (isBlank_of_isWordChar hc) ?_
    rw [scanOne_of_isWordStart (hstart c rfl)]
    exact scanWord_word (fun c hc => hcs c (List.mem_cons_of_mem _ hc)) hrest hword

/-- Operators and keywords are words in any letter case. -/
theorem word?_of_toUpper (hcs : cs.map Char.toUpper = word.toList)
    (hword : (word, kind) ∈ [("AND", .operator .and), ("OR", .operator .or),
      ("IF", .keyword .ifWord), ("DO", .keyword .doWord), ("ELSE", .keyword .elseWord)]) :
    word? (String.ofList cs) = some kind := by
  simp only [List.mem_cons, Prod.mk.injEq, List.not_mem_nil, or_false] at hword
  unfold word?
  split
  case h_4 =>
    rw [String.toList_ofList, hcs, String.ofList_toList]
    rcases hword with ⟨rfl, rfl⟩ | ⟨rfl, rfl⟩ | ⟨rfl, rfl⟩ | ⟨rfl, rfl⟩ | ⟨rfl, rfl⟩ <;> rfl
  -- Capitals of a literal's name are none of these words.
  all_goals
    next hliteral =>
      rw [← String.toList_ofList (l := cs), hliteral] at hcs
      rcases hword with ⟨rfl, -⟩ | ⟨rfl, -⟩ | ⟨rfl, -⟩ | ⟨rfl, -⟩ | ⟨rfl, -⟩ <;>
        exact absurd hcs (by decide)

/-- The letters of an operator or keyword make up one word. -/
theorem fronts_of_toUpper (hcs : cs.map Char.toUpper = word.toList)
    (hword : (word, kind) ∈ [("AND", .operator .and), ("OR", .operator .or),
      ("IF", .keyword .ifWord), ("DO", .keyword .doWord), ("ELSE", .keyword .elseWord)])
    (hrest : Ends rest) : Fronts pos cs kind rest := by
  have halpha : ∀ c ∈ cs, c.isAlpha = true := by
    have hupper : ∀ c ∈ word.toList, c.isAlpha = true := by
      simp only [List.mem_cons, Prod.mk.injEq, List.not_mem_nil, or_false] at hword
      rcases hword with ⟨rfl, -⟩ | ⟨rfl, -⟩ | ⟨rfl, -⟩ | ⟨rfl, -⟩ | ⟨rfl, -⟩ <;>
        exact List.all_eq_true.1 rfl
    intro c hc
    rcases toUpper_cases c with ⟨halpha, _⟩ | hsame
    · exact halpha
    · exact hsame ▸ hupper _ (hcs ▸ List.mem_map_of_mem hc)
  have hstart : ∀ c ∈ cs, isWordStart c = true := fun c hc => by
    simp [isWordStart, isLetter, halpha c hc]
  refine fronts_word (fun c hc => isWordChar_of_isWordStart (hstart c hc))
    (fun c hc => hstart c (List.mem_of_mem_head? hc)) (word?_of_toUpper hcs hword) hrest

end Words

section Strings

/-- A string literal ends at the first quote that has no backslash before it. -/
theorem readString_escape (start pos : Nat) (cs rest : List Char) :
    readString '"' start pos (escape cs ++ '"' :: rest) =
      .ok (cs, pos + Text.byteLength (escape cs) + 1, rest) := by
  induction cs generalizing pos with
  | nil =>
    rw [escape, List.nil_append, readString.eq_def]
    simp [Text.byteLength]
    rfl
  | cons c cs ih =>
    by_cases hc : c = '"' ∨ c = '\\'
    · have hunescape : unescape? c = some c := by
        rcases hc with rfl | rfl <;> rfl
      have hsize : '\\'.utf8Size = 1 := rfl
      simp only [escape, if_pos hc, List.cons_append, readString, hunescape, ih]
      simp [Text.byteLength, hsize, bind, Except.bind, pure, Except.pure]
      omega
    · have hplain : c ≠ '"' ∧ c ≠ '\\' := by simpa [not_or] using hc
      rw [escape, if_neg hc, List.cons_append, readString.eq_def]
      simp [hplain.1, hplain.2, ih, Text.byteLength, bind, Except.bind, pure, Except.pure]
      omega

theorem fronts_string (s : String) :
    Fronts pos ('"' :: (escape s.toList ++ ['"'])) (.literal (.str s)) rest := by
  refine fronts_of_scanOne rfl ?_
  have hquote : '"'.utf8Size = 1 := rfl
  rw [List.append_assoc, List.singleton_append]
  change scanString '"' pos _ = _
  rw [scanString, readString_escape]
  simp [Text.byteLength, hquote]
  omega

end Strings

section Numbers

theorem digits?_toDigits (m : Nat) : digits? (Nat.toDigits 10 m) = some m := by
  have hall : (Nat.toDigits 10 m).all Char.isDigit = true :=
    List.all_eq_true.2 fun c => isDigit_of_mem_toDigits
  rw [digits?, if_pos ⟨Nat.toDigits_ne_nil, hall⟩, digitsValue_toDigits]

theorem number?_toDigits (n : Int64) :
    number? (n.toInt < 0) (Nat.toDigits 10 n.toInt.natAbs) = some (.int n) := by
  have hpoint : (Nat.toDigits 10 n.toInt.natAbs).contains '.' = false := by
    rw [← Bool.not_eq_true, List.contains_iff_mem]
    intro h
    exact absurd (isDigit_of_mem_toDigits h) (by decide)
  rw [number?, if_neg (by rw [hpoint]; exact Bool.false_ne_true), digits?_toDigits]
  simp [int64?_natAbs]

theorem scanOne_of_isDigit (hc : c.isDigit = true) :
    scanOne start c cs = scanNumber start c cs := by
  unfold scanOne
  split
  case h_16 => simp [hc]
  all_goals exact absurd hc (by decide)

theorem scanOne_minus (hc : c.isDigit = true) :
    scanOne start '-' (c :: cs) = scanNumber start '-' (c :: cs) := by
  have hne : c ≠ '>' := by
    rintro rfl
    exact absurd hc (by decide)
  simp [scanOne.eq_def, hne, hc]

theorem scanNumber_of_number? (hcs : ∀ c ∈ cs, isWordChar c = true) (hrest : Ends rest)
    (hv : (if c = '-' then number? true cs else number? false (c :: cs)) = some v) :
    scanNumber start c (cs ++ rest) = ⟨.literal v, start + Text.byteLength (c :: cs), rest⟩ := by
  obtain ⟨htake, hdrop⟩ := span_append hcs hrest.isWordChar
  simp only [scanNumber, htake, hdrop, List.drop_one, List.tail_cons, hv]

theorem fronts_int (n : Int64) (hrest : Ends rest) :
    Fronts pos (toString n.toInt).toList (.literal (.int n)) rest := by
  have hdigit : ∀ c ∈ Nat.toDigits 10 n.toInt.natAbs, c.isDigit = true :=
    fun c => isDigit_of_mem_toDigits
  have hword : ∀ c ∈ Nat.toDigits 10 n.toInt.natAbs, isWordChar c = true :=
    fun c hc => isWordChar_of_isDigit (hdigit c hc)
  have hvalue := number?_toDigits n
  rw [toList_toString]
  obtain ⟨c, cs, hcs⟩ := List.exists_cons_of_ne_nil
    (Nat.toDigits_ne_nil (n := n.toInt.natAbs) (b := 10))
  rw [hcs] at hdigit hword hvalue ⊢
  have hc := hdigit c List.mem_cons_self
  split
  · next hn =>
    refine fronts_of_scanOne rfl ?_
    rw [List.cons_append, scanOne_minus hc, ← List.cons_append]
    exact scanNumber_of_number? hword hrest (by simpa [hn] using hvalue)
  · next hn =>
    have hminus : c ≠ '-' := by
      rintro rfl
      exact absurd hc (by decide)
    refine fronts_of_scanOne (isBlank_of_isWordChar (hword c List.mem_cons_self)) ?_
    rw [scanOne_of_isDigit hc]
    exact scanNumber_of_number? (fun c hc => hword c (List.mem_cons_of_mem _ hc)) hrest
      (by simpa [hn, hminus] using hvalue)

end Numbers

section Members

theorem scanMember_name (hname : IsName name) (hrest : Ends rest) :
    scanMember form owner start pos (name.toList ++ rest) =
      ⟨.call form owner name none, pos + Text.byteLength name.toList, rest⟩ := by
  obtain ⟨htake, hdrop⟩ := span_append hname.2 hrest.isNameChar
  simp only [scanMember, htake, hdrop, if_neg hname.1, String.ofList_toList]
  split
  · exact absurd rfl (hrest.ne '(' (by decide) _)
  · rfl

theorem scanMember_opening (hname : IsName name) :
    scanMember form owner start pos (name.toList ++ '(' :: rest) =
      ⟨.call form owner name (some (pos + Text.byteLength name.toList)),
        pos + Text.byteLength name.toList + 1, rest⟩ := by
  have hstop : ∀ c ∈ ('(' :: rest).head?, isNameChar c = false := by
    rintro c ⟨⟩
    rfl
  obtain ⟨htake, hdrop⟩ := span_append hname.2 hstop
  simp only [scanMember, htake, hdrop, if_neg hname.1, String.ofList_toList]

/-- A member's mark, and the owner's name before it, lead to the member's name. -/
theorem scanOne_mark (form : CallForm) (howner : ∀ o, owner = some o → IsOwner o) :
    ∃ c cs, (owner.getD "" ++ form.mark).toList = c :: cs ∧ Text.isBlank c = false ∧
      ∀ start rest, scanOne start c (cs ++ rest) =
        scanMember form owner start (start + Text.byteLength (c :: cs)) rest := by
  have hhash : '#'.utf8Size = 1 := rfl
  have hcolon : ':'.utf8Size = 1 := rfl
  cases owner with
  | none =>
    cases form with
    | reference => exact ⟨'#', [], rfl, rfl, fun _ _ => rfl⟩
    | generator => exact ⟨':', [':'], rfl, rfl, fun _ _ => rfl⟩
  | some o =>
    obtain ⟨c, cs, ho, hc, hcs⟩ := howner o rfl
    have hword : String.ofList (c :: cs) = o := by rw [← ho, String.ofList_toList]
    refine ⟨c, cs ++ form.mark.toList, by simp [ho],
      isBlank_of_isWordChar (isWordChar_of_isWordStart hc), fun start rest => ?_⟩
    rw [scanOne_of_isWordStart hc, List.append_assoc]
    have hstop : ∀ c ∈ (form.mark.toList ++ rest).head?, isWordChar c = false := by
      cases form <;> rintro c ⟨⟩ <;> rfl
    obtain ⟨htake, hdrop⟩ := span_append hcs hstop
    simp only [scanWord, htake, hdrop, hword]
    cases form <;> simp [CallForm.mark, Text.byteLength, hhash, hcolon, Nat.add_assoc]

end Members

section Punctuation

theorem fronts_opening : Fronts pos ['('] .opening rest :=
  fronts_of_scanOne rfl rfl

theorem fronts_closing : Fronts pos [')'] .closing rest :=
  fronts_of_scanOne rfl rfl

theorem fronts_comma : Fronts pos [','] .comma rest :=
  fronts_of_scanOne rfl rfl

/-- The two-character operators come first; their pattern needs an `=` next. -/
theorem scanOne_angle (hc : c = '>' ∨ c = '<') (hequals : ∀ after, rest ≠ '=' :: after) :
    scanOne start c rest =
      ⟨.operator (if c = '>' then .greater else .less), start + 1, rest⟩ := by
  rcases hc with rfl | rfl <;> simp [scanOne.eq_def]

theorem fronts_symbol (op : Operator) (hop : op ≠ .and ∧ op ≠ .or) (hrest : Ends rest) :
    Fronts pos op.symbol.toList (.operator op) rest := by
  cases op
  case and | or => simp at hop
  case greater => exact fronts_of_scanOne rfl (scanOne_angle (Or.inl rfl) (hrest.ne '=' (by decide)))
  case less => exact fronts_of_scanOne rfl (scanOne_angle (Or.inr rfl) (hrest.ne '=' (by decide)))
  all_goals exact fronts_of_scanOne rfl rfl

end Punctuation

section Tokens

theorem fronts_literal (hv : literalText? v = some cs) (hrest : Ends rest) :
    Fronts pos cs (.literal v) rest := by
  have hword : ∀ word : String, word.toList.all isWordStart = true →
      ∀ kind, word? word = some kind → Fronts pos word.toList kind rest := by
    intro word hword kind hkind
    rw [List.all_eq_true] at hword
    exact fronts_word (fun c hc => isWordChar_of_isWordStart (hword c hc))
      (fun c hc => hword c (List.mem_of_mem_head? hc)) (by rwa [String.ofList_toList]) hrest
  cases v with
  | null =>
    cases hv
    exact hword "null" rfl _ rfl
  | bool b =>
    cases b <;> cases hv
    · exact hword "false" rfl _ rfl
    · exact hword "true" rfl _ rfl
  | int n =>
    cases hv
    exact fronts_int n hrest
  | str s =>
    cases hv
    exact fronts_string s
  | float _ | list _ => cases hv

theorem fronts_operator {op : Operator} (hcs : cs.map Char.toUpper = op.symbol.toList)
    (hrest : Ends rest) : Fronts pos cs (.operator op) rest := by
  by_cases hop : op ≠ .and ∧ op ≠ .or
  · have hsymbol : op.symbol.toList.all (!·.isAlpha) = true := by
      cases op <;> first | rfl | simp at hop
    rw [eq_of_map_toUpper hcs fun c hc => by simpa using List.all_eq_true.1 hsymbol c hc]
    exact fronts_symbol op hop hrest
  · refine fronts_of_toUpper hcs ?_ hrest
    cases op <;> simp [Operator.symbol] at hop ⊢

theorem fronts_keyword {word : Keyword} (hcs : cs.map Char.toUpper = word.word.toList)
    (hrest : Ends rest) : Fronts pos cs (.keyword word) rest := by
  refine fronts_of_toUpper hcs ?_ hrest
  cases word <;> simp [Keyword.word]

/-- A member without a list of arguments. -/
theorem fronts_member (howner : ∀ o, owner = some o → IsOwner o) (hname : IsName name)
    (hrest : Ends rest) :
    Fronts pos (form.spell owner name).toList (.call form owner name none) rest := by
  obtain ⟨c, cs, hmark, hc, hscan⟩ := scanOne_mark form howner
  rw [CallForm.spell, String.toList_append, hmark, List.cons_append]
  refine fronts_of_scanOne hc ?_
  rw [List.append_assoc, hscan, scanMember_name hname hrest, ← List.cons_append,
    Text.byteLength_append, Nat.add_assoc]

/-- A member up to the parenthesis that opens its list of arguments. -/
theorem fronts_call (howner : ∀ o, owner = some o → IsOwner o) (hname : IsName name) :
    Fronts pos ((form.spell owner name).toList ++ ['('])
      (.call form owner name (some (pos + Text.byteLength (form.spell owner name).toList))) rest := by
  have hopening : '('.utf8Size = 1 := rfl
  obtain ⟨c, cs, hmark, hc, hscan⟩ := scanOne_mark form howner
  rw [CallForm.spell, String.toList_append, hmark, List.cons_append, List.cons_append]
  refine fronts_of_scanOne hc ?_
  rw [List.append_assoc, List.append_assoc, hscan, List.singleton_append, scanMember_opening hname]
  simp [Text.byteLength, hopening, Nat.add_assoc]

end Tokens

end Lexeme
end ChatFlow.Expr
