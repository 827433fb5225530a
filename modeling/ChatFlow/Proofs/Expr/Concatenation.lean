import ChatFlow.Proofs.Expr.Retokenizing
import ChatFlow.Proofs.Expr.Shifting
import ChatFlow.Proofs.Text.Bytes

/-! Two texts with blanks between them have the tokens of the one and then those of the other. -/
namespace ChatFlow.Expr
variable {start pos : Nat} {c : Char} {cs rest : List Char} {form : CallForm} {owner : Option String}

/-- A run of characters in a text is the same where the text goes on with another character. -/
theorem span_extend {p : Char → Bool} (cs : List Char) (hrest : ∀ c ∈ rest.head?, p c = false) :
    (cs ++ rest).takeWhile p = cs.takeWhile p ∧ (cs ++ rest).dropWhile p = cs.dropWhile p ++ rest := by
  induction cs with
  | nil => exact span_append nofun hrest
  | cons c cs ih =>
    by_cases hc : p c = true
    · simp [hc, ih.1, ih.2]
    · simp [hc]

/-- A mark at the front of a text that goes on after a token is in the text itself. -/
theorem Ends.mark {d : Char} {after : List Char} (hrest : Ends rest) (hd : d ∈ ['#', ':', '(', '>', '='])
    (h : cs ++ rest = d :: after) : ∃ ds, cs = d :: ds ∧ after = ds ++ rest := by
  rcases List.append_eq_cons_iff.1 h with ⟨rfl, h⟩ | h
  · exact absurd h (hrest.ne d hd _)
  · exact h

namespace Lexeme

/-- Whether a reader stops where a token ends. What follows the text then changes nothing but the rest,
and the offset after the token is that of the rest. A reader may fail elsewhere. -/
def Stops (read : List Char → Scanned) (pos : Nat) : Prop :=
  ∀ cs, (∀ e, (read cs).kind ≠ .fault e) →
    (read cs).next + Text.byteLength (read cs).rest = pos + Text.byteLength cs ∧
      ∀ rest, Ends rest →
        read (cs ++ rest) = ⟨(read cs).kind, (read cs).next, (read cs).rest ++ rest⟩

theorem byteLength_span (p : Char → Bool) (cs : List Char) :
    Text.byteLength (cs.takeWhile p) + Text.byteLength (cs.dropWhile p) = Text.byteLength cs := by
  rw [← Text.byteLength_append, List.takeWhile_append_dropWhile]

theorem readString_ok {quote : Char} {r : List Char × Nat × List Char}
    (h : readString quote start pos cs = .ok r) :
    r.2.1 + Text.byteLength r.2.2 = pos + Text.byteLength cs ∧
      ∀ rest, readString quote start pos (cs ++ rest) = .ok (r.1, r.2.1, r.2.2 ++ rest) := by
  fun_induction readString quote start pos cs generalizing r with
  | case1 | case3 | case4 => cases h
  | case2 pos cs =>
    cases h
    refine ⟨by simp [Text.byteLength, Nat.add_assoc], fun rest => ?_⟩
    rw [List.cons_append, readString.eq_def]
    simp
  | case5 pos e cs v hsome hq ih =>
    cases hr : readString quote start (pos + 1 + e.utf8Size) cs with
    | error e => rw [hr] at h; cases h
    | ok q =>
      obtain ⟨text, next, tail⟩ := q
      obtain ⟨hnext : next + Text.byteLength tail = _, happend⟩ := ih hr
      rw [hr] at h
      cases h
      have hsize : '\\'.utf8Size = 1 := rfl
      constructor
      · change next + Text.byteLength tail = _
        simp only [Text.byteLength, hsize]
        omega
      · intro rest
        rw [List.cons_append, List.cons_append, readString.eq_def]
        simp only [if_neg hq, if_true, hsome, happend]
        rfl
  | case6 pos c cs hq hplain ih =>
    cases hr : readString quote start (pos + c.utf8Size) cs with
    | error e => rw [hr] at h; cases h
    | ok q =>
      obtain ⟨text, next, tail⟩ := q
      obtain ⟨hnext : next + Text.byteLength tail = _, happend⟩ := ih hr
      rw [hr] at h
      cases h
      constructor
      · change next + Text.byteLength tail = _
        simp only [Text.byteLength]
        omega
      · intro rest
        rw [List.cons_append, readString.eq_def]
        simp only [if_neg hq, if_neg hplain, happend]
        rfl

theorem stops_string (quote : Char) (start : Nat) : Stops (scanString quote start) (start + 1) := by
  intro cs hk
  simp only [scanString] at hk ⊢
  cases hr : readString quote start (start + 1) cs with
  | error e =>
    rw [hr] at hk
    exact absurd rfl (hk e)
  | ok r =>
    obtain ⟨hnext, happend⟩ := readString_ok hr
    exact ⟨hnext, fun rest _ => by rw [happend]⟩

theorem stops_number (start : Nat) (c : Char) : Stops (scanNumber start c) (start + c.utf8Size) := by
  intro cs hk
  have hspan := byteLength_span isWordChar cs
  simp only [scanNumber] at hk ⊢
  split at hk
  · refine ⟨by simp only [Text.byteLength]; omega, fun rest hrest => ?_⟩
    obtain ⟨htake, hdrop⟩ := span_extend cs hrest.isWordChar
    simp_all
  · exact absurd rfl (hk _)

theorem stops_member (form : CallForm) (owner : Option String) (start pos : Nat) :
    Stops (scanMember form owner start pos) pos := by
  intro cs hk
  have hspan := byteLength_span isNameChar cs
  have hopening : '('.utf8Size = 1 := rfl
  by_cases hne : cs.takeWhile isNameChar = []
  · simp only [scanMember, if_pos hne] at hk
    exact absurd rfl (hk _)
  · simp only [scanMember, if_neg hne]
    split
    · next after hafter =>
      rw [hafter] at hspan
      refine ⟨by simp only [Text.byteLength] at hspan ⊢; omega, fun rest hrest => ?_⟩
      obtain ⟨htake, hdrop⟩ := span_extend cs hrest.isNameChar
      simp only [htake, hdrop, hafter, if_neg hne, List.cons_append]
    · next hafter =>
      refine ⟨by simp only; omega, fun rest hrest => ?_⟩
      obtain ⟨htake, hdrop⟩ := span_extend cs hrest.isNameChar
      simp only [htake, hdrop, if_neg hne]
      split
      · next after hopen =>
        obtain ⟨ds, hds, _⟩ := hrest.mark (by decide) hopen
        exact absurd hds (hafter ds)
      · rfl

theorem stops_word (start : Nat) (c : Char) : Stops (scanWord start c) (start + c.utf8Size) := by
  intro cs
  have hspan := byteLength_span isWordChar cs
  have hhash : '#'.utf8Size = 1 := rfl
  have hcolon : ':'.utf8Size = 1 := rfl
  simp only [scanWord]
  split
  case h_1 after hafter | h_2 after hafter =>
    intro hk
    obtain ⟨hnext, happend⟩ := stops_member _ _ _ _ after hk
    rw [hafter] at hspan
    refine ⟨by simp only [Text.byteLength] at hspan hnext ⊢; omega, fun rest hrest => ?_⟩
    obtain ⟨htake, hdrop⟩ := span_extend cs hrest.isWordChar
    simp only [htake, hdrop, hafter, List.cons_append]
    exact happend rest hrest
  case h_3 hreference hgenerator =>
    intro hk
    split at hk
    · next kind hword =>
      refine ⟨by simp only [Text.byteLength]; omega, fun rest hrest => ?_⟩
      obtain ⟨htake, hdrop⟩ := span_extend cs hrest.isWordChar
      simp only [htake, hdrop]
      split
      · next after hafter =>
        obtain ⟨ds, hds, _⟩ := hrest.mark (by decide) hafter
        exact absurd hds (hreference ds)
      · next after hafter =>
        obtain ⟨ds, hds, hafter⟩ := hrest.mark (by decide) hafter
        obtain ⟨ds', rfl, _⟩ := hrest.mark (by decide) hafter.symm
        exact absurd hds (hgenerator ds')
      · simp only [hword]
    · exact absurd rfl (hk _)

theorem stops_angle (hc : c = '>' ∨ c = '<') (hequals : ∀ after, cs ≠ '=' :: after)
    (hrest : Ends rest) : scanOne start c (cs ++ rest) =
      ⟨.operator (if c = '>' then .greater else .less), start + 1, cs ++ rest⟩ := by
  refine scanOne_angle hc fun after hafter => ?_
  obtain ⟨ds, hds, _⟩ := hrest.mark (by decide) hafter
  exact hequals ds hds

theorem scanOne_of_number (h : (c.isDigit || (c == '-' && cs.head?.any Char.isDigit)) = true) :
    scanOne start c cs = scanNumber start c cs := by
  rw [Bool.or_eq_true, Bool.and_eq_true, beq_iff_eq, Option.any_eq_true] at h
  rcases h with hdigit | ⟨rfl, d, hd, hdigit⟩
  · exact scanOne_of_isDigit hdigit
  · obtain ⟨ds, rfl⟩ := List.head?_eq_some_iff.1 hd
    exact scanOne_minus hdigit

theorem stops_one (start : Nat) (c : Char) : Stops (scanOne start c) (start + c.utf8Size) := by
  intro cs
  have hmember (form : CallForm) := stops_member form none start
  fun_cases scanOne start c cs
  case case1 => exact hmember .reference (start + 1) cs
  case case2 cs =>
    intro hk
    obtain ⟨hnext, happend⟩ := hmember .generator (start + 2) cs hk
    refine ⟨hnext.trans ?_, happend⟩
    change start + 2 + Text.byteLength cs = start + 1 + (1 + Text.byteLength cs)
    omega
  case case3 => exact stops_string _ start cs
  case case4 => exact stops_string _ start cs
  case case5 | case6 | case7 | case8 => exact fun _ => ⟨rfl, fun _ _ => rfl⟩
  case case9 cs | case10 cs | case11 cs | case12 cs | case13 cs =>
    refine fun _ => ⟨?_, fun _ _ => rfl⟩
    change start + 2 + Text.byteLength cs = start + 1 + (1 + Text.byteLength cs)
    omega
  case case14 hequals => exact fun _ => ⟨rfl, fun _ => stops_angle (Or.inl rfl) hequals⟩
  case case15 hequals => exact fun _ => ⟨rfl, fun _ => stops_angle (Or.inr rfl) hequals⟩
  case case16 =>
    next hnumber =>
    intro hk
    obtain ⟨hnext, happend⟩ := stops_number start c cs hk
    refine ⟨hnext, fun rest hrest => ?_⟩
    rw [scanOne_of_number, happend rest hrest]
    cases cs with
    | nil => simpa using Or.inl (by simpa using hnumber)
    | cons d ds => exact hnumber
  case case17 =>
    intro hk
    obtain ⟨hnext, happend⟩ := stops_word start c cs hk
    refine ⟨hnext, fun rest hrest => ?_⟩
    rw [scanOne_of_isWordStart ‹isWordStart c = true›, happend rest hrest]
  case case18 => exact fun hk => absurd rfl (hk _)

/-- The lexemes of a text without a fault stay the same where the text goes on after a token. -/
theorem scan_append (hcs : ∀ l ∈ scan pos cs, ∀ e, l.kind ≠ .fault e) (hrest : Ends rest) :
    scan pos (cs ++ rest) = scan pos cs ++ scan (pos + Text.byteLength cs) rest := by
  fun_induction scan pos cs with
  | case1 => rfl
  | case2 pos c cs hc ih =>
    rw [List.cons_append, scan, if_pos hc, ih hcs, Text.byteLength, utf8Size_of_isBlank hc,
      Nat.add_assoc]
  | case3 pos c cs hc s ih =>
    obtain ⟨hkind, htail⟩ := List.forall_mem_cons.1 hcs
    obtain ⟨hnext, happend⟩ := stops_one pos c cs hkind
    rw [List.cons_append, scan, if_neg hc, happend rest hrest]
    change _ :: scan s.next (s.rest ++ rest) = _
    rw [ih htail, hnext, Nat.add_assoc]
    rfl

end Lexeme

namespace Gathered

theorem step_fault (g : Gathered) {l : Lexeme} {e : LexError} (hl : l.kind = .fault e) :
    ∃ e', g.step l = .error e' := by
  unfold step
  split
  · simp [stepOutside, hl]
  · next c calls hg => cases hc : c.awaited <;> simp [stepInside, hl, hc, refuse]

theorem kind_of_steps {ls : List Lexeme} {g g' : Gathered} (h : ls.foldlM step g = .ok g') :
    ∀ l ∈ ls, ∀ e, l.kind ≠ .fault e := by
  induction ls generalizing g with
  | nil => exact nofun
  | cons l ls ih =>
    rw [List.foldlM_cons] at h
    obtain ⟨g₁, hstep, h⟩ := bind_eq_ok.1 h
    refine List.forall_mem_cons.2 ⟨?_, ih h⟩
    intro e hl
    obtain ⟨e', hfault⟩ := g.step_fault hl
    rw [hfault] at hstep
    cases hstep

end Gathered

/-- Tokenizing goes on after blanks as at the start: with blanks between them, two texts have the tokens of
the first one and then those of the second one, at the offsets where these stand now. If the second one has
a fault, it is the same fault at the offset where it stands now. -/
theorem tokenize_append {a blanks b : String} {ts : List Token} (hblanks : IsBlanks blanks.toList)
    (hne : blanks ≠ "") (ha : tokenize a = .ok ts) :
    tokenize (a ++ blanks ++ b) = match tokenize b with
      | .ok us => .ok (ts ++ us.map (Token.shift (a ++ blanks).utf8ByteSize))
      | .error e => .error { e with position := e.position + (a ++ blanks).utf8ByteSize } := by
  obtain ⟨g, hsteps, hfinish⟩ := bind_eq_ok.1 ha
  have hends : Ends (blanks.toList ++ b.toList) := by
    obtain ⟨c, cs, hcs⟩ := List.exists_cons_of_ne_nil (mt String.toList_eq_nil_iff.1 hne)
    rw [hcs] at hblanks ⊢
    exact ends_of_isBlank (by simpa using hblanks c List.mem_cons_self)
  have hscan : Lexeme.scan 0 (a ++ blanks ++ b).toList =
      Lexeme.scan 0 a.toList ++
        (Lexeme.scan 0 b.toList).map (Lexeme.shift (a ++ blanks).utf8ByteSize) := by
    rw [String.toList_append, String.toList_append, List.append_assoc,
      Lexeme.scan_append (Gathered.kind_of_steps hsteps) hends, Lexeme.scan_blanks hblanks,
      Nat.add_assoc, ← Text.byteLength_append, ← String.toList_append, Text.byteLength_toList,
      Lexeme.scan_shift]
  have hg : g = Gathered.empty.behind (a ++ blanks).utf8ByteSize ts.reverse := by
    obtain ⟨finished, _ | ⟨c, calls⟩⟩ := g
    · cases hfinish
      simp [Gathered.behind, Gathered.empty]
    · cases hfinish
  rw [tokenize, gather, hscan, List.foldlM_append, hsteps]
  change List.foldlM _ g _ >>= Gathered.finish = _
  rw [hg, Gathered.steps_behind, tokenize, gather]
  cases (Lexeme.scan 0 b.toList).foldlM Gathered.step .empty with
  | error e => rfl
  | ok g' =>
    change (g'.behind _ _).finish = _
    rw [Gathered.finish_behind, List.reverse_reverse]
    change _ = match g'.finish with | .ok us => _ | .error e => _
    cases g'.finish <;> rfl

/-- The second text stands ten bytes further, in its list of arguments and where it has a fault as well. -/
theorem tokenize_twoCalls :
    tokenize ("#f('é')" ++ " \n" ++ "B::g(#h(-2))") = .ok [
      .mk (.call .reference none "f" (some [.mk (.literal (.str "é")) 3])) 0,
      .mk (.call .generator (some "B") "g" (some [
        .mk (.call .reference none "h" (some [.mk (.literal (.int (-2))) 18])) 15])) 10] ∧
    tokenize ("#f('é')" ++ " \n" ++ "B::g(1 2)") = .error ⟨.unknownSymbol '2', 17⟩ := by
  have hblanks : IsBlanks " \n".toList := by simp [IsBlanks, Text.isBlank]
  have hfirst : tokenize "#f('é')" =
      .ok [.mk (.call .reference none "f" (some [.mk (.literal (.str "é")) 3])) 0] := by
    have htext : "#f('é')" = String.ofList ['#', 'f', '(', '\'', 'é', '\'', ')'] := rfl
    rw [tokenize, gather, htext, String.toList_ofList]
    with_unfolding_all rfl
  have hcall : tokenize "B::g(#h(-2))" = .ok [.mk (.call .generator (some "B") "g" (some [
      .mk (.call .reference none "h" (some [.mk (.literal (.int (-2))) 8])) 5])) 0] := by with_unfolding_all rfl
  have hfault : tokenize "B::g(1 2)" = .error ⟨.unknownSymbol '2', 7⟩ := by with_unfolding_all rfl
  constructor
  · rw [tokenize_append hblanks (by decide) hfirst, hcall]
    rfl
  · rw [tokenize_append hblanks (by decide) hfirst, hfault]
    rfl

end ChatFlow.Expr
