import ChatFlow.Proofs.Expr.Scanning
import ChatFlow.Proofs.Form.Atoms

/-! Forms that are displayed one behind the other are read back as they are. -/
namespace ChatFlow.Form
open Number render
variable {pos : Nat} {c : Char} {cs gap rest : List Char} {f : Form} {fs : List Form}
  {kind : LexemeKind} {n n₁ n₂ : Nesting}

/-- Whether a character of a string is displayed as it is, or by an escape that is read. -/
def IsPlainChar (c : Char) : Prop :=
  Text.quoteChar c = [c] ∨ c ∈ ['"', '\\', '\n', '\t']

/-- Whether an atom is no floating-point number, and no string with any but plain characters. -/
def IsPlain : Form → Prop
  | string text => ∀ c ∈ text.toList, IsPlainChar c
  | float _ => False
  | _ => True

/-- What may stand between forms: blanks, and comments that end with their line. -/
inductive Gap : List Char → Prop where
  | nil : Gap []
  | blank {c : Char} {cs : List Char} (hc : Text.isBlank c = true) (h : Gap cs) : Gap (c :: cs)
  | comment {body cs : List Char} (hbody : '\n' ∉ body) (h : Gap cs) :
      Gap (';' :: (body ++ '\n' :: cs))

/-- Whether a text displays forms in their order, with a gap behind each but the last one. -/
inductive Joined : List Form → List Char → Prop where
  | nil : Joined [] []
  | last (f : Form) : Joined [f] f.render.toList
  | cons {f : Form} {fs : List Form} {gap cs : List Char} (hgap : Gap gap) (hne : gap ≠ [])
      (h : Joined fs cs) : Joined (f :: fs) (f.render.toList ++ (gap ++ cs))

/-- Whether a text can follow a word. -/
def Ends (rest : List Char) : Prop :=
  ∀ c ∈ rest.head?, Lexeme.isSymbolChar c = false

theorem Gap.ends (h : Gap gap) (hne : gap ≠ []) (cs : List Char) : Ends (gap ++ cs) := by
  cases h with
  | nil => exact absurd rfl hne
  | blank hc _ =>
    rintro _ ⟨⟩
    simp [Lexeme.isSymbolChar, hc]
  | comment _ _ =>
    rintro _ ⟨⟩
    decide

namespace Lexeme

/-- Whether a text starts with one lexeme, wherever the text stands. -/
def Fronts (cs : List Char) (kind : LexemeKind) (rest : List Char) : Prop :=
  ∀ pos, ∃ next, scan pos (cs ++ rest) = ⟨kind, pos⟩ :: scan next rest

theorem fronts_of_scanOne (hblank : Text.isBlank c = false) (hcomment : c ≠ ';')
    (h : ∀ pos, ∃ next, scanOne pos c (cs ++ rest) = ⟨kind, next, rest⟩) :
    Fronts (c :: cs) kind rest := by
  intro pos
  obtain ⟨next, h⟩ := h pos
  refine ⟨next, ?_⟩
  rw [List.cons_append, scan, if_neg (by simp [hblank]), if_neg hcomment, h]

theorem scan_gap (h : Gap gap) (pos : Nat) : ∃ next, scan pos (gap ++ rest) = scan next rest := by
  induction h generalizing pos with
  | nil => exact ⟨pos, rfl⟩
  | blank hc _ ih =>
    obtain ⟨next, ih⟩ := ih (pos + 1)
    exact ⟨next, by rw [List.cons_append, scan, if_pos hc, ih]⟩
  | @comment body cs hbody _ ih =>
    have hline : ∀ c ∈ body, (decide (c ≠ '\n')) = true :=
      fun c hc => decide_eq_true (ne_of_mem_of_not_mem hc hbody)
    obtain ⟨htake, hdrop⟩ := @Expr.span_append body ('\n' :: (cs ++ rest)) _ hline (by simp)
    obtain ⟨next, ih⟩ := ih (pos + 1 + Text.byteLength body + 1)
    refine ⟨next, ?_⟩
    rw [List.cons_append, List.append_assoc, List.cons_append, scan, if_neg (by decide), if_pos rfl,
      htake, hdrop, scan, if_pos (by decide), ih]

theorem fronts_word (h : IsWordOf cs f) (hrest : Ends rest) : Fronts cs (.atom f) rest := by
  obtain ⟨c, cs, rfl⟩ := List.exists_cons_of_ne_nil h.ne_nil
  obtain ⟨hc, hcs⟩ := List.forall_mem_cons.1 h.isSymbolChar
  obtain ⟨hblank, hcomment, hopening, hclosing, hquote⟩ := isSymbolChar_iff.1 hc
  obtain ⟨htake, hdrop⟩ := Expr.span_append hcs hrest
  refine fronts_of_scanOne hblank hcomment fun pos => ⟨pos + Text.byteLength (c :: cs), ?_⟩
  unfold scanOne
  split
  · exact absurd rfl hopening
  · exact absurd rfl hclosing
  · exact absurd rfl hquote
  · exact absurd rfl (h.not_keyword _ rfl)
  · dsimp only
    rw [htake, hdrop, h.word_eq, ofResult]

theorem fronts_keyword (hne : cs ≠ []) (hcs : ∀ c ∈ cs, isSymbolChar c = true) (hrest : Ends rest) :
    Fronts (':' :: cs) (.atom (.keyword (String.ofList cs))) rest := by
  obtain ⟨htake, hdrop⟩ := Expr.span_append hcs hrest
  refine fronts_of_scanOne rfl (by decide) fun pos => ⟨pos + 1 + Text.byteLength cs, ?_⟩
  rw [scanOne, htake, hdrop, if_neg hne]

theorem readString_quote (hcs : ∀ c ∈ cs, IsPlainChar c) (opened pos : Nat) (rest : List Char) :
    ∃ next, readString opened pos (cs.flatMap Text.quoteChar ++ '"' :: rest) =
      .ok (cs, next, rest) := by
  induction cs generalizing pos with
  | nil => exact ⟨pos + 1, by rw [List.flatMap_nil, List.nil_append, readString]⟩
  | cons c cs ih =>
    obtain ⟨hc, hcs⟩ := List.forall_mem_cons.1 hcs
    rw [List.flatMap_cons, List.append_assoc]
    by_cases hescape : c ∈ ['"', '\\', '\n', '\t']
    · obtain ⟨next, ih⟩ := ih hcs (pos + 2)
      refine ⟨next, ?_⟩
      simp only [List.mem_cons, List.not_mem_nil, or_false] at hescape
      rcases hescape with rfl | rfl | rfl | rfl <;>
        simp only [Text.quoteChar, List.cons_append, List.nil_append, readString, unescape?, ih] <;> rfl
    · obtain ⟨next, ih⟩ := ih hcs (pos + c.utf8Size)
      refine ⟨next, ?_⟩
      rw [hc.resolve_right hescape, List.singleton_append]
      simp only [List.mem_cons, List.not_mem_nil, or_false, not_or] at hescape
      rw [readString.eq_def]
      split <;> simp_all

theorem fronts_string (hcs : ∀ c ∈ cs, IsPlainChar c) :
    Fronts ('"' :: (cs.flatMap Text.quoteChar ++ ['"'])) (.atom (.string (String.ofList cs))) rest := by
  refine fronts_of_scanOne rfl (by decide) fun pos => ?_
  obtain ⟨next, h⟩ := readString_quote hcs pos (pos + 1) rest
  refine ⟨next, ?_⟩
  rw [List.append_assoc, List.singleton_append, scanOne, scanString, h]

theorem isSymbolChar_of_isDigit (h : c.isDigit = true) : isSymbolChar c = true := by
  refine isSymbolChar_iff.2 ⟨Expr.isBlank_of_isWordChar (Expr.isWordChar_of_isDigit h), ?_⟩
  refine ⟨?_, ?_, ?_, ?_⟩ <;> rintro rfl <;> exact absurd h (by decide)

theorem isWordOf_int (n : Int64) : IsWordOf (toString n.toInt).toList (.int n) := by
  have hdigit : ∀ c ∈ Nat.toDigits 10 n.toInt.natAbs, c.isDigit = true :=
    fun c => isDigit_of_mem_toDigits
  have hsymbol : ∀ c ∈ Nat.toDigits 10 n.toInt.natAbs, isSymbolChar c = true :=
    fun c hc => isSymbolChar_of_isDigit (hdigit c hc)
  have hvalue : int64? (n.toInt < 0) (digitsValue (Nat.toDigits 10 n.toInt.natAbs)) = some n := by
    rw [digitsValue_toDigits]
    exact int64?_natAbs n
  obtain ⟨htake, hdrop⟩ := @Expr.span_append _ [] _ hdigit nofun
  rw [List.append_nil] at htake hdrop
  have hne := Nat.toDigits_ne_nil (n := n.toInt.natAbs) (b := 10)
  rw [toList_toString]
  split
  · next hn =>
    refine ⟨List.cons_ne_nil _ _, List.forall_mem_cons.2 ⟨by decide, hsymbol⟩, by simp, fun finish => ?_⟩
    rw [decide_eq_true hn] at hvalue
    simp [word, number?, htake, hdrop, hne, hvalue]
  · next hn =>
    obtain ⟨c, cs, hcs⟩ := List.exists_cons_of_ne_nil hne
    rw [hcs] at hdigit hsymbol hvalue htake hdrop hne ⊢
    have hc := hdigit c List.mem_cons_self
    have hne' : ∀ d : Char, d.isDigit = false → (c == d) = false := by
      intro d hd
      refine beq_eq_false_iff_ne.2 fun h => ?_
      rw [h, hd] at hc
      cases hc
    refine ⟨hne, hsymbol, by simpa using hne' ':' (by decide), fun finish => ?_⟩
    rw [decide_eq_false hn] at hvalue
    simp [word, number?, htake, hdrop, hne' '-' (by decide), hne' '+' (by decide), hvalue]

theorem isWordOf_bool (b : Bool) : IsWordOf (render (.bool b)).toList (.bool b) := by
  cases b with
  | false =>
    change IsWordOf ['f', 'a', 'l', 's', 'e'] _
    exact ⟨List.cons_ne_nil _ _, List.all_eq_true.1 rfl, by simp, fun _ => rfl⟩
  | true =>
    change IsWordOf ['t', 'r', 'u', 'e'] _
    exact ⟨List.cons_ne_nil _ _, List.all_eq_true.1 rfl, by simp, fun _ => rfl⟩

end Lexeme

namespace Nesting

/-- What a nesting becomes by the lexemes of a text. -/
def read (n : Nesting) (pos : Nat) (cs : List Char) : Except ReadError Nesting :=
  (Lexeme.scan pos cs).foldlM step n

/-- Whether a text in front of another one takes a nesting to the next, wherever it stands. -/
def Passes (n : Nesting) (cs : List Char) (n' : Nesting) (rest : List Char) : Prop :=
  ∀ pos, ∃ next, n.read pos (cs ++ rest) = n'.read next rest

theorem Passes.append {cs' : List Char} (h : Passes n cs n₁ (cs' ++ rest))
    (h' : Passes n₁ cs' n₂ rest) : Passes n (cs ++ cs') n₂ rest := by
  intro pos
  obtain ⟨next, h⟩ := h pos
  obtain ⟨next', h'⟩ := h' next
  exact ⟨next', by rw [List.append_assoc, h, h']⟩

theorem passes_gap (h : Gap gap) : Passes n gap n rest := by
  intro pos
  obtain ⟨next, h⟩ := Lexeme.scan_gap h pos
  exact ⟨next, by rw [read, h, read]⟩

theorem read_of_fronts (n : Nesting) (h : Lexeme.Fronts cs kind rest) (pos : Nat) :
    ∃ next, n.read pos (cs ++ rest) = n.step ⟨kind, pos⟩ >>= fun n' => n'.read next rest := by
  obtain ⟨next, h⟩ := h pos
  exact ⟨next, by rw [read, h, List.foldlM_cons]; rfl⟩

theorem passes_atom (h : Lexeme.Fronts cs (.atom f) rest) : Passes n cs (n.place f) rest :=
  fun pos => n.read_of_fronts h pos

/-- Forms that are placed in an open list stand there in reverse. -/
theorem foldl_place (fs : List Form) (finished : List Form) (o : OpenList) (lists : List OpenList) :
    fs.foldl place ⟨finished, o :: lists⟩ =
      ⟨finished, { o with items := fs.reverse ++ o.items } :: lists⟩ := by
  induction fs generalizing o with
  | nil => rfl
  | cons f fs ih => rw [List.foldl_cons, place, ih, List.reverse_cons, List.append_assoc]; rfl

theorem foldl_place_finished (fs finished : List Form) :
    fs.foldl place ⟨finished, []⟩ = ⟨fs.reverse ++ finished, []⟩ := by
  induction fs generalizing finished with
  | nil => rfl
  | cons f fs ih => rw [List.foldl_cons, place, ih, List.reverse_cons, List.append_assoc]; rfl

/-- The content between two parentheses becomes one form. -/
theorem passes_list (h : ∀ n, Passes n cs (fs.foldl place n) (')' :: rest)) :
    Passes n ('(' :: (cs ++ [')'])) (n.place (.list fs)) rest := by
  intro pos
  have hopening : Lexeme.Fronts ['('] .opening (cs ++ ')' :: rest) :=
    Lexeme.fronts_of_scanOne rfl (by decide) fun pos => ⟨pos + 1, rfl⟩
  have hclosing : Lexeme.Fronts [')'] .closing rest :=
    Lexeme.fronts_of_scanOne rfl (by decide) fun pos => ⟨pos + 1, rfl⟩
  let opened : Nesting := { n with lists := ⟨pos, []⟩ :: n.lists }
  let filled : Nesting := { n with lists := ⟨pos, fs.reverse⟩ :: n.lists }
  have hfilled : fs.foldl place opened = filled := by
    rw [foldl_place, List.append_nil]
  obtain ⟨inside, hinside⟩ := n.read_of_fronts hopening pos
  obtain ⟨behind, hbehind⟩ := h opened inside
  obtain ⟨next, hnext⟩ := filled.read_of_fronts hclosing behind
  refine ⟨next, ?_⟩
  calc n.read pos ('(' :: (cs ++ [')']) ++ rest)
      = n.read pos (['('] ++ (cs ++ ')' :: rest)) := by simp
    _ = opened.read inside (cs ++ ')' :: rest) := hinside
    _ = filled.read behind (')' :: rest) := by rw [hbehind, hfilled]
    _ = (n.place (.list fs.reverse.reverse)).read next rest := hnext
    _ = (n.place (.list fs)).read next rest := by rw [List.reverse_reverse]

mutual

theorem passes_render : ∀ (f : Form) (n : Nesting) (rest : List Char),
    (∀ a ∈ f.atoms, a.Nameable ∧ a.IsPlain) → Ends rest →
    Passes n f.render.toList (n.place f) rest
  | .symbol name, n, rest, h, hrest => by
    obtain ⟨hname, _⟩ := h _ List.mem_cons_self
    exact passes_atom (Lexeme.fronts_word hname hrest)
  | .keyword name, n, rest, h, hrest => by
    obtain ⟨⟨hne, hname⟩, _⟩ := h _ List.mem_cons_self
    have hfronts := Lexeme.fronts_keyword hne hname hrest
    rw [String.ofList_toList] at hfronts
    rw [Form.render, String.toList_append]
    exact passes_atom hfronts
  | .string text, n, rest, h, _ => by
    obtain ⟨_, hplain⟩ := h _ List.mem_cons_self
    have hfronts := @Lexeme.fronts_string _ rest hplain
    rw [String.ofList_toList] at hfronts
    rw [Form.render, Text.quote, String.toList_ofList]
    exact passes_atom hfronts
  | .int number, n, rest, _, hrest => passes_atom (Lexeme.fronts_word (Lexeme.isWordOf_int number) hrest)
  | .float number, n, rest, h, _ => (h _ List.mem_cons_self).2.elim
  | .bool flag, n, rest, _, hrest => passes_atom (Lexeme.fronts_word (Lexeme.isWordOf_bool flag) hrest)
  | .list items, n, rest, h, _ => by
    have hends : Ends (')' :: rest) := by
      rintro _ ⟨⟩
      decide
    rw [Form.render, String.toList_append, String.toList_append]
    exact passes_list fun n => passes_items items n _ h hends

theorem passes_items : ∀ (items : List Form) (n : Nesting) (rest : List Char),
    (∀ a ∈ atomsOfAll items, a.Nameable ∧ a.IsPlain) → Ends rest →
    Passes n (" ".intercalate (renderItems items)).toList (items.foldl place n) rest
  | [], n, rest, _, _ => fun pos => ⟨pos, rfl⟩
  | [f], n, rest, h, hrest => by
    rw [renderItems, renderItems, String.intercalate_singleton]
    rw [atomsOfAll, atomsOfAll, List.append_nil] at h
    exact passes_render f n rest h hrest
  | f :: g :: fs, n, rest, h, hrest => by
    rw [atomsOfAll] at h
    have hf := passes_render f n (' ' :: (" ".intercalate (renderItems (g :: fs))).toList ++ rest)
      (fun a ha => h a (List.mem_append_left _ ha)) (by rintro _ ⟨⟩; decide)
    have hrest' := passes_items (g :: fs) (n.place f) rest
      (fun a ha => h a (List.mem_append_right _ ha)) hrest
    have hblank : Passes (n.place f) [' '] (n.place f)
      ((" ".intercalate (renderItems (g :: fs))).toList ++ rest) := passes_gap (.blank rfl .nil)
    have hcons : (" ".intercalate (renderItems (f :: g :: fs))).toList =
        f.render.toList ++ ([' '] ++ (" ".intercalate (renderItems (g :: fs))).toList) := by
      simp [renderItems, String.intercalate_cons_cons]
    rw [hcons]
    exact hf.append (hblank.append hrest')

end

theorem passes_joined (h : Joined fs cs) (hfs : ∀ f ∈ fs, ∀ a ∈ f.atoms, a.Nameable ∧ a.IsPlain)
    (n : Nesting) : Passes n cs (fs.foldl place n) [] := by
  induction h generalizing n with
  | nil => exact fun pos => ⟨pos, rfl⟩
  | last f => exact passes_render f n [] (hfs f List.mem_cons_self) nofun
  | @cons f fs gap cs hgap hne _ ih =>
    obtain ⟨hf, hfs⟩ := List.forall_mem_cons.1 hfs
    have hends : Ends (gap ++ cs ++ []) := List.append_nil _ ▸ hgap.ends hne cs
    exact (passes_render f n _ hf hends).append ((passes_gap hgap).append (ih hfs (n.place f)))

end Nesting

/-- Forms that occur in documents are read back from a text that displays them, if they have no
floating-point numbers and no strings with characters whose escapes are not read. -/
theorem readAll_of_joined {text : String}
    (hread : ∀ f ∈ fs, ∃ source forms, readAll source = .ok forms ∧ f.Within forms)
    (hplain : ∀ f ∈ fs, ∀ a ∈ f.atoms, a.IsPlain) (h : Joined fs text.toList) :
    readAll text = .ok fs := by
  have hfs : ∀ f ∈ fs, ∀ a ∈ f.atoms, a.Nameable ∧ a.IsPlain := by
    intro f hf a ha
    obtain ⟨source, forms, hsource, hwithin⟩ := hread f hf
    exact ⟨hwithin.forall_atoms (nameable_of_readAll hsource) a ha, hplain f hf a ha⟩
  obtain ⟨next, hpass⟩ := Nesting.passes_joined h hfs .empty 0
  have hend : (fs.foldl Nesting.place .empty).read next [] = .ok ⟨fs.reverse, []⟩ := by
    rw [Nesting.empty, Nesting.foldl_place_finished, List.append_nil, Nesting.read, Lexeme.scan]
    rfl
  rw [List.append_nil, hend] at hpass
  change Nesting.read .empty 0 text.toList >>= Nesting.finish = _
  rw [hpass]
  change Except.ok fs.reverse.reverse = _
  rw [List.reverse_reverse]

theorem readAll_noteAndFlag :
    readAll "(note :k:x -3 (\"say \\\"hé\\\"\\n\") 3rd) ; end\n\ttrue" =
      .ok [.list [.symbol "note", .keyword "k:x", .int (-3), .list [.string "say \"hé\"\n"],
        .symbol "3rd"], .bool true] := by
  have hnote : readAll "( note :k:x -03 (\"say \\\"hé\\\"\n\") 3rd)" =
      .ok [.list [.symbol "note", .keyword "k:x", .int (-3), .list [.string "say \"hé\"\n"],
        .symbol "3rd"]] := by with_unfolding_all rfl
  have hflag : readAll "(flag true)" = .ok [.list [.symbol "flag", .bool true]] := by with_unfolding_all rfl
  have hend : Gap (' ' :: ';' :: ([' ', 'e', 'n', 'd'] ++ '\n' :: ['\t'])) :=
    .blank rfl (.comment (by simp) (.blank rfl .nil))
  apply readAll_of_joined
  · simp only [List.forall_mem_cons, List.not_mem_nil, false_imp_iff, implies_true, and_true]
    exact ⟨⟨_, _, hnote, .here List.mem_cons_self⟩,
      ⟨_, _, hflag, .inside List.mem_cons_self (.here (by simp))⟩⟩
  · simp [atoms, atomsOfAll, IsPlain, IsPlainChar]
    and_intros <;> decide +kernel
  · have htext : "(note :k:x -3 (\"say \\\"hé\\\"\\n\") 3rd) ; end\n\ttrue".toList =
        (render (.list [.symbol "note", .keyword "k:x", .int (-3), .list [.string "say \"hé\"\n"],
          .symbol "3rd"])).toList ++ (" ; end\n\t".toList ++ (render (.bool true)).toList) := by
      decide +kernel
    rw [htext]
    exact .cons hend (List.cons_ne_nil _ _) (.last _)

end ChatFlow.Form
