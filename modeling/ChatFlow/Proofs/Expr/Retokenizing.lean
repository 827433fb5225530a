import ChatFlow.Proofs.Expr.Scanning
import ChatFlow.Proofs.Results

/-! Tokenizing a text gives back the tokens that it spells, each with the offset of its text. -/
namespace ChatFlow.Expr
variable {pos : Nat} {g g' : Gathered} {t : Token} {ts : List Token} {l : Lexeme} {c : OpenCall}
  {calls : List OpenCall} {cs rest blanks : List Char} {kind : LexemeKind}

theorem ends_blanks_append (hblanks : IsBlanks blanks) (hrest : Ends rest) :
    Ends (blanks ++ rest) := by
  cases blanks with
  | nil => exact hrest
  | cons b blanks =>
    rintro c ⟨⟩
    exact Or.inl (hblanks _ List.mem_cons_self)

theorem ends_closing : Ends (')' :: rest) := by
  rintro c ⟨⟩
  exact Or.inr (Or.inr rfl)

theorem ends_comma : Ends (',' :: rest) := by
  rintro c ⟨⟩
  exact Or.inr (Or.inl rfl)

namespace Gathered

/-- Gathers the lexemes of a text after those gathered before. -/
def read (g : Gathered) (pos : Nat) (cs : List Char) : Except LexError Gathered :=
  (Lexeme.scan pos cs).foldlM Gathered.step g

theorem read_nil (g : Gathered) (pos : Nat) : g.read pos [] = .ok g := by
  simp [read, Lexeme.scan, pure, Except.pure]

theorem read_blanks (hblanks : IsBlanks blanks) :
    g.read pos (blanks ++ rest) = g.read (pos + Text.byteLength blanks) rest := by
  rw [read, Lexeme.scan_blanks hblanks, read]

theorem read_lexeme (hcs : Lexeme.Fronts pos cs kind rest)
    (hstep : ∀ first, g.step ⟨kind, first, pos⟩ = .ok g') :
    g.read pos (cs ++ rest) = g'.read (pos + Text.byteLength cs) rest := by
  obtain ⟨first, hscan⟩ := hcs
  rw [read, hscan, List.foldlM_cons, hstep]
  rfl

/-- Whether a literal or a member may come next. -/
def Ready (g : Gathered) : Prop := ∀ c ∈ g.calls.head?, c.awaited ≠ .separator

theorem step_of_stepArgument? (hg : g.Ready) (h : g.stepArgument? l = some g') :
    g.step l = .ok g' := by
  rw [step]
  split
  · cases hl : l.kind <;> simp_all [stepOutside, stepArgument?]
  · next c calls hcalls =>
    have hc : c.awaited ≠ .separator := hg c (by rw [hcalls]; rfl)
    cases hl : l.kind <;> cases ha : c.awaited <;> simp_all [stepInside, stepArgument?]

theorem place_of_outside (hg : g.calls = []) (t : Token) : g.place t = ⟨t :: g.finished, []⟩ := by
  rw [place, hg]

theorem place_of_inside (hg : g.calls = c :: calls) (t : Token) :
    g.place t = ⟨g.finished, { c with args := t :: c.args, awaited := .separator } :: calls⟩ := by
  rw [place, hg]

theorem stepArgument?_call (g : Gathered) (form : CallForm) (owner : Option String) (name : String)
    (openedAt : Nat) (first : Char) (pos : Nat) :
    g.stepArgument? ⟨.call form owner name (some openedAt), first, pos⟩ =
      some (g.openCall ⟨form, owner, name, pos, openedAt, [], .firstArgument⟩) := rfl

/-- The call that a closing parenthesis ends, with its last arguments. -/
def closeWith (g : Gathered) (c : OpenCall) (calls : List OpenCall) (ts : List Token) : Gathered :=
  Gathered.place ⟨g.finished, calls⟩
    (.mk (.call c.form c.owner c.name (some (c.args.reverse ++ ts))) c.position)

theorem closeWith_cons (g : Gathered) (c : OpenCall) (calls calls' : List OpenCall) (t : Token)
    (ts : List Token) (awaited : Awaited) :
    Gathered.closeWith ⟨g.finished, calls'⟩ { c with args := t :: c.args, awaited := awaited } calls ts =
      g.closeWith c calls (t :: ts) := by
  simp [closeWith]

theorem closeWith_openCall (g : Gathered) (c : OpenCall) (hc : c.args = []) (ts : List Token) :
    (g.openCall c).closeWith c g.calls ts =
      g.place (.mk (.call c.form c.owner c.name (some ts)) c.position) := by
  rw [closeWith, hc]
  rfl

/-- A closing parenthesis ends the innermost list of arguments, unless a comma is before it. -/
theorem read_closing (hg : g.calls = c :: calls) (hc : c.awaited ≠ .argument) :
    g.read pos (')' :: rest) = (g.closeWith c calls []).read (pos + 1) rest := by
  have hstep : ∀ first, g.step ⟨.closing, first, pos⟩ = .ok (g.closeWith c calls []) := by
    intro first
    rw [step, hg]
    cases ha : c.awaited <;> simp [stepInside, ha, closeWith, OpenCall.close] at hc ⊢
  exact read_lexeme Lexeme.fronts_closing hstep

theorem read_comma (hg : g.calls = c :: calls) (hc : c.awaited = .separator) :
    g.read pos (',' :: rest) =
      Gathered.read ⟨g.finished, { c with awaited := .argument } :: calls⟩ (pos + 1) rest := by
  have hstep : ∀ first, g.step ⟨.comma, first, pos⟩ =
      .ok ⟨g.finished, { c with awaited := .argument } :: calls⟩ := by
    intro first
    rw [step, hg]
    simp [stepInside, hc]
  exact read_lexeme Lexeme.fronts_comma hstep

end Gathered

mutual

/-- Reading the text of a token that may be an argument places that token, wherever one may stand. -/
theorem read_of_spells {pos : Nat} {t : Token} {cs : List Char} (h : Spells pos t cs) (g : Gathered)
    (hg : g.Ready) (rest : List Char) (hrest : Ends rest) :
    g.read pos (cs ++ rest) = (g.place t).read (pos + Text.byteLength cs) rest := by
  cases h with
  | literal hv =>
    exact Gathered.read_lexeme (Lexeme.fronts_literal hv hrest)
      fun _ => Gathered.step_of_stepArgument? hg rfl
  | member howner hname =>
    exact Gathered.read_lexeme (Lexeme.fronts_member howner hname hrest)
      fun _ => Gathered.step_of_stepArgument? hg rfl
  | @call _ form owner name args inner howner hname hargs =>
    have hopening : '('.utf8Size = 1 := rfl
    have hclosing : ')'.utf8Size = 1 := rfl
    have hcall := Gathered.read_lexeme
      (@Lexeme.fronts_call pos (inner ++ ')' :: rest) form owner name howner hname)
      fun _ => Gathered.step_of_stepArgument? hg (g.stepArgument?_call ..)
    have hargs := read_of_spellsAll hargs (g.openCall ⟨form, owner, name, pos,
      pos + Text.byteLength (form.spell owner name).toList, [], .firstArgument⟩) rfl nofun
      (fun _ => rfl) rest
    have hstart : pos + Text.byteLength ((form.spell owner name).toList ++ ['(']) =
        pos + Text.byteLength (form.spell owner name).toList + 1 := by
      simp [Text.byteLength, hopening, Nat.add_assoc]
    rw [hstart, hargs] at hcall
    have hend : pos + Text.byteLength (form.spell owner name).toList + 1 +
        Text.byteLength inner + 1 =
        pos + Text.byteLength ((form.spell owner name).toList ++ '(' :: (inner ++ [')'])) := by
      simp [Text.byteLength, hopening, hclosing]
      omega
    rw [hend, Gathered.closeWith_openCall g _ rfl] at hcall
    simpa using hcall

/-- Reading a list of arguments up to its closing parenthesis closes the innermost open call. -/
theorem read_of_spellsAll {pos : Nat} {ts : List Token} {cs : List Char} (h : SpellsAll pos ts cs)
    (g : Gathered) {c : OpenCall} {calls : List OpenCall} (hg : g.calls = c :: calls)
    (hc : c.awaited ≠ .separator) (hnil : ts = [] → c.awaited = .firstArgument) (rest : List Char) :
    g.read pos (cs ++ ')' :: rest) =
      (g.closeWith c calls ts).read (pos + Text.byteLength cs + 1) rest := by
  have hready : g.Ready := by
    rw [Gathered.Ready, hg]
    rintro c ⟨⟩
    exact hc
  cases h with
  | nil hblanks =>
    rw [Gathered.read_blanks hblanks, Gathered.read_closing hg (by rw [hnil rfl]; decide)]
  | @last _ t before cs after hbefore ht hafter =>
    rw [List.append_assoc, Gathered.read_blanks hbefore, List.append_assoc,
      read_of_spells ht g hready _ (ends_blanks_append hafter ends_closing),
      Gathered.place_of_inside hg, Gathered.read_blanks hafter, Gathered.read_closing rfl (by simp),
      Gathered.closeWith_cons]
    simp only [Text.byteLength_append, Nat.add_assoc]
  | @cons _ t t' ts before cs after inner hbefore ht hafter hts =>
    have hcomma : ','.utf8Size = 1 := rfl
    rw [List.append_assoc, Gathered.read_blanks hbefore, List.append_assoc, List.append_assoc,
      List.cons_append, read_of_spells ht g hready _ (ends_blanks_append hafter ends_comma),
      Gathered.place_of_inside hg, Gathered.read_blanks hafter, Gathered.read_comma rfl rfl]
    have hargs := read_of_spellsAll hts
      ⟨g.finished, { c with args := t :: c.args, awaited := .argument } :: calls⟩ rfl nofun nofun rest
    have hstart : pos + Text.byteLength before + Text.byteLength cs + Text.byteLength after + 1 =
        pos + Text.byteLength (before ++ (cs ++ after)) + 1 := by
      simp only [Text.byteLength_append, Nat.add_assoc]
    have hend : pos + Text.byteLength (before ++ (cs ++ after)) + 1 + Text.byteLength inner + 1 =
        pos + Text.byteLength (before ++ (cs ++ (after ++ ',' :: inner))) + 1 := by
      simp only [Text.byteLength_append, Text.byteLength, hcomma]
      omega
    rw [hstart, hargs, hend, Gathered.closeWith_cons]

end

/-- Outside of every list of arguments, the text of any token places that token. -/
theorem Shows.read (h : Shows pos t cs) (hg : g.calls = []) (hrest : Ends rest) :
    g.read pos (cs ++ rest) = (g.place t).read (pos + Text.byteLength cs) rest := by
  have hready : g.Ready := by
    rw [Gathered.Ready, hg]
    exact nofun
  have houtside : ∀ l, g.step l = g.stepOutside l := by
    intro l
    rw [Gathered.step, hg]
  cases h with
  | argument ht => exact read_of_spells ht g hready rest hrest
  | operator hcs => exact Gathered.read_lexeme (Lexeme.fronts_operator hcs hrest) fun _ => houtside _
  | keyword hcs => exact Gathered.read_lexeme (Lexeme.fronts_keyword hcs hrest) fun _ => houtside _
  | opening => exact Gathered.read_lexeme Lexeme.fronts_opening fun _ => houtside _
  | closing => exact Gathered.read_lexeme Lexeme.fronts_closing fun _ => houtside _

theorem Renders.read (h : Renders pos ts cs) (hg : g.calls = []) :
    g.read pos cs = .ok ⟨ts.reverse ++ g.finished, []⟩ := by
  induction h generalizing g with
  | @nil pos blanks hblanks =>
    rw [← List.append_nil blanks, Gathered.read_blanks hblanks, Gathered.read_nil, ← hg]
    rfl
  | @cons pos t ts before cs rest hbefore ht hts hrest ih =>
    rw [Gathered.read_blanks hbefore, ht.read hg (ends_of_isBlank hrest),
      Gathered.place_of_outside hg, Nat.add_assoc, ← Text.byteLength_append, ih rfl]
    simp

/-- Tokenizing undoes rendering: a text gives back the tokens that it spells, those in lists of
arguments too, each with the byte offset at which its text starts. -/
theorem tokenize_of_renders {text : String} (h : Renders 0 ts text.toList) :
    tokenize text = .ok ts := by
  have hread : (Lexeme.scan 0 text.toList).foldlM Gathered.step .empty = .ok ⟨ts.reverse ++ [], []⟩ :=
    h.read rfl
  rw [tokenize, gather, hread]
  simp [Gathered.finish, bind, Except.bind]

theorem tokenize_nestedCall :
    tokenize "iF user#age( \"é\\\"\" ,::any()) aNd -7" = .ok [
      .mk (.keyword .ifWord) 0,
      .mk (.call .reference (some "user") "age" (some [
        .mk (.literal (.str "é\"")) 13, .mk (.call .generator none "any" (some [])) 21])) 3,
      .mk (.operator .and) 30, .mk (.literal (.int (-7))) 34] := by
  have hnone : IsBlanks [] := by simp [IsBlanks]
  have hblank : IsBlanks [' '] := by simp [IsBlanks, Text.isBlank]
  have howner : ∀ o, some "user" = some o → IsOwner o := by
    rintro o ⟨⟩
    exact ⟨'u', ['s', 'e', 'r'], rfl, rfl, List.all_eq_true.1 rfl⟩
  have hname : IsName "any" ∧ IsName "age" :=
    ⟨⟨by decide, List.all_eq_true.1 rfl⟩, by decide, List.all_eq_true.1 rfl⟩
  have hnext : ∀ c ∈ some ' ', Text.isBlank c = true := by
    rintro c ⟨⟩
    rfl
  have hif : Shows 0 (.mk (.keyword .ifWord) 0) ['i', 'F'] := .keyword rfl
  have hstring : Spells 13 (.mk (.literal (.str "é\"")) 13) ['"', 'é', '\\', '"', '"'] := .literal rfl
  have hany := @Spells.call 21 .generator none "any" _ _ (by simp) hname.1 (.nil hnone)
  have huser := @Spells.call 3 .reference (some "user") "age" _ _ howner hname.2
    (.cons hblank hstring hblank (.last hnone hany hnone))
  have hand : Shows 30 (.mk (.operator .and) 30) ['a', 'N', 'd'] := .operator rfl
  have hseven : Spells 34 (.mk (.literal (.int (-7))) 34) ['-', '7'] := .literal rfl
  have hend := @Renders.cons 33 _ _ _ _ _ hblank (.argument hseven) (.nil hnone) (by simp)
  have hright := @Renders.cons 29 _ _ _ _ _ hblank hand hend hnext
  have hcall := @Renders.cons 2 _ _ _ _ _ hblank (.argument huser) hright hnext
  exact tokenize_of_renders (@Renders.cons 0 _ _ _ _ _ hnone hif hcall hnext)

end ChatFlow.Expr
