import ChatFlow.Proofs.Expr.Printing
import ChatFlow.Proofs.Results
import Mathlib.Data.List.Forall2

/-! Parsing the tokens of a printed expression gives the expression back. -/
namespace ChatFlow.Expr
variable {p p' q r : Parsing} {frames : List Frame} {tokens more : List Sketch} {s : Sketch}
  {t : Token} {op : Operator} {left x guard body : Ast} {position floor k : Nat}
  {earlier branches rest : List (Ast × Ast)} {P P' : TokenKind → Prop}

theorem Operator.precedence_pos (op : Operator) : 0 < op.precedence := by cases op <;> decide

namespace Parsing

/-- Whether two states of parsing go on alike with every token of some kinds, and alike at the end. -/
structure Alike (P : TokenKind → Prop) (p q : Parsing) : Prop where
  step_eq : ∀ t, P t.kind → p.step t = q.step t
  result_eq : ∀ finish, p.result finish = q.result finish

theorem Alike.refl (P : TokenKind → Prop) (p : Parsing) : Alike P p p :=
  ⟨fun _ _ => rfl, fun _ => rfl⟩

theorem Alike.trans (h : Alike P p q) (h' : Alike P q r) : Alike P p r :=
  ⟨fun t ht => (h.step_eq t ht).trans (h'.step_eq t ht),
    fun finish => (h.result_eq finish).trans (h'.result_eq finish)⟩

theorem Alike.imp (hP : ∀ kind, P' kind → P kind) (h : Alike P p q) : Alike P' p q :=
  ⟨fun t ht => h.step_eq t (hP t.kind ht), h.result_eq⟩

/-- The tokens that find an expression of a strength finished: no tighter operator. -/
def EndsAt (strength : Nat) (kind : TokenKind) : Prop :=
  ∀ op, kind = .operator op → op.precedence ≤ strength

theorem endsAt_of_closing {kind : TokenKind} (h : kind = .closing) : EndsAt k kind := by
  subst h
  rintro op ⟨⟩

/-- Whether an operator of a strength may start a new operation on top of the frames. -/
def Open (strength : Nat) : List Frame → Prop
  | .right op .. :: _ => op.precedence < strength
  | _ => True

theorem Open.reduce (h : Open floor frames) (x : Ast) :
    Parsing.reduce floor frames x = (frames, x) := by
  unfold Parsing.reduce
  split
  · exact if_neg (Nat.not_le_of_lt h)
  · rfl

theorem Open.mono (hk : floor ≤ k) (h : Open floor frames) : Open k frames := by
  cases frames with
  | nil => trivial
  | cons f _ =>
    cases f with
    | right op left position => exact Nat.lt_of_lt_of_le h hk
    | _ => trivial

/-- A pending operation is as good as a finished one, unless a tighter operator follows. -/
theorem alike_operation : Alike (EndsAt op.precedence) ⟨.right op left position :: frames, some x⟩
    ⟨frames, some (.operation op left x position)⟩ := by
  refine ⟨?_, fun _ => rfl⟩
  intro t ht
  cases hk : t.kind with
  | operator op' =>
    simp only [step, hk, reduce, ht op' hk, if_true]
  | _ => simp only [step, hk, close]

/-- So is a conditional that may still get another branch, when parentheses are closed after it. -/
theorem alike_body : Alike (· = .closing) ⟨.body earlier guard position :: frames, some x⟩
    ⟨frames, some (.conditional (earlier ++ [(guard, x)]) none position)⟩ := by
  refine ⟨?_, fun _ => rfl⟩
  intro t ht
  simp only [step, ht, close]

theorem alike_otherwise : Alike (· = .closing) ⟨.otherwise branches position :: frames, some x⟩
    ⟨frames, some (.conditional branches (some x) position)⟩ := by
  refine ⟨?_, fun _ => rfl⟩
  intro t ht
  simp only [step, ht, close]

/-- Whether some tokens, wherever the free ones stand, take one state to another, as far as tokens of
some kinds can tell. -/
def Reads (p : Parsing) (tokens : List Sketch) (P : TokenKind → Prop) (q : Parsing) : Prop :=
  ∀ ts, List.Forall₂ Sketch.Allows tokens ts → ∃ p', ts.foldlM step p = .ok p' ∧ Alike P p' q

theorem reads_nil (h : Alike P p q) : Reads p [] P q := by
  intro ts hts
  cases hts
  exact ⟨p, rfl, h⟩

theorem reads_cons (h : ∀ t, s.Allows t → ∃ p', p.step t = .ok p' ∧ Reads p' tokens P q) :
    Reads p (s :: tokens) P q := by
  intro ts hts
  cases hts with
  | cons ht hts =>
    obtain ⟨p', hstep, hreads⟩ := h _ ht
    obtain ⟨p'', hfold, halike⟩ := hreads _ hts
    refine ⟨p'', ?_, halike⟩
    rw [List.foldlM_cons, hstep]
    exact hfold

theorem Reads.imp (hq : Alike P q r) (hP : ∀ kind, P kind → P' kind) (h : Reads p tokens P' q) :
    Reads p tokens P r := by
  intro ts hts
  obtain ⟨p', hfold, halike⟩ := h ts hts
  exact ⟨p', hfold, (halike.imp hP).trans hq⟩

/-- Tokens are read on from any state that goes on alike with the first of them. -/
theorem Reads.append (h : Reads p tokens P q) (hs : P s.kind) (hmore : Reads q (s :: more) P' r) :
    Reads p (tokens ++ s :: more) P' r := by
  intro ts hts
  have hbefore := (List.forall₂_take_append ts tokens (s :: more) hts.flip).flip
  have hafter := (List.forall₂_drop_append ts tokens (s :: more) hts.flip).flip
  obtain ⟨p', hfold, halike⟩ := h _ hbefore
  obtain ⟨p'', hrest, hend⟩ := hmore _ hafter
  refine ⟨p'', ?_, hend⟩
  rw [← List.take_append_drop tokens.length ts, List.foldlM_append, hfold]
  obtain ⟨t, after, ht, _, hts⟩ := List.forall₂_cons_left_iff.1 hafter
  rw [hts, List.foldlM_cons] at hrest
  rw [hts]
  change (t :: after).foldlM step p' = _
  rwa [List.foldlM_cons, halike.step_eq t (ht.1 ▸ hs)]

end Parsing

open Parsing

/-- What reading the tokens of an expression comes to, as an operand and as the content of parentheses
or of the whole text. -/
structure Ast.Reread (x : Ast) : Prop where
  operand : ∀ {frames}, x.strength ≠ 0 → Open x.strength frames →
    Reads ⟨frames, none⟩ x.print (EndsAt x.strength) ⟨frames, some x⟩
  content : ∀ {frames}, (frames = [] ∨ ∃ position rest, frames = .group position :: rest) →
    Reads ⟨frames, none⟩ x.print (· = .closing) ⟨frames, some x⟩

/-- With the parentheses that it needs, an expression is an operand anywhere. -/
theorem Ast.Reread.printAt (hx : x.Reread) (hf : Open floor frames) (hpos : 0 < floor) :
    Reads ⟨frames, none⟩ (x.printAt floor) (EndsAt floor) ⟨frames, some x⟩ := by
  unfold Ast.printAt Ast.enclose
  split
  · refine reads_cons fun t ht => ⟨⟨.group t.position :: frames, none⟩, ?_, ?_⟩
    · simp only [step, term, ht.1, Sketch.free]
    · refine (hx.content (Or.inr ⟨_, _, rfl⟩)).append rfl
        (reads_cons fun t ht => ⟨⟨frames, some x⟩, ?_, ?_⟩)
      · simp only [step, close, ht.1, Sketch.free]
      · exact reads_nil (.refl _ _)
  · rename_i hfloor
    have hle := Nat.le_of_not_lt hfloor
    refine (hx.operand (by omega) (hf.mono hle)).imp (.refl _ _) ?_
    exact fun kind hk op hop => Nat.le_trans (hk op hop) hle

namespace Ast

theorem Reread.of_operand
    (h : ∀ frames P, Reads ⟨frames, none⟩ x.print P ⟨frames, some x⟩) : x.Reread :=
  ⟨fun _ _ => h _ _, fun _ => h _ _⟩

theorem open_of_content (h : frames = [] ∨ ∃ position rest, frames = .group position :: rest) :
    Open floor frames := by
  rcases h with rfl | ⟨_, _, rfl⟩ <;> trivial

theorem Reread.operation (hl : left.Reread) (hr : x.Reread) :
    (operation op left x position).Reread := by
  have hoperand {frames : List Frame} (hf : Open op.precedence frames) :
      Reads ⟨frames, none⟩ (print (.operation op left x position)) (EndsAt op.precedence)
        ⟨frames, some (.operation op left x position)⟩ := by
    rw [print]
    refine (hl.printAt hf op.precedence_pos).append ?_ (reads_cons fun t ht => ?_)
    · rintro op' ⟨⟩
      exact Nat.le_refl _
    · cases ht.eq_of_position
      refine ⟨⟨.right op left position :: frames, none⟩, ?_, ?_⟩
      · simp only [step, Token.kind, Token.position, hf.reduce]
      · have hright : Open (op.precedence + 1) (.right op left position :: frames) :=
          Nat.lt_succ_self _
        refine (hr.printAt hright (Nat.succ_pos _)).imp alike_operation ?_
        exact fun kind hk op' hop => Nat.le_succ_of_le (hk op' hop)
  refine ⟨fun _ => hoperand, fun hf => ?_⟩
  exact (hoperand (open_of_content hf)).imp (.refl _ _) fun _ => endsAt_of_closing

/-- The tokens between the first word of a branch and the end of its body. -/
theorem reads_branch (hg : guard.Reread) (hb : body.Reread) :
    Reads ⟨.guard earlier position :: frames, none⟩
      (guard.printAt 1 ++ .free (.keyword .doWord) :: body.printAt 1) (EndsAt 1)
      ⟨.body earlier guard position :: frames, some body⟩ := by
  have hguard : Open 1 (.guard earlier position :: frames) := trivial
  have hbody : Open 1 (.body earlier guard position :: frames) := trivial
  refine (hg.printAt hguard Nat.one_pos).append nofun (reads_cons fun t ht => ?_)
  refine ⟨⟨.body earlier guard position :: frames, none⟩, ?_, hb.printAt hbody Nat.one_pos⟩
  simp only [step, close, ht.1, Sketch.free]

theorem printBranches_cons_cons (branch branch' : Ast × Ast) :
    printBranches [] (branch :: branch' :: branches) =
      (branch.1.printAt 1 ++ .free (.keyword .doWord) :: branch.2.printAt 1) ++
        .free (.keyword .elseWord) :: .free (.keyword .ifWord) ::
          printBranches [] (branch' :: branches) := by
  simp [printBranches, printAt]

/-- Reading branches ends in the body of the last one. -/
theorem reads_branches (frames : List Frame) (position : Nat) (earlier : List (Ast × Ast))
    (h : ∀ branch ∈ (guard, body) :: branches, branch.1.Reread ∧ branch.2.Reread) :
    ∃ before last, before ++ [last] = earlier ++ (guard, body) :: branches ∧
      Reads ⟨.guard earlier position :: frames, none⟩ (printBranches [] ((guard, body) :: branches))
        (EndsAt 1) ⟨.body before last.1 position :: frames, some last.2⟩ := by
  obtain ⟨hg, hb⟩ := h (guard, body) List.mem_cons_self
  induction branches generalizing earlier guard body with
  | nil =>
    refine ⟨earlier, (guard, body), rfl, ?_⟩
    simpa [printBranches, printAt] using reads_branch hg hb
  | cons branch branches ih =>
    have hrest := fun b hmem => h b (List.mem_cons_of_mem _ hmem)
    obtain ⟨hg', hb'⟩ := hrest branch List.mem_cons_self
    obtain ⟨before, last, hsplit, hreads⟩ := ih (earlier ++ [(guard, body)]) hrest hg' hb'
    refine ⟨before, last, by rw [hsplit]; simp, ?_⟩
    rw [printBranches_cons_cons]
    refine (reads_branch hg hb).append nofun (reads_cons fun t ht => ?_)
    refine ⟨⟨.otherwise (earlier ++ [(guard, body)]) position :: frames, none⟩, ?_, ?_⟩
    · simp only [step, close, ht.1, Sketch.free]
    · refine reads_cons fun t ht => ⟨_, ?_, hreads⟩
      simp only [step, term, ht.1, Sketch.free]

/-- Reading the branches of a conditional, from its first word to the body of the last branch. -/
theorem reads_conditional (position : Nat) (hne : branches ≠ [])
    (h : ∀ branch ∈ branches, branch.1.Reread ∧ branch.2.Reread)
    (hf : frames = [] ∨ ∃ position rest, frames = .group position :: rest) :
    ∃ before last, before ++ [last] = branches ∧
      Reads ⟨frames, none⟩ (printBranches [⟨.keyword .ifWord, some position⟩] branches)
        (EndsAt 1) ⟨.body before last.1 position :: frames, some last.2⟩ := by
  obtain ⟨branch, branches, rfl⟩ := List.exists_cons_of_ne_nil hne
  obtain ⟨before, last, hsplit, hreads⟩ := reads_branches frames position [] h
  refine ⟨before, last, hsplit, reads_cons fun t ht => ⟨_, ?_, hreads⟩⟩
  cases ht.eq_of_position
  rcases hf with rfl | ⟨_, _, rfl⟩ <;> rfl

theorem Reread.conditional (hne : branches ≠ [])
    (h : ∀ branch ∈ branches, branch.1.Reread ∧ branch.2.Reread) :
    (Ast.conditional branches none position).Reread := by
  refine ⟨fun hs => absurd rfl hs, fun hf => ?_⟩
  obtain ⟨before, last, rfl, hreads⟩ := reads_conditional position hne h hf
  exact hreads.imp alike_body fun _ => endsAt_of_closing

theorem Reread.conditional_otherwise (hne : branches ≠ [])
    (h : ∀ branch ∈ branches, branch.1.Reread ∧ branch.2.Reread) (hx : x.Reread) :
    (Ast.conditional branches (some x) position).Reread := by
  refine ⟨fun hs => absurd rfl hs, fun {frames} hf => ?_⟩
  obtain ⟨before, last, rfl, hreads⟩ := reads_conditional position hne h hf
  have hopen : Open 1 (.otherwise (before ++ [last]) position :: frames) := trivial
  refine hreads.append nofun (reads_cons fun t ht => ?_)
  refine ⟨⟨.otherwise (before ++ [last]) position :: frames, none⟩, ?_, ?_⟩
  · simp only [step, close, ht.1, Sketch.free]
  · exact (hx.printAt hopen Nat.one_pos).imp alike_otherwise fun _ => endsAt_of_closing

/-- A token that is an expression on its own. -/
theorem Reread.token {t : Token} (hprint : x.print = [⟨t.kind, some t.position⟩])
    (hterm : ∀ frames, term frames t = .ok ⟨frames, some x⟩) : x.Reread := by
  refine .of_operand fun frames P => ?_
  rw [hprint]
  refine reads_cons fun t' ht => ⟨_, ?_, reads_nil (.refl _ _)⟩
  cases ht.eq_of_position
  cases t
  exact hterm frames

mutual

theorem ofArgument_toArgument : ∀ (e : Ast), e.isArgument = true → ofArgument e.toArgument = e
  | literal .., _ | call _ _ _ none _, _ => rfl
  | call form owner name (some args) position, h => by
    rw [toArgument, ofArgument, ofKind, ofArguments_toArguments args h]
termination_by structural e => e

theorem ofArguments_toArguments :
    ∀ (es : List Ast), areArguments es = true → ofArguments (toArguments es) = es
  | [], _ => rfl
  | e :: es, h => by
    rw [areArguments, Bool.and_eq_true] at h
    rw [toArguments, ofArguments, ofArgument_toArgument e h.1, ofArguments_toArguments es h.2]
termination_by structural es => es

end

mutual

/-- Every expression that can be written down is read again, whatever stands around it. -/
theorem reread_of_isPrintable : ∀ (e : Ast), e.isPrintable = true → e.Reread
  | literal value position, _ => .token (t := .mk (.literal value) position) rfl fun _ => rfl
  | call form owner name none position, _ =>
    .token (t := .mk (.call form owner name none) position) rfl fun _ => rfl
  | call form owner name (some args) position, h => by
    refine .token (t := toArgument (.call form owner name (some args) position)) rfl fun frames => ?_
    have harg := ofArgument_toArgument (.call form owner name (some args) position) h
    simp only [term, toArgument, Token.kind] at harg ⊢
    rw [harg]
  | conditional branches none position, h => by
    rw [isPrintable, Bool.and_eq_true] at h
    exact .conditional (by simpa using h.1) (reread_of_arePrintable branches h.2)
  | conditional branches (some last) position, h => by
    rw [isPrintable, Bool.and_eq_true, Bool.and_eq_true] at h
    exact .conditional_otherwise (by simpa using h.1.1) (reread_of_arePrintable branches h.1.2)
      (reread_of_isPrintable last h.2)
  | operation op left right position, h => by
    rw [isPrintable, Bool.and_eq_true] at h
    exact (reread_of_isPrintable left h.1).operation (reread_of_isPrintable right h.2)
termination_by structural e => e

theorem reread_of_arePrintable : ∀ (branches : List (Ast × Ast)), arePrintable branches = true →
    ∀ branch ∈ branches, branch.1.Reread ∧ branch.2.Reread
  | [], _ => nofun
  | (guard, body) :: branches, h => by
    rw [arePrintable, Bool.and_eq_true, Bool.and_eq_true] at h
    rintro branch (_ | ⟨_, hmem⟩)
    · exact ⟨reread_of_isPrintable guard h.1.1, reread_of_isPrintable body h.1.2⟩
    · exact reread_of_arePrintable branches h.2 branch hmem
termination_by structural branches => branches

end
end Ast

/-- Printing an expression and parsing the tokens gives the same expression with the same positions,
wherever parentheses, `DO`, `ELSE` and each `IF` after `ELSE` stand. -/
theorem parse_print {e : Ast} {ts : List Token} (he : e.isPrintable = true)
    (hts : List.Forall₂ Sketch.Allows e.print ts) (finish : Nat) : parse ts finish = .ok e := by
  obtain ⟨p, hfold, halike⟩ := (Ast.reread_of_isPrintable e he).content (Or.inl rfl) ts hts
  rw [parse, Parsing.start, hfold]
  exact halike.result_eq finish

/-- A choice whose first guard needs parentheses, as does the conditional in a later branch. -/
def nestedChoice : Ast :=
  .conditional [(.operation .and (.operation .or (.literal (.bool true) 4) (.literal .null 9) 7)
      (.call .reference none "a" (some [.literal (.int 1) 16]) 14) 12, .literal (.int 2) 22),
    (.literal (.bool false) 32, .conditional [(.literal .null 41, .literal .null 49)] none 38)]
    (some (.operation .chain (.literal .null 60) (.call .generator (some "B") "b" none 68) 65)) 0

theorem parse_nestedChoice : parse [.mk (.keyword .ifWord) 0, .mk .opening 100,
    .mk (.literal (.bool true)) 4, .mk (.operator .or) 7, .mk (.literal .null) 9, .mk .closing 100,
    .mk (.operator .and) 12,
    .mk (.call .reference none "a" (some [.mk (.literal (.int 1)) 16])) 14,
    .mk (.keyword .doWord) 100, .mk (.literal (.int 2)) 22, .mk (.keyword .elseWord) 100,
    .mk (.keyword .ifWord) 100, .mk (.literal (.bool false)) 32, .mk (.keyword .doWord) 100,
    .mk .opening 100, .mk (.keyword .ifWord) 38, .mk (.literal .null) 41, .mk (.keyword .doWord) 100,
    .mk (.literal .null) 49, .mk .closing 100, .mk (.keyword .elseWord) 100, .mk (.literal .null) 60,
    .mk (.operator .chain) 65, .mk (.call .generator (some "B") "b" none) 68] 0 =
      .ok nestedChoice := by
  refine parse_print rfl ?_ 0
  simp [nestedChoice, Ast.print, Ast.printBranches, Ast.enclose, Ast.strength, Operator.precedence,
    Ast.toArguments, Ast.toArgument, Sketch.Allows, Sketch.free, Token.kind, Token.position]

end ChatFlow.Expr
