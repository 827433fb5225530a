import Mathlib.Data.List.Forall2
import ChatFlow.Proofs.Expr.Printing
import ChatFlow.Proofs.Expr.Retokenizing

/-! Parsing keeps all tokens in their order: what it makes of them holds each one once, apart from the
parentheses, which are balanced. -/
namespace ChatFlow.Expr
variable {p p' : Parsing} {frames : List Frame} {ts : List Token} {t : Token} {s : Sketch}
  {op : Operator} {left x guard e : Ast} {position finish : Nat} {earlier branches : List (Ast × Ast)}
  {kind : TokenKind} {g g' : Gathered} {l : Lexeme}

def Token.isParenthesis (t : Token) : Bool :=
  match t.kind with
  | .opening | .closing => true
  | _ => false

/-- How many parentheses are open after a token; none if it closes one that has not been opened. -/
def depthAfter (depth : Nat) (t : Token) : Option Nat :=
  match t.kind, depth with
  | .opening, depth => some (depth + 1)
  | .closing, 0 => none
  | .closing, depth + 1 => some depth
  | _, depth => some depth

/-- Whether each parenthesis that is opened is closed, and each one that is closed has been opened. -/
def Balanced (ts : List Token) : Prop := ts.foldlM depthAfter 0 = some 0

mutual

/-- Whether a token can be an argument: a literal, or a call whose own arguments can be. -/
def Token.isArgument : Token → Bool
  | .mk kind _ => kind.isArgument
termination_by structural t => t

def TokenKind.isArgument : TokenKind → Bool
  | .literal _ | .call _ _ _ none => true
  | .call _ _ _ (some args) => Token.areArguments args
  | .operator _ | .opening | .closing | .keyword _ => false
termination_by structural kind => kind

def Token.areArguments : List Token → Bool
  | [] => true
  | t :: ts => Token.isArgument t && Token.areArguments ts
termination_by structural ts => ts

end

/-- Whether the arguments of a token, if it has any, can be arguments. -/
def Token.hasArguments (t : Token) : Bool :=
  match t.kind with
  | .call _ _ _ (some args) => areArguments args
  | _ => true

theorem Sketch.allows_self (hkind : t.kind = kind) : Sketch.Allows ⟨kind, some t.position⟩ t := by
  refine ⟨hkind, ?_⟩
  rintro position ⟨⟩
  rfl

namespace Ast

mutual

/-- The tokens of an expression from left to right, without any parentheses. -/
def flatten : Ast → List Sketch
  | literal value position => [⟨.literal value, some position⟩]
  | call form owner name none position => [⟨.call form owner name none, some position⟩]
  | call form owner name (some args) position =>
    [⟨.call form owner name (some (toArguments args)), some position⟩]
  | conditional branches none position =>
    flattenBranches [⟨.keyword .ifWord, some position⟩] branches
  | conditional branches (some last) position =>
    flattenBranches [⟨.keyword .ifWord, some position⟩] branches ++
      .free (.keyword .elseWord) :: flatten last
  | operation op left right position => flatten left ++ ⟨.operator op, some position⟩ :: flatten right
termination_by structural e => e

/-- The tokens of branches, of which the first one starts with the given words and the others with
`ELSE IF`. -/
def flattenBranches (start : List Sketch) : List (Ast × Ast) → List Sketch
  | [] => []
  | (guard, body) :: branches =>
    start ++ (flatten guard ++ .free (.keyword .doWord) ::
      (flatten body ++ flattenBranches [.free (.keyword .elseWord), .free (.keyword .ifWord)] branches))
termination_by structural branches => branches

end

/-- The tokens of a conditional up to the guard that follows some branches. -/
def flattenBefore (earlier : List (Ast × Ast)) (position : Nat) : List Sketch :=
  match earlier with
  | [] => [⟨.keyword .ifWord, some position⟩]
  | _ :: _ => flattenBranches [⟨.keyword .ifWord, some position⟩] earlier ++
      [.free (.keyword .elseWord), .free (.keyword .ifWord)]

theorem flattenBranches_append (start : List Sketch) (hne : earlier ≠ []) :
    flattenBranches start (earlier ++ branches) = flattenBranches start earlier ++
      flattenBranches [.free (.keyword .elseWord), .free (.keyword .ifWord)] branches := by
  induction earlier generalizing start with
  | nil => exact absurd rfl hne
  | cons branch rest ih =>
    obtain ⟨guard, body⟩ := branch
    cases rest with
    | nil => simp [flattenBranches]
    | cons branch' rest =>
      rw [List.cons_append, flattenBranches, ih _ (List.cons_ne_nil _ _)]
      simp [flattenBranches]

theorem flattenBranches_concat (earlier : List (Ast × Ast)) (guard body : Ast) (position : Nat) :
    flattenBranches [⟨.keyword .ifWord, some position⟩] (earlier ++ [(guard, body)]) =
      flattenBefore earlier position ++ (guard.flatten ++ .free (.keyword .doWord) :: body.flatten) := by
  cases earlier with
  | nil => simp [flattenBranches, flattenBefore]
  | cons branch rest =>
    rw [flattenBranches_append _ (List.cons_ne_nil _ _), flattenBefore]
    simp [flattenBranches]

mutual

theorem toArgument_ofArgument : ∀ (t : Token), t.isArgument = true → (ofArgument t).toArgument = t
  | .mk kind position, h => toArgument_ofKind kind position h
termination_by structural t => t

theorem toArgument_ofKind : ∀ (kind : TokenKind) (position : Nat), kind.isArgument = true →
    (ofKind position kind).toArgument = .mk kind position
  | .literal _, _, _ | .call _ _ _ none, _, _ => rfl
  | .call form owner name (some args), position, h => by
    rw [ofKind, toArgument, toArguments_ofArguments args h]
termination_by structural kind => kind

theorem toArguments_ofArguments :
    ∀ (ts : List Token), Token.areArguments ts = true → toArguments (ofArguments ts) = ts
  | [], _ => rfl
  | t :: ts, h => by
    rw [Token.areArguments, Bool.and_eq_true] at h
    rw [ofArguments, toArguments, toArgument_ofArgument t h.1, toArguments_ofArguments ts h.2]
termination_by structural ts => ts

end
end Ast

/-- The tokens of a frame before the operand that it waits for. -/
def Frame.flatten : Frame → List Sketch
  | .right op left position => left.flatten ++ [⟨.operator op, some position⟩]
  | .group _ => []
  | .guard earlier position => Ast.flattenBefore earlier position
  | .body earlier guard position =>
    Ast.flattenBefore earlier position ++ (guard.flatten ++ [.free (.keyword .doWord)])
  | .otherwise branches position =>
    Ast.flattenBranches [⟨.keyword .ifWord, some position⟩] branches ++ [.free (.keyword .elseWord)]

/-- A last body comes after a branch. -/
def Frame.Proper : Frame → Prop
  | .otherwise branches _ => branches ≠ []
  | _ => True

def Frame.isGroup : Frame → Bool
  | .group _ => true
  | _ => false

namespace Parsing

/-- The tokens of what has been read so far. -/
def flatten (p : Parsing) : List Sketch :=
  p.frames.reverse.flatMap Frame.flatten ++ (p.operand.map Ast.flatten).getD []

/-- Whether what has been read holds some tokens, each one once: its tokens are those other than
parentheses, and it waits for the parentheses that are not closed yet. -/
structure Records (p : Parsing) (ts : List Token) : Prop where
  proper : ∀ f ∈ p.frames, f.Proper
  allows : List.Forall₂ Sketch.Allows p.flatten (ts.filter fun t => !t.isParenthesis)
  depth_eq : ts.foldlM depthAfter 0 = some (p.frames.countP Frame.isGroup)

theorem records_start : start.Records [] := ⟨nofun, .nil, rfl⟩

/-- What has been read can be put in another way. -/
theorem Records.regroup (h : p.Records ts) (hproper : ∀ f ∈ p'.frames, f.Proper)
    (hflatten : p'.flatten = p.flatten)
    (hcount : p'.frames.countP Frame.isGroup = p.frames.countP Frame.isGroup) : p'.Records ts :=
  ⟨hproper, hflatten ▸ h.allows, hcount ▸ h.depth_eq⟩

theorem Records.operation (h : Records ⟨.right op left position :: frames, some x⟩ ts) :
    Records ⟨frames, some (.operation op left x position)⟩ ts := by
  refine h.regroup (fun f hf => h.proper f (List.mem_cons_of_mem _ hf)) ?_ rfl
  simp [flatten, Frame.flatten, Ast.flatten]

theorem Records.conditional (h : Records ⟨.body earlier guard position :: frames, some x⟩ ts) :
    Records ⟨frames, some (.conditional (earlier ++ [(guard, x)]) none position)⟩ ts := by
  refine h.regroup (fun f hf => h.proper f (List.mem_cons_of_mem _ hf)) ?_ rfl
  simp [flatten, Frame.flatten, Ast.flatten, Ast.flattenBranches_concat]

theorem Records.conditional_otherwise (h : Records ⟨.otherwise branches position :: frames, some x⟩ ts) :
    Records ⟨frames, some (.conditional branches (some x) position)⟩ ts := by
  refine h.regroup (fun f hf => h.proper f (List.mem_cons_of_mem _ hf)) ?_ rfl
  simp [flatten, Frame.flatten, Ast.flatten]

/-- A token other than a parenthesis is the last one of what has been read with it. -/
theorem Records.push (h : p.Records ts) (hs : s.Allows t) (ht : t.isParenthesis = false)
    (hproper : ∀ f ∈ p'.frames, f.Proper) (hflatten : p'.flatten = p.flatten ++ [s])
    (hcount : p'.frames.countP Frame.isGroup = p.frames.countP Frame.isGroup) :
    p'.Records (ts ++ [t]) := by
  refine ⟨hproper, ?_, ?_⟩
  · rw [hflatten, List.filter_append]
    refine List.rel_append h.allows ?_
    simpa [ht] using hs
  · rw [List.foldlM_append, h.depth_eq, hcount]
    cases hk : t.kind <;> simp [Token.isParenthesis, hk] at ht <;> simp [depthAfter, hk]

theorem countP_group (position : Nat) (frames : List Frame) :
    (Frame.group position :: frames).countP Frame.isGroup = frames.countP Frame.isGroup + 1 :=
  List.countP_cons_of_pos rfl

theorem Records.opening (h : Records ⟨frames, none⟩ ts) (ht : t.kind = .opening) :
    Records ⟨.group position :: frames, none⟩ (ts ++ [t]) := by
  refine ⟨List.forall_mem_cons.2 ⟨trivial, h.proper⟩, ?_, ?_⟩
  · simpa [flatten, Frame.flatten, Token.isParenthesis, ht] using h.allows
  · rw [List.foldlM_append, h.depth_eq, countP_group]
    simp [depthAfter, ht]

theorem Records.closing (h : Records ⟨.group position :: frames, some x⟩ ts) (ht : t.kind = .closing) :
    Records ⟨frames, some x⟩ (ts ++ [t]) := by
  refine ⟨fun f hf => h.proper f (List.mem_cons_of_mem _ hf), ?_, ?_⟩
  · simpa [flatten, Frame.flatten, Token.isParenthesis, ht] using h.allows
  · rw [List.foldlM_append, h.depth_eq, countP_group]
    simp [depthAfter, ht]

/-- A token that is an operand on its own. -/
theorem Records.operand (h : Records ⟨frames, none⟩ ts) (ht : t.hasArguments = true)
    (hkind : (∃ value, t.kind = .literal value) ∨
      ∃ form owner name args, t.kind = .call form owner name args) :
    Records ⟨frames, some (.ofArgument t)⟩ (ts ++ [t]) := by
  have hkeeps : (Ast.ofArgument t).flatten = [⟨t.kind, some t.position⟩] := by
    obtain ⟨kind, position⟩ := t
    rcases hkind with ⟨value, rfl⟩ | ⟨form, owner, name, _ | args, rfl⟩
    · rfl
    · rfl
    · rw [Ast.ofArgument, ofKind, Ast.flatten, Ast.toArguments_ofArguments args ht]
      rfl
  refine h.push (Sketch.allows_self rfl) ?_ h.proper (by simp [flatten, hkeeps]) rfl
  rcases hkind with ⟨_, hk⟩ | ⟨_, _, _, _, hk⟩ <;> simp [Token.isParenthesis, hk]

theorem Records.reduce (precedence : Nat) (h : Records ⟨frames, some x⟩ ts) :
    Records ⟨(reduce precedence frames x).1, some (reduce precedence frames x).2⟩ ts := by
  fun_induction Parsing.reduce precedence frames x with
  | case1 op left position frames x _ ih => exact ih h.operation
  | case2 => exact h
  | case3 => exact h

theorem Records.close (h : Records ⟨frames, some x⟩ ts) (hclose : close t frames x = .ok p') :
    p'.Records (ts ++ [t]) := by
  fun_induction Parsing.close t frames x with
  | case1 | case4 | case6 => cases hclose
  | case2 frames x op left position ih => exact ih h.operation hclose
  | case3 position frames x ht =>
    cases hclose
    exact h.closing ht
  | case5 earlier position frames x ht =>
    cases hclose
    have hs : (Sketch.free (.keyword .doWord)).Allows t := ⟨ht, nofun⟩
    refine h.push hs (by simp [Token.isParenthesis, ht]) ?_ ?_ rfl
    · exact List.forall_mem_cons.2 ⟨trivial, fun f hf => h.proper f (List.mem_cons_of_mem _ hf)⟩
    · simp [flatten, Frame.flatten]
  | case7 earlier guard position frames x ht =>
    cases hclose
    have hs : (Sketch.free (.keyword .elseWord)).Allows t := ⟨ht, nofun⟩
    refine h.push hs (by simp [Token.isParenthesis, ht]) ?_ ?_ rfl
    · refine List.forall_mem_cons.2 ⟨?_, fun f hf => h.proper f (List.mem_cons_of_mem _ hf)⟩
      exact List.append_ne_nil_of_right_ne_nil _ (List.cons_ne_nil _ _)
    · simp [flatten, Frame.flatten, Ast.flattenBranches_concat]
  | case8 earlier guard position frames x _ ih => exact ih h.conditional hclose
  | case9 branches position frames x ih => exact ih h.conditional_otherwise hclose

theorem Records.term (h : Records ⟨frames, none⟩ ts) (ht : t.hasArguments = true)
    (hterm : term frames t = .ok p') : p'.Records (ts ++ [t]) := by
  unfold Parsing.term at hterm
  split at hterm
  · next hk =>
    cases hterm
    exact h.operand ht (Or.inl ⟨_, hk⟩)
  · next hk =>
    cases hterm
    exact h.operand ht (Or.inr ⟨_, _, _, _, hk⟩)
  · next hk =>
    cases hterm
    exact h.opening hk
  · next hk =>
    have hparenthesis : t.isParenthesis = false := by simp [Token.isParenthesis, hk]
    split at hterm
    · next branches position frames =>
      cases hterm
      have hs : (Sketch.free (.keyword .ifWord)).Allows t := by
        refine ⟨hk, ?_⟩
        rintro position ⟨⟩
      obtain ⟨hne, hproper⟩ := List.forall_mem_cons.1 h.proper
      refine h.push hs hparenthesis (List.forall_mem_cons.2 ⟨trivial, hproper⟩) ?_ rfl
      obtain ⟨branch, rest, rfl⟩ := List.exists_cons_of_ne_nil hne
      simp [flatten, Frame.flatten, Ast.flattenBefore]
    · cases hterm
      refine h.push (Sketch.allows_self hk) hparenthesis (List.forall_mem_cons.2 ⟨trivial, h.proper⟩) ?_ rfl
      simp [flatten, Frame.flatten, Ast.flattenBefore]
  · cases hterm

theorem Records.step (h : p.Records ts) (ht : t.hasArguments = true) (hstep : p.step t = .ok p') :
    p'.Records (ts ++ [t]) := by
  obtain ⟨frames, _ | x⟩ := p
  · exact h.term ht hstep
  · simp only [Parsing.step] at hstep
    split at hstep
    · next op hk =>
      cases hstep
      have hreduced := h.reduce op.precedence
      refine hreduced.push (Sketch.allows_self hk) (by simp [Token.isParenthesis, hk]) ?_ ?_ rfl
      · exact List.forall_mem_cons.2 ⟨trivial, hreduced.proper⟩
      · simp [flatten, Frame.flatten]
    · exact h.close hstep

theorem Records.steps {us : List Token} (h : p.Records ts) (hus : ∀ t ∈ us, t.hasArguments = true)
    (hsteps : us.foldlM Parsing.step p = .ok p') : p'.Records (ts ++ us) := by
  induction us generalizing p ts with
  | nil =>
    cases hsteps
    simpa using h
  | cons t us ih =>
    rw [List.foldlM_cons] at hsteps
    obtain ⟨p₁, hstep, hsteps⟩ := bind_eq_ok.1 hsteps
    obtain ⟨ht, hus⟩ := List.forall_mem_cons.1 hus
    simpa using ih (h.step ht hstep) hus hsteps

theorem Records.closeAll (h : Records ⟨frames, some x⟩ ts)
    (hclose : closeAll finish frames x = .ok e) : Records ⟨[], some e⟩ ts := by
  fun_induction Parsing.closeAll finish frames x with
  | case1 =>
    cases hclose
    exact h
  | case2 frames x op left position ih => exact ih h.operation hclose
  | case3 | case4 => cases hclose
  | case5 earlier guard position frames x ih => exact ih h.conditional hclose
  | case6 branches position frames x ih => exact ih h.conditional_otherwise hclose

end Parsing

namespace Token

theorem areArguments_eq_true : ∀ {ts : List Token}, areArguments ts = true ↔ ∀ t ∈ ts, t.isArgument = true
  | [] => ⟨fun _ => nofun, fun _ => rfl⟩
  | t :: ts => by
    rw [areArguments, Bool.and_eq_true, areArguments_eq_true, List.forall_mem_cons]

theorem hasArguments_of_isArgument (h : t.isArgument = true) : t.hasArguments = true := by
  obtain ⟨_ | ⟨_, _, _, _ | args⟩ | _ | _ | _ | _, position⟩ := t
  case call.some => exact h
  all_goals rfl

end Token

namespace Gathered

/-- Whether all lists of arguments that have been read so far hold only what can be an argument. -/
structure Admits (g : Gathered) : Prop where
  finished : ∀ t ∈ g.finished, t.hasArguments = true
  args : ∀ c ∈ g.calls, ∀ t ∈ c.args, t.isArgument = true

theorem Admits.place_outside (h : g.Admits) (hg : g.calls = []) (ht : t.hasArguments = true) :
    (g.place t).Admits := by
  rw [place_of_outside hg]
  exact ⟨List.forall_mem_cons.2 ⟨ht, h.finished⟩, nofun⟩

theorem Admits.place (h : g.Admits) (ht : t.isArgument = true) : (g.place t).Admits := by
  cases hg : g.calls with
  | nil => exact h.place_outside hg (Token.hasArguments_of_isArgument ht)
  | cons c calls =>
    obtain ⟨hc, hcalls⟩ := List.forall_mem_cons.1 (hg ▸ h.args)
    rw [place_of_inside hg]
    exact ⟨h.finished, List.forall_mem_cons.2 ⟨List.forall_mem_cons.2 ⟨ht, hc⟩, hcalls⟩⟩

theorem Admits.stepArgument? (h : g.Admits) (hstep : g.stepArgument? l = some g') : g'.Admits := by
  unfold Gathered.stepArgument? at hstep
  split at hstep
  · cases hstep
    exact h.place rfl
  · cases hstep
    exact h.place rfl
  · cases hstep
    exact ⟨h.finished, List.forall_mem_cons.2 ⟨nofun, h.args⟩⟩
  · cases hstep

theorem Admits.stepOutside (h : g.Admits) (hg : g.calls = []) (hstep : g.stepOutside l = .ok g') :
    g'.Admits := by
  unfold Gathered.stepOutside at hstep
  split at hstep
  case h_5 => cases hstep
  case h_6 =>
    split at hstep
    · next hargument =>
      cases hstep
      exact h.stepArgument? hargument
    · cases hstep
  all_goals
    cases hstep
    exact h.place_outside hg rfl

/-- A list of arguments that is closed becomes an argument itself. -/
theorem Admits.stepInside {c : OpenCall} {calls : List OpenCall} (h : g.Admits)
    (hg : g.calls = c :: calls) (hstep : g.stepInside c calls l = .ok g') : g'.Admits := by
  obtain ⟨hc, hcalls⟩ := List.forall_mem_cons.1 (hg ▸ h.args)
  have hclose : Admits (Gathered.place ⟨g.finished, calls⟩ c.close) := by
    refine Admits.place ⟨h.finished, hcalls⟩ (Token.areArguments_eq_true.2 ?_)
    exact fun t ht => hc t (List.mem_reverse.1 ht)
  unfold Gathered.stepInside at hstep
  split at hstep
  · cases hstep
    exact ⟨h.finished, List.forall_mem_cons.2 ⟨hc, hcalls⟩⟩
  · cases hstep
    exact hclose
  · cases hstep
    exact hclose
  · cases hstep
  · cases hstep
  · split at hstep
    · next hargument =>
      cases hstep
      exact h.stepArgument? hargument
    · cases hstep

theorem Admits.step (h : g.Admits) (hstep : g.step l = .ok g') : g'.Admits := by
  unfold Gathered.step at hstep
  split at hstep
  · next hg => exact h.stepOutside hg hstep
  · next hg => exact h.stepInside hg hstep

end Gathered

theorem hasArguments_of_tokenize {text : String} (h : tokenize text = .ok ts) :
    ∀ t ∈ ts, t.hasArguments = true := by
  obtain ⟨g, hsteps, hfinish⟩ := bind_eq_ok.1 h
  have hempty : Gathered.empty.Admits := by
    constructor <;> rintro _ ⟨⟩
  have hg : g.Admits := foldlM_ok hempty (fun _ _ _ hg hstep => hg.step hstep) hsteps
  unfold Gathered.finish at hfinish
  split at hfinish
  · cases hfinish
    exact fun t ht => hg.finished t (List.mem_reverse.1 ht)
  · cases hfinish

/-- Parsing loses, adds and reorders nothing. Where all arguments are literals or calls, as in every text
that has tokens, the parentheses are balanced, and the other tokens are those of the expression from left
to right, of which literals, calls, operators and the first word of each conditional stand at the positions
that the expression has for them. -/
theorem tokens_of_parse :
    (∀ {text ts}, tokenize text = .ok ts → ∀ t ∈ ts, t.hasArguments = true) ∧
    ∀ {ts finish e}, (∀ t ∈ ts, t.hasArguments = true) → parse ts finish = .ok e →
      Balanced ts ∧ List.Forall₂ Sketch.Allows e.flatten (ts.filter fun t => !t.isParenthesis) := by
  refine ⟨hasArguments_of_tokenize, fun {ts finish e} hts h => ?_⟩
  obtain ⟨p, hsteps, hresult⟩ := bind_eq_ok.1 h
  have hread : p.Records ts := Parsing.records_start.steps hts hsteps
  obtain ⟨frames, _ | x⟩ := p
  · simp only [Parsing.result] at hresult
    split at hresult <;> cases hresult
  · have hclosed := hread.closeAll hresult
    exact ⟨hclosed.depth_eq, by simpa [Parsing.flatten] using hclosed.allows⟩

/-- The tokens of `IF (#a OR null) AND ::b(1) DO 2 ELSE IF #c DO (IF #d DO 3) ELSE ((4))`. -/
def groupedChoice : List Token :=
  [.mk (.keyword .ifWord) 0, .mk .opening 3, .mk (.call .reference none "a" none) 4,
    .mk (.operator .or) 7, .mk (.literal .null) 10, .mk .closing 14, .mk (.operator .and) 16,
    .mk (.call .generator none "b" (some [.mk (.literal (.int 1)) 24])) 20, .mk (.keyword .doWord) 27,
    .mk (.literal (.int 2)) 30, .mk (.keyword .elseWord) 32, .mk (.keyword .ifWord) 37,
    .mk (.call .reference none "c" none) 40, .mk (.keyword .doWord) 43, .mk .opening 46,
    .mk (.keyword .ifWord) 47, .mk (.call .reference none "d" none) 50, .mk (.keyword .doWord) 53,
    .mk (.literal (.int 3)) 56, .mk .closing 57, .mk (.keyword .elseWord) 59, .mk .opening 64,
    .mk .opening 65, .mk (.literal (.int 4)) 66, .mk .closing 67, .mk .closing 68]

theorem tokens_of_groupedChoice : ∃ e, parse groupedChoice 69 = .ok e ∧ Balanced groupedChoice ∧
    List.Forall₂ Sketch.Allows e.flatten (groupedChoice.filter fun t => !t.isParenthesis) := by
  have hargs : ∀ t ∈ groupedChoice, t.hasArguments = true := List.all_eq_true.1 rfl
  exact ⟨_, rfl, @tokens_of_parse.2 groupedChoice 69 _ hargs rfl⟩

end ChatFlow.Expr
