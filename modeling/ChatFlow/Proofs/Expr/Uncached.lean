import ChatFlow.Proofs.Expr.Compiled

/-! What a compiler makes when no member asks for its results to be remembered: the same expressions,
without slots. -/
namespace ChatFlow.Expr
variable {ω η α β : Type} {ns : Namespace ω η} {scope : Option String} {expected : Kind}
  {piped : Option Kind} {position : Nat}

/-- The member, run at every use. -/
def Member.uncached (m : Member ω η) : Member ω η := { m with caching := .never }

def Namespace.uncached (ns : Namespace ω η) : Namespace ω η :=
  { ns with members := ns.members.map Member.uncached }

theorem Namespace.resolve_uncached (ns : Namespace ω η) (scope owner : Option String) (name : String)
    (arity : Nat) (form : CallForm) :
    ns.uncached.resolve scope owner name arity form =
      (ns.resolve scope owner name arity form).map Member.uncached := by
  have hcandidates : ns.uncached.candidates scope owner name arity form =
      (ns.candidates scope owner name arity form).map Member.uncached := List.filter_map ..
  unfold resolve
  rw [hcandidates]
  match ns.candidates scope owner name arity form with
  | [] | [m] | m :: m' :: rest => simp [Except.map]

namespace Term

mutual

/-- The term in which no call has a slot. -/
def uncached : Term ω η → Term ω η
  | literal v => literal v
  | call m args piped _ position => call m.uncached (uncachedAll args) piped none position
  | conditional bs none kind fallThrough => conditional (uncachedBranches bs) none kind fallThrough
  | conditional bs (some last) kind fallThrough =>
    conditional (uncachedBranches bs) (some (uncached last)) kind fallThrough
  | operation op left right kind => operation op (uncached left) (uncached right) kind
termination_by structural t => t

def uncachedAll : List (Term ω η) → List (Term ω η)
  | [] => []
  | t :: ts => uncached t :: uncachedAll ts
termination_by structural ts => ts

def uncachedBranches : List (Term ω η × Term ω η) → List (Term ω η × Term ω η)
  | [] => []
  | (guard, body) :: bs => (uncached guard, uncached body) :: uncachedBranches bs
termination_by structural bs => bs

end

@[simp] theorem kind_uncached (t : Term ω η) : t.uncached.kind = t.kind := by
  rcases t with _ | _ | ⟨_, _ | _, _, _⟩ | _ <;> rfl

end Term

namespace Typing
variable {γ : Type} {g : α → β} {m : Typing α} {m' : Typing β}

/-- A compilation without slots ends as the other one, and has handed out none. -/
def Mirrors (g : α → β) (m : Typing α) (m' : Typing β) : Prop :=
  ∀ n n', m' n' = ((m n).1.map g, n')

theorem Mirrors.pure (a : α) : Mirrors g (pure a) (pure (g a)) := fun _ _ => rfl

theorem Mirrors.fail (reason : ParseReason) (position : Nat) :
    Mirrors g (fail reason position) (fail reason position) := fun _ _ => rfl

theorem Mirrors.bind {δ : Type} {h : γ → δ} {f : α → Typing γ} {f' : β → Typing δ}
    (hm : Mirrors g m m') (hf : ∀ a, Mirrors h (f a) (f' (g a))) :
    Mirrors h (m >>= f) (m' >>= f') := by
  intro n n'
  have hn := hm n n'
  rcases hr : m n with ⟨e | a, n₁⟩ <;> rw [hr] at hn
  · rw [bind_of_error hr, bind_of_error hn]
    rfl
  · rw [bind_of_ok hr, bind_of_ok hn]
    exact hf a n₁ n'

/-- Checks are made before any slot matters. -/
theorem Checks.mirrors {m : Typing α} (hm : Checks m) : Mirrors id m m := by
  obtain ⟨r, hr⟩ := hm
  intro n n'
  rw [hr, hr]
  cases r <;> rfl

theorem mirrors_resolve {owner : Option String} {name : String} {arity : Nat} {form : CallForm} :
    Mirrors Member.uncached (resolve ns scope owner name arity form piped position)
      (resolve ns.uncached scope owner name arity form piped position) := by
  unfold resolve
  rw [Namespace.resolve_uncached]
  cases ns.resolve scope owner name (arity + pipedArity form piped) form with
  | error reason => exact .fail reason position
  | ok m =>
    cases piped with
    | none => exact .pure m
    | some found =>
      have hwanted (wanted : Kind) : Mirrors Member.uncached
          (if wanted.accepts found then pure m
            else fail (.argumentMismatch m.qualifiedName 0 wanted found) position)
          (if wanted.accepts found then pure m.uncached
            else fail (.argumentMismatch m.qualifiedName 0 wanted found) position) := by
        split
        · exact .pure m
        · exact .fail _ _
      exact hwanted (if form = .generator then m.input else m.params.headD .any)

theorem mirrors_finishCall {m : Member ω η} {args : List (Term ω η)} :
    Mirrors Term.uncached (finishCall m args piped position)
      (finishCall m.uncached (Term.uncachedAll args) piped position) := by
  intro n n'
  rw [finishCall_eq, finishCall_eq]
  cases m.caching <;> rfl

mutual

theorem mirrors_term (ns : Namespace ω η) (scope : Option String) :
    ∀ (e : Ast) (expected : Kind) (piped : Option Kind), Mirrors Term.uncached
      (term ns scope expected piped e) (term ns.uncached scope expected piped e)
  | .literal v _, _, _ => .pure (Term.literal v)
  | .call form owner name none position, expected, piped => by
    rw [term_call, term_call]
    exact mirrors_resolve.bind fun m =>
      (Mirrors.pure (g := Term.uncachedAll) []).bind fun _ => mirrors_finishCall
  | .call form owner name (some args) position, expected, piped => by
    rw [term_call, term_call]
    exact mirrors_resolve.bind fun m =>
      (mirrors_arguments ns scope args m.qualifiedName _ _).bind fun _ => mirrors_finishCall
  | .conditional bs none _, expected, piped => by
    rw [term, term]
    exact (mirrors_branches ns scope bs expected none).bind fun _ => .pure _
  | .conditional bs (some other) _, expected, piped => by
    rw [term, term]
    refine (mirrors_branches ns scope bs expected none).bind fun _ =>
      (mirrors_term ns scope other expected none).bind fun last => ?_
    rw [Term.kind_uncached]
    exact checks_check.mirrors.bind fun _ => .pure _
  | .operation op left right _, expected, piped => by
    rw [term_operation, term_operation]
    refine checks_target.mirrors.bind fun _ =>
      (mirrors_term ns scope left _ none).bind fun l => ?_
    rw [Term.kind_uncached]
    refine checks_logical.mirrors.bind fun _ => (mirrors_term ns scope right _ _).bind fun r => ?_
    rw [Term.kind_uncached]
    exact checks_logical.mirrors.bind fun _ => checks_ordered.mirrors.bind fun _ => .pure _
termination_by structural e => e

theorem mirrors_arguments (ns : Namespace ω η) (scope : Option String) :
    ∀ (es : List Ast) (reference : String) (index : Nat) (params : List Kind),
      Mirrors Term.uncachedAll (arguments ns scope reference index params es)
        (arguments ns.uncached scope reference index params es)
  | [], _, _, _ => .pure []
  | e :: es, reference, index, params => by
    rw [arguments, arguments]
    refine (mirrors_term ns scope e _ none).bind fun t => ?_
    rw [Term.kind_uncached]
    split
    · exact (mirrors_arguments ns scope es reference _ _).bind fun _ => .pure _
    · exact .fail _ _
termination_by structural es => es

theorem mirrors_branches (ns : Namespace ω η) (scope : Option String) :
    ∀ (bs : List (Ast × Ast)) (expected : Kind) (kind : Option Kind),
      Mirrors (Prod.map id Term.uncachedBranches) (branches ns scope expected kind bs)
        (branches ns.uncached scope expected kind bs)
  | [], _, kind => .pure (kind, [])
  | (guard, body) :: bs, expected, kind => by
    rw [branches, branches]
    refine (mirrors_term ns scope guard _ none).bind fun g => ?_
    rw [Term.kind_uncached]
    refine checks_check.mirrors.bind fun _ => (mirrors_term ns scope body _ none).bind fun b => ?_
    rw [Term.kind_uncached]
    exact checks_check.mirrors.bind fun _ =>
      (mirrors_branches ns scope bs expected _).bind fun _ => .pure _
termination_by structural bs => bs

end
end Typing

def Expression.uncached (x : Expression ω η) : Expression ω η := { x with term := x.term.uncached }

theorem mirrors_compile (ns : Namespace ω η) (scope : Option String) (expected : Kind) (e : Ast) :
    Typing.Mirrors Expression.uncached (Typing.compile ns scope expected e)
      (Typing.compile ns.uncached scope expected e) := by
  refine (Typing.mirrors_term ns scope e expected none).bind fun t => ?_
  rw [Term.kind_uncached]
  exact Typing.checks_check.mirrors.bind fun _ => .pure _

theorem Request.mirrors (ns : Namespace ω η) (request : Request) :
    Typing.Mirrors Expression.uncached (request.compile ns) (request.compile ns.uncached) := by
  cases request with
  | tree scope expected e => exact mirrors_compile ns scope expected e
  | text scope expected source =>
    rw [compile, compile, Typing.compileText, Typing.compileText]
    cases parseText source with
    | error e => exact fun _ _ => rfl
    | ok e => exact (mirrors_compile ns scope expected e).bind fun _ => .pure _

theorem compiledFrom_uncached (ns : Namespace ω η) (requests : List Request) (n n' : Nat) :
    compiledFrom ns.uncached requests n' = (compiledFrom ns requests n).map Expression.uncached := by
  induction requests generalizing n n' with
  | nil => rfl
  | cons request rest ih =>
    have hmirrors := request.mirrors ns n n'
    rw [compiledFrom, compiledFrom, hmirrors]
    rcases request.compile ns n with ⟨e | x, n₁⟩
    · exact ih n₁ n'
    · exact congrArg (x.uncached :: ·) (ih n₁ n')

/-- Declaring that nothing be remembered changes the slots of compiled expressions and nothing else. -/
theorem compiled_uncached (ns : Namespace ω η) (requests : List Request) :
    compiled ns.uncached requests = (compiled ns requests).map Expression.uncached :=
  compiledFrom_uncached ns requests 0 0

end ChatFlow.Expr
