import ChatFlow.Proofs.Expr.Kinds
import ChatFlow.Proofs.Expr.Tracing

/-! Expressions whose kinds are all known go wrong in one way only: a generator of booleans is run and
nothing is piped into it. -/
namespace ChatFlow

namespace Value
variable {v : Value} {wanted found k : Kind}

theorem converts_of_fits (h : v.Fits k) : (v.convert? k).isSome = true := by
  rcases h with rfl | ⟨rfl, _⟩ | ⟨rfl, hk⟩ | rfl | ⟨rfl, hv⟩
  · rfl
  · rfl
  · cases k <;> first | rfl | exact absurd rfl hk
  · cases v <;> rfl
  · cases v <;> cases hv
    rfl

/-- What the compiler accepts by its kind can be converted. The value of something discarded need not
fit its kind. -/
theorem converts_of_accepts (hkind : wanted.accepts found = true) (hfound : found ≠ .any)
    (hv : wanted ≠ .unit → v.Fits found) : (v.convert? wanted).isSome = true := by
  by_cases hunit : wanted = .unit
  · rw [hunit]
    rfl
  · have hcovers : wanted.Covers found := by
      simp only [Kind.accepts, Bool.or_eq_true, Bool.and_eq_true, beq_iff_eq] at hkind
      rcases hkind with (((h | h) | h) | h) | h
      · exact .inl h
      · exact absurd h hfound
      · exact absurd h hunit
      · exact .inr (.inr h)
      · exact .inr (.inl h)
    exact converts_of_fits (hcovers.fits (hv hunit))

theorem eq_bool_of_accepts (hkind : Kind.bool.accepts found = true) (hfound : found ≠ .any)
    (hv : v.Fits found) : ∃ b, v = .bool b := by
  have hconverts := converts_of_accepts hkind hfound fun _ => hv
  cases v with
  | bool b => exact ⟨b, rfl⟩
  | _ => cases hconverts

end Value

namespace Expr
variable {ω η α β : Type} {ns : Namespace ω η} {scope : Option String} {I : Memos → Prop}

/-- Whether an error says that a value did not fit the place that it went to. -/
def EvalError.isMismatch : EvalError → Bool
  | .resultKind _ _ => true
  | .nonBooleanCondition _ => true
  | _ => false

/-- Whether a computation has failed with a value that did not fit. -/
def Mismatched (r : Except EvalError α) : Prop := ∃ e, r = .error e ∧ e.isMismatch = true

theorem not_mismatched_ok {a : α} : ¬ Mismatched (.ok a) := nofun

theorem mismatched_error {e : EvalError} :
    Mismatched (.error e : Except EvalError α) ↔ e.isMismatch = true := by
  constructor
  · rintro ⟨_, ⟨⟩, he⟩
    exact he
  · exact fun he => ⟨e, rfl, he⟩

/-! Kinds that are all known. -/

/-- Whether the values of an effect fit a kind. -/
def Effect.Honors (e : Effect ω η Value) (k : Kind) : Prop :=
  ∀ store v, (e store).1 = .ok v → (v.convert? k).isSome = true

/-- Whether a body yields only what fits the kind that its member returns. -/
def Member.Honest (m : Member ω η) : Prop :=
  match m.body with
  | .function body => ∀ s args, Effect.Honors (body s args) m.returns
  | .generator body => ∀ s args store next, (body s args store).1 = .ok next →
      ∀ input, Effect.Honors (next input) m.returns

/-- Whether a member declares all its kinds, and keeps to the one that it returns. -/
structure Member.FullyTyped (m : Member ω η) : Prop where
  params : .any ∉ m.params
  input : m.form = .generator → m.input ≠ .any
  returns : m.returns ≠ .any
  honest : m.Honest

namespace Term
mutual

/-- The static kinds of a term and of all its parts. -/
def kinds : Term ω η → List Kind
  | literal v => [v.kind]
  | call m args _ _ _ => m.returns :: kindsOfAll args
  | conditional bs none kind _ => kind :: kindsOfBranches bs
  | conditional bs (some t) kind _ => kind :: (kindsOfBranches bs ++ kinds t)
  | operation _ left right kind => kind :: (kinds left ++ kinds right)
termination_by structural t => t

def kindsOfAll : List (Term ω η) → List Kind
  | [] => []
  | t :: ts => kinds t ++ kindsOfAll ts
termination_by structural ts => ts

def kindsOfBranches : List (Term ω η × Term ω η) → List Kind
  | [] => []
  | (guard, body) :: bs => kinds guard ++ kinds body ++ kindsOfBranches bs
termination_by structural bs => bs

end

theorem kind_mem_kinds (t : Term ω η) : t.kind ∈ t.kinds := by
  unfold kinds
  split <;> exact List.mem_cons_self

end Term

/-- Whether no kind in an expression is left open, nor any kind of a member that it calls. -/
structure Expression.FullyTyped (x : Expression ω η) : Prop where
  kinds : .any ∉ x.term.kinds
  members : ∀ site ∈ x.term.calls, site.member.FullyTyped

/-- Whether a call runs a generator of booleans into which nothing is piped. Null takes the place of
what is missing, and is no boolean. -/
def CallSite.Starves (site : CallSite ω η) : Prop :=
  site.piped = false ∧ site.member.form = .generator ∧ site.member.input = .bool

def Moment.Starves : Moment ω η → Prop
  | .invoked site _ => site.Starves
  | _ => False

namespace Eval
variable {s : Situation} {m : Member ω η} {args : List Value} {input : Value}
  {memory : Memory ω η} {v : Value} {k : Kind}

/-- Whether arguments can be converted to the kinds of parameters. -/
def Suits : List Value → List Kind → Prop
  | v :: vs, k :: ks => (v.convert? k).isSome = true ∧ Suits vs ks
  | _, _ => True

theorem conform_of_converts (h : (v.convert? k).isSome = true) :
    ∃ w, ∀ memory : Memory ω η, conform k v memory = (.ok w, memory) := by
  obtain ⟨w, hw⟩ := Option.isSome_iff_exists.1 h
  refine ⟨w, fun memory => ?_⟩
  rw [conform, hw]
  rfl

theorem conformAll_of_suits {vs : List Value} {ks : List Kind} (h : Suits vs ks) :
    ∃ ws, ∀ memory : Memory ω η, conformAll vs ks memory = (.ok ws, memory) := by
  induction vs generalizing ks with
  | nil => exact ⟨[], fun _ => rfl⟩
  | cons v vs ih =>
    cases ks with
    | nil => exact ⟨[], fun _ => rfl⟩
    | cons k ks =>
      obtain ⟨w, hw⟩ := conform_of_converts h.1
      obtain ⟨ws, hws⟩ := ih h.2
      exact ⟨w :: ws, fun memory => (bind_of_ok (hw memory)).trans (bind_of_ok (hws memory))⟩

/-- An effect yields what its body does, or fails with the message of its body. -/
theorem perform_ends (member : String) (e : Effect ω η α) (memory : Memory ω η) :
    (∃ a memory', perform member e memory = (.ok a, memory') ∧ (e memory.store).1 = .ok a) ∨
      ∃ message memory', perform member e memory = (.error (.invocation member message), memory') := by
  rw [perform_eq]
  rcases hr : e memory.store with ⟨message | a, store⟩
  · have hperform : (Effect.perform e memory.store).1 = .error message := congrArg Prod.fst hr
    exact .inr ⟨message, _, by rw [hperform]; rfl⟩
  · have hperform : (Effect.perform e memory.store).1 = .ok a := congrArg Prod.fst hr
    exact .inl ⟨a, _, by rw [hperform]; rfl, rfl⟩

theorem not_mismatched_return {member : String} {e : Effect ω η Value} (h : e.Honors k) :
    ¬ Mismatched ((perform member e >>= conform k) memory).1 := by
  rcases perform_ends member e memory with ⟨v, memory₁, hv, hyields⟩ | ⟨message, memory₁, hv⟩
  · obtain ⟨w, hw⟩ := conform_of_converts (ω := ω) (η := η) (h memory.store v hyields)
    rw [bind_of_ok hv, hw]
    exact not_mismatched_ok
  · rw [bind_of_error hv]
    exact fun h => nomatch mismatched_error.1 h

/-- A run of a starving generator stops before its body. -/
theorem run_starving (hargs : Suits args m.params) (hform : m.form = .generator)
    (hinput : m.input = .bool) :
    run s m args .null memory = (.error (.resultKind .bool .any), memory) := by
  obtain ⟨ws, hws⟩ := conformAll_of_suits (ω := ω) (η := η) hargs
  rw [run, bind_of_ok (hws memory)]
  cases hbody : m.body with
  | function body => simp [Member.form, hbody] at hform
  | generator body =>
    rw [hinput]
    rfl

/-- A run that has all that it asks for fails only by its body. -/
theorem not_mismatched_run (hargs : Suits args m.params)
    (hinput : m.form = .generator → (input.convert? m.input).isSome = true) (hm : m.Honest) :
    ¬ Mismatched (run s m args input memory).1 := by
  obtain ⟨ws, hws⟩ := conformAll_of_suits (ω := ω) (η := η) hargs
  rw [run, bind_of_ok (hws memory)]
  unfold Member.Honest at hm
  cases hbody : m.body with
  | function body =>
    rw [hbody] at hm
    exact not_mismatched_return (hm s ws)
  | generator body =>
    rw [hbody] at hm
    obtain ⟨w, hw⟩ := conform_of_converts (ω := ω) (η := η) (hinput (by rw [Member.form, hbody]))
    dsimp only
    rw [bind_of_ok (hw memory)]
    rcases perform_ends m.qualifiedName (body s ws) memory with
      ⟨next, memory₁, hnext, hyields⟩ | ⟨message, memory₁, hnext⟩
    · rw [bind_of_ok hnext]
      exact not_mismatched_return (hm s ws memory.store next hyields w)
    · rw [bind_of_error hnext]
      exact fun h => nomatch mismatched_error.1 h

end Eval

namespace Traced
variable {m : Traced ω η α} {e : Eval ω η α} {f : α → Traced ω η β} {x : Moment ω η}

/-- Whether a computation fails with a value that does not fit exactly if it starves a generator. -/
def Exact (I : Memos → Prop) (m : Traced ω η α) : Prop :=
  ∀ memory log r memory' log', m (memory, log) = (r, memory', log') → I memory.memos →
    ∃ new, log' = log ++ new ∧ (Mismatched r ↔ ∃ x ∈ new, x.Starves)

theorem exact_quietly (h : ∀ memory : Memory ω η, ¬ Mismatched (e memory).1) : Exact I (quietly e) := by
  intro memory log r memory' log' hr _
  obtain ⟨he, rfl⟩ := quietly_eq hr
  have hcalm := h memory
  rw [he] at hcalm
  exact ⟨[], (List.append_nil log').symm, iff_of_false hcalm (by simp)⟩

theorem Exact.pure (a : α) : Exact I (pure a : Traced ω η α) :=
  exact_quietly (e := (Pure.pure a : Eval ω η α)) fun _ => not_mismatched_ok

theorem Exact.throw {err : EvalError} (h : err.isMismatch = false) :
    Exact I (throw err : Traced ω η α) := by
  refine exact_quietly (e := (MonadExcept.throw err : Eval ω η α)) fun _ hmis => ?_
  rw [mismatched_error.1 hmis] at h
  cases h

/-- What goes on with a value has not starved anything so far. -/
theorem Exact.bind {Q : α → Prop} (hm : Exact I m) (hs : Shadows m e) (he : Eval.Ensures I e Q)
    (hf : ∀ a, Q a → Exact I (f a)) : Exact I (m >>= f) := by
  intro memory log r memory' log' hr hI
  rcases bind_ends hr with ⟨a, ⟨memory₁, log₁⟩, ha, hb⟩ | ⟨err, herr, rfl⟩
  · obtain ⟨new₁, rfl, hnew₁⟩ := hm _ _ _ _ _ ha hI
    obtain ⟨new, hshadow⟩ := hs memory log
    rw [ha] at hshadow
    have hplain : e memory = (.ok a, memory₁) :=
      Prod.ext (congrArg Prod.fst hshadow).symm (congrArg (·.2.1) hshadow).symm
    obtain ⟨hI₁, hQ⟩ := he _ _ _ hplain hI
    obtain ⟨new₂, rfl, hnew₂⟩ := hf a (hQ a rfl) _ _ _ _ _ hb hI₁
    have hcalm : ¬ ∃ x ∈ new₁, x.Starves := fun h => not_mismatched_ok (hnew₁.2 h)
    refine ⟨new₁ ++ new₂, List.append_assoc .., hnew₂.trans ?_⟩
    simp only [List.mem_append, or_and_right, exists_or, or_iff_right hcalm]
  · obtain ⟨new, rfl, hnew⟩ := hm _ _ _ _ _ herr hI
    exact ⟨new, rfl, mismatched_error.trans (mismatched_error.symm.trans hnew)⟩

theorem Exact.note {k : Unit → Traced ω η α} (hx : ¬ x.Starves) (hk : Exact I (k ())) :
    Exact I (Traced.note x >>= k) := by
  intro memory log r memory' log' hr hI
  obtain ⟨new, rfl, hnew⟩ := hk _ _ _ _ _ ((bind_of_ok (note_eq ..)).symm.trans hr) hI
  refine ⟨x :: new, by simp, hnew.trans ?_⟩
  simp [hx]

/-- Where a generator is starved, the rest has to fail. -/
theorem Exact.note_starving {k : Unit → Traced ω η α} {err : EvalError} (hx : x.Starves)
    (herr : err.isMismatch = true)
    (hk : ∀ memory log, k () (memory, log) = (.error err, memory, log)) :
    Exact I (Traced.note x >>= k) := by
  intro memory log r memory' log' hr _
  rw [bind_of_ok (note_eq ..), hk] at hr
  cases hr
  exact ⟨[x], rfl, iff_of_true (mismatched_error.2 herr) ⟨x, List.mem_singleton_self x, hx⟩⟩

theorem Exact.noteEnd {m : Traced ω η Value} {site : CallSite ω η} {capture : Capture}
    (hm : Exact I m) : Exact I (noteEnd site capture m) := by
  intro memory log r memory' log' hr hI
  obtain ⟨log₁, hm₁, rfl⟩ := noteEnd_eq hr
  obtain ⟨new, rfl, hnew⟩ := hm _ _ _ _ _ hm₁ hI
  refine ⟨new ++ [.ended site capture r], by simp, hnew.trans ?_⟩
  simp [Moment.Starves, or_and_right, exists_or]

end Traced

/-- What is piped fits the kind that the compiler knows it by. -/
inductive Arrives : Option Value → Option Kind → Prop
  | nothing : Arrives none none
  | value {v : Value} {k : Kind} (hv : v.Fits k) (hk : k ≠ .any) : Arrives (some v) (some k)

namespace Arrives
variable {input : Option Value} {piped : Option Kind} {m : Member ω η}

theorem isSome_eq (h : Arrives input piped) : input.isSome = piped.isSome := by
  cases h <;> rfl

/-- The input of a generator can be converted, if there is one. -/
theorem converts (h : Arrives input piped)
    (hacc : ∀ found, piped = some found → m.input.accepts found = true) :
    ∀ v, input = some v → (v.convert? m.input).isSome = true := by
  rintro v rfl
  cases h with
  | value hv hk => exact Value.converts_of_accepts (hacc _ rfl) hk fun _ => hv

/-- A piped value takes the place of the first parameter of a plain reference. -/
theorem suits (h : Arrives input piped)
    (hacc : ∀ found, piped = some found →
      (if m.form = .generator then m.input else m.params.headD .any).accepts found = true)
    {vs : List Value} (hvs : Eval.Suits vs (m.params.drop (Typing.pipedArity m.form piped))) :
    Eval.Suits (Eval.withPiped m input vs) m.params := by
  cases hform : m.form with
  | generator =>
    rw [hform] at hvs
    rw [Eval.withPiped, hform]
    simpa [Typing.pipedArity] using hvs
  | reference =>
    rw [hform] at hvs hacc
    rw [Eval.withPiped, hform]
    cases h with
    | nothing => exact hvs
    | value hv hk =>
      rename_i v k
      cases hparams : m.params with
      | nil => trivial
      | cons p ps =>
        rw [hparams] at hvs hacc
        exact ⟨Value.converts_of_accepts (hacc k rfl) hk fun _ => hv, hvs⟩

end Arrives

/-- Calls and kinds that occur in a term: the calls are among some others, and no kind is left open. -/
structure Known (sites calls : List (CallSite ω η)) (kinds : List Kind) : Prop where
  among : calls ⊆ sites
  closed : .any ∉ kinds
  members : ∀ site ∈ calls, site.member.FullyTyped

namespace Known
variable {sites calls calls' : List (CallSite ω η)} {site : CallSite ω η} {kinds kinds' : List Kind}
  {k : Kind}

theorem append (h : Known sites (calls ++ calls') (kinds ++ kinds')) :
    Known sites calls kinds ∧ Known sites calls' kinds' := by
  obtain ⟨hcalls, hcalls'⟩ := List.append_subset.1 h.among
  obtain ⟨hmembers, hmembers'⟩ := List.forall_mem_append.1 h.members
  exact ⟨⟨hcalls, fun hk => h.closed (List.mem_append_left _ hk), hmembers⟩,
    ⟨hcalls', fun hk => h.closed (List.mem_append_right _ hk), hmembers'⟩⟩

theorem tail (h : Known sites calls (k :: kinds)) : Known sites calls kinds :=
  ⟨h.among, fun hk => h.closed (List.mem_cons_of_mem _ hk), h.members⟩

theorem args (h : Known sites (site :: calls) kinds) : Known sites calls kinds :=
  ⟨fun _ hsite => h.among (List.mem_cons_of_mem _ hsite), h.closed,
    fun _ hsite => h.members _ (List.mem_cons_of_mem _ hsite)⟩

theorem kind_ne_any {t : Term ω η} (h : Known sites t.calls t.kinds) : t.kind ≠ .any :=
  fun hk => h.closed (hk ▸ t.kind_mem_kinds)

end Known

namespace Traced
variable {sites : List (CallSite ω η)} {site : CallSite ω η} {s : Situation} {n n' : Nat}

/-- What stands where a value is needed yields one that fits. -/
theorem ensures_fits {e : Ast} {expected : Kind} {piped : Option Kind} {t : Term ω η}
    (hslots : (sites.filterMap CallSite.slot).Nodup) (hexpected : expected ≠ .unit)
    (h : Typing.term ns scope expected piped e n = (.ok t, n')) (hsub : t.calls ⊆ sites)
    (input : Option Value) :
    Eval.Ensures (Remembers sites) (Eval.term s input t) fun v => v.Fits t.kind :=
  (Eval.ensures_term hslots s t input hsub).imp fun _ hv => hv (Typing.kinded_term ns scope e hexpected h)

theorem ensures_suits (hslots : (sites.filterMap CallSite.slot).Nodup) {es : List Ast}
    {reference : String} {index : Nat} {params : List Kind} {ts : List (Term ω η)}
    (h : Typing.arguments ns scope reference index params es n = (.ok ts, n'))
    (hknown : Known sites (Term.callsOfAll ts) (Term.kindsOfAll ts)) :
    Eval.Ensures (Remembers sites) (Eval.terms s ts) fun vs => Eval.Suits vs params := by
  induction es generalizing index params n ts with
  | nil =>
    cases h
    exact .pure trivial
  | cons e es ih =>
    obtain ⟨t, n₁, rest, ht, hacc, hrest, rfl⟩ := Typing.arguments_cons_ok h
    obtain ⟨hknown₁, hknown₂⟩ := hknown.append
    have hvalue : Eval.Ensures (Remembers sites) (Eval.term s none t) fun v =>
        (v.convert? (params.headD .any)).isSome = true := by
      refine (Eval.ensures_term hslots s t none hknown₁.among).imp fun v hv => ?_
      refine Value.converts_of_accepts hacc hknown₁.kind_ne_any fun hunit => ?_
      exact hv (Typing.kinded_term ns scope e hunit ht)
    rw [Eval.terms]
    refine hvalue.bind fun v hv => (ih hrest hknown₂).bind fun vs hvs => .pure ?_
    cases params with
    | nil => trivial
    | cons k ks => exact ⟨hv, hvs⟩

/-- A condition that the compiler knows to be a boolean is decided. -/
theorem exact_condition {t : Term ω η} {k : Bool → Traced ω η β}
    (ht : Exact (Remembers sites) (term s none t))
    (hfits : Eval.Ensures (Remembers sites) (Eval.term s none t) fun v => v.Fits t.kind)
    (hkind : Kind.bool.accepts t.kind = true) (hne : t.kind ≠ .any)
    (hk : ∀ b, Exact (Remembers sites) (k b)) :
    Exact (Remembers sites) (term s none t >>= fun v => quietly (Eval.truth v) >>= k) := by
  refine ht.bind (shadows_term s t none) hfits fun v hv => ?_
  obtain ⟨b, rfl⟩ := Value.eq_bool_of_accepts hkind hne hv
  exact (exact_quietly fun _ => not_mismatched_ok).bind (shadows_quietly _) Eval.ensures_truth
    fun b _ => hk b

theorem exact_compareValues {op : Operator} {l r : Value} :
    Exact (Remembers sites) (quietly (Eval.compareValues op l r : Eval ω η Value)) := by
  unfold Eval.compareValues
  split
  · exact .pure _
  · exact .pure _
  · split
    · exact .pure _
    · exact .throw rfl

/-- A call goes wrong in its arguments, or because it starves its member. -/
theorem exact_call (site : CallSite ω η) {args : List (Term ω η)} {input : Option Value}
    (hslots : (sites.filterMap CallSite.slot).Nodup) (hsite : site ∈ sites)
    (hargs : Exact (Remembers sites) (terms s args))
    (hsuits : Eval.Ensures (Remembers sites) (Eval.terms s args) fun vs =>
      Eval.Suits (Eval.withPiped site.member input vs) site.member.params)
    (hpiped : site.piped = input.isSome)
    (hinput : site.member.form = .generator →
      ∀ v, input = some v → (v.convert? site.member.input).isSome = true)
    (hhonest : site.member.Honest) :
    Exact (Remembers sites)
      (term s input (.call site.member args site.piped site.slot site.position)) := by
  rw [term]
  refine Exact.bind (exact_quietly fun _ => not_mismatched_ok) (shadows_quietly _)
    (Eval.ensures_remembered hsite) fun o _ => ?_
  cases o with
  | some v => exact .note nofun (.pure v)
  | none =>
    refine .note nofun (.noteEnd (hargs.bind (shadows_terms s args) hsuits fun values hvalues => ?_))
    by_cases hstarves : site.Starves
    · obtain ⟨hp, hform, hbool⟩ := hstarves
      have hnone : input = none := by
        rw [hp] at hpiped
        exact Option.not_isSome_iff_eq_none.1 (by rw [← hpiped]; exact nofun)
      subst hnone
      have hmismatch : (EvalError.resultKind .bool .any).isMismatch = true := rfl
      refine .note_starving ⟨hp, hform, hbool⟩ hmismatch ?_
      intro memory log
      exact bind_of_error (quietly_of_eq (Eval.run_starving hvalues hform hbool))
    · refine .note hstarves ?_
      have hrun (memory : Memory ω η) : ¬ Mismatched
          (Eval.run s site.member (Eval.withPiped site.member input values) (input.getD .null)
            memory).1 := by
        refine Eval.not_mismatched_run hvalues (fun hform => ?_) hhonest
        cases input with
        | some v => exact hinput hform v rfl
        | none =>
          have hbool : site.member.input ≠ .bool := fun h => hstarves ⟨hpiped, hform, h⟩
          exact Value.converts_of_fits (.inr (.inr (.inl ⟨rfl, hbool⟩)))
      refine (exact_quietly hrun).bind (shadows_quietly _) Eval.ensures_run fun v hv => ?_
      refine Exact.bind (exact_quietly fun memory => ?_) (shadows_quietly _)
        (Eval.ensures_remember hslots hsite hv) fun _ _ => .pure v
      rw [Eval.remember_eq]
      exact not_mismatched_ok

/-- The call that the compiler makes of a reference goes wrong in its arguments only, or because it
starves its member. -/
theorem exact_reference {form : CallForm} {owner : Option String} {name : String} {arity position : Nat}
    {piped : Option Kind} {input : Option Value} {m : Member ω η} {es : List Ast} {n₁ : Nat}
    {args : List (Term ω η)} {t : Term ω η} (hslots : (sites.filterMap CallSite.slot).Nodup)
    (hresolve : Typing.resolve ns scope owner name arity form piped position n = (.ok m, n))
    (hargs : Typing.arguments ns scope m.qualifiedName (Typing.pipedArity form piped)
      (m.params.drop (Typing.pipedArity form piped)) es n = (.ok args, n₁))
    (hcall : Typing.finishCall m args piped position n₁ = (.ok t, n'))
    (hknown : Known sites t.calls t.kinds) (harrives : Arrives input piped)
    (hexact : Known sites (Term.callsOfAll args) (Term.kindsOfAll args) →
      Exact (Remembers sites) (terms s args)) : Exact (Remembers sites) (term s input t) := by
  obtain ⟨slot, rfl⟩ := Typing.finishCall_ok hcall
  obtain ⟨hm, hacc⟩ := Typing.resolve_ok hresolve
  have hform := Namespace.form_of_resolve hm
  subst hform
  have hknown' := hknown.args.tail
  have hmember := hknown.members _ List.mem_cons_self
  refine exact_call ⟨m, piped.isSome, slot, position⟩ hslots
    (hknown.among List.mem_cons_self) (hexact hknown') ?_ harrives.isSome_eq.symm ?_ hmember.honest
  · exact (ensures_suits hslots hargs hknown').imp fun vs hvs => harrives.suits hacc hvs
  · intro hform
    refine harrives.converts fun found hfound => ?_
    have haccepts := hacc found hfound
    rwa [if_pos hform] at haccepts

mutual

/-- A compiled term whose kinds are all known goes wrong exactly if it starves a generator. -/
theorem exact_term (hslots : (sites.filterMap CallSite.slot).Nodup) (s : Situation) :
    ∀ (e : Ast) {expected : Kind} {piped : Option Kind} {n n' : Nat} {t : Term ω η}
      {input : Option Value}, Typing.term ns scope expected piped e n = (.ok t, n') →
      Known sites t.calls t.kinds → Arrives input piped → Exact (Remembers sites) (term s input t)
  | .literal v _, _, _, _, _, _, _, h, _, _ => by
    cases h
    exact .pure v
  | .call form owner name none position, _, _, _, _, _, _, h, hknown, harrives => by
    obtain ⟨m, ts, n₁, hm, hts, hcall⟩ := Typing.term_call_ok h
    refine exact_reference hslots hm hts hcall hknown harrives fun _ => ?_
    cases hts
    exact .pure []
  | .call form owner name (some args) position, _, _, _, _, _, _, h, hknown, harrives => by
    obtain ⟨m, ts, n₁, hm, hts, hcall⟩ := Typing.term_call_ok h
    exact exact_reference hslots hm hts hcall hknown harrives fun hknown' =>
      exact_arguments hslots s args hts hknown'
  | .conditional bs none _, _, _, _, _, _, _, h, hknown, _ => by
    obtain ⟨kind, bs', hbs, rfl⟩ := Typing.term_conditional_none_ok h
    rw [term]
    refine (exact_branches hslots s bs hbs hknown.tail).bind (shadows_branches s bs')
      (Eval.ensures_branches hslots s bs' hknown.among) fun o _ => ?_
    cases o with
    | some v => exact .pure v
    | none =>
      dsimp only
      split
      · exact .pure _
      · exact .throw rfl
  | .conditional bs (some other) _, _, _, _, _, _, _, h, hknown, _ => by
    obtain ⟨kind, bs', n₁, last, hbs, hlast, _, rfl⟩ := Typing.term_conditional_some_ok h
    obtain ⟨hknown₁, hknown₂⟩ := hknown.tail.append
    rw [term]
    refine (exact_branches hslots s bs hbs hknown₁).bind (shadows_branches s bs')
      (Eval.ensures_branches hslots s bs' hknown₁.among) fun o _ => ?_
    cases o with
    | some v => exact .pure v
    | none => exact exact_term hslots s other hlast hknown₂ .nothing
  | .operation op left right _, _, _, _, _, _, _, h, hknown, _ => by
    obtain ⟨l, n₁, r, hl, hr, hlogical, rfl⟩ := Typing.term_operation_ok h
    obtain ⟨hknown₁, hknown₂⟩ := hknown.tail.append
    have hleft := exact_term hslots s left hl hknown₁ .nothing
    have hright {input : Option Value} (h : Arrives input (if op = .chain then some l.kind else none)) :=
      exact_term hslots s right hr hknown₂ h
    have hl' := Eval.ensures_term hslots s l none hknown₁.among
    have hr' := Eval.ensures_term hslots s r none hknown₂.among
    have hany : Kind.any ≠ .unit := nofun
    have hbool : Kind.bool ≠ .unit := nofun
    rw [term.eq_def]
    cases op with
    | sequence => exact hleft.bind (shadows_term s l none) hl' fun _ _ => hright .nothing
    | chain =>
      refine hleft.bind (shadows_term s l none) (ensures_fits hslots hany hl hknown₁.among none)
        fun v hv => ?_
      exact hright (.value hv hknown₁.kind_ne_any)
    | or =>
      obtain ⟨hlk, hrk⟩ := hlogical (.inr rfl)
      refine exact_condition hleft (ensures_fits hslots hbool hl hknown₁.among none) hlk
        hknown₁.kind_ne_any fun b => ?_
      split
      · exact .pure _
      · exact exact_condition (hright .nothing) (ensures_fits hslots hbool hr hknown₂.among none) hrk
          hknown₂.kind_ne_any fun _ => .pure _
    | and =>
      obtain ⟨hlk, hrk⟩ := hlogical (.inl rfl)
      refine exact_condition hleft (ensures_fits hslots hbool hl hknown₁.among none) hlk
        hknown₁.kind_ne_any fun b => ?_
      split
      · exact exact_condition (hright .nothing) (ensures_fits hslots hbool hr hknown₂.among none) hrk
          hknown₂.kind_ne_any fun _ => .pure _
      · exact .pure _
    | _ =>
      exact hleft.bind (shadows_term s l none) hl' fun _ _ =>
        (hright .nothing).bind (shadows_term s r none) hr' fun _ _ => exact_compareValues
termination_by structural e => e

theorem exact_arguments (hslots : (sites.filterMap CallSite.slot).Nodup) (s : Situation) :
    ∀ (es : List Ast) {reference : String} {index : Nat} {params : List Kind} {n n' : Nat}
      {ts : List (Term ω η)},
      Typing.arguments ns scope reference index params es n = (.ok ts, n') →
      Known sites (Term.callsOfAll ts) (Term.kindsOfAll ts) → Exact (Remembers sites) (terms s ts)
  | [], _, _, _, _, _, _, h, _ => by
    cases h
    exact .pure []
  | e :: es, _, _, _, _, _, _, h, hknown => by
    obtain ⟨t, n₁, rest, ht, _, hrest, rfl⟩ := Typing.arguments_cons_ok h
    obtain ⟨hknown₁, hknown₂⟩ := hknown.append
    rw [terms]
    exact (exact_term hslots s e ht hknown₁ .nothing).bind (shadows_term s t none)
      (Eval.ensures_term hslots s t none hknown₁.among) fun _ _ =>
        (exact_arguments hslots s es hrest hknown₂).bind (shadows_terms s rest)
          (Eval.ensures_terms hslots s rest hknown₂.among) fun _ _ => .pure _
termination_by structural es => es

theorem exact_branches (hslots : (sites.filterMap CallSite.slot).Nodup) (s : Situation) :
    ∀ (bs : List (Ast × Ast)) {expected : Kind} {kind kind' : Option Kind} {n n' : Nat}
      {bs' : List (Term ω η × Term ω η)},
      Typing.branches ns scope expected kind bs n = (.ok (kind', bs'), n') →
      Known sites (Term.callsOfBranches bs') (Term.kindsOfBranches bs') →
      Exact (Remembers sites) (branches s bs')
  | [], _, _, _, _, _, _, h, _ => by
    cases h
    exact .pure none
  | (guard, body) :: bs, _, _, _, _, _, _, h, hknown => by
    obtain ⟨g, n₁, b, n₂, rest, hg, hgk, hb, _, hrest, rfl⟩ := Typing.branches_cons_ok h
    obtain ⟨hpair, hknown₃⟩ := hknown.append
    obtain ⟨hknown₁, hknown₂⟩ := hpair.append
    have hbool : Kind.bool ≠ .unit := nofun
    rw [branches]
    refine exact_condition (exact_term hslots s guard hg hknown₁ .nothing)
      (ensures_fits hslots hbool hg hknown₁.among none) hgk hknown₁.kind_ne_any fun c => ?_
    split
    · exact (exact_term hslots s body hb hknown₂ .nothing).bind (shadows_term s b none)
        (Eval.ensures_term hslots s b none hknown₂.among) fun _ _ => .pure _
    · exact exact_branches hslots s bs hrest hknown₃
termination_by structural bs => bs

end

end Traced

/-- An expression whose kinds are all known fails with a value that does not fit exactly if it runs a
generator of booleans into which nothing is piped: whatever its members do, and whatever the
expressions of its compiler have left in memory. The record that tells which members it runs changes
nothing. -/
theorem mismatch_iff_starved {requests : List Request} {x : Expression ω η} {memory : Memory ω η}
    (s : Situation) (hx : x ∈ compiled ns requests)
    (hmemos : Written (compiled ns requests) memory.memos) (htyped : x.FullyTyped) :
    ∃ log, Traced.evaluate x s (memory, []) =
        ((x.evaluate s memory).1, (x.evaluate s memory).2, log) ∧
      (Mismatched (x.evaluate s memory).1 ↔ ∃ y ∈ log, y.Starves) := by
  obtain ⟨scope, e, n, n', ht, hkind⟩ := mem_compiled hx
  have hslots := nodup_slots ns requests
  have hsub := calls_subset_callsOf hx
  have hknown : Known (callsOf (compiled ns requests)) x.term.calls x.term.kinds :=
    ⟨hsub, htyped.kinds, htyped.members⟩
  have hexact : Traced.Exact (Remembers (callsOf (compiled ns requests))) (Traced.evaluate x s) := by
    refine (Traced.exact_term hslots s e ht hknown .nothing).bind (Traced.shadows_term s x.term none)
      (Eval.ensures_term hslots s x.term none hsub) fun v hv => ?_
    have hconverts := Value.converts_of_accepts hkind hknown.kind_ne_any fun hunit =>
      hv (Typing.kinded_term ns scope e hunit ht)
    obtain ⟨w, hw⟩ := Eval.conform_of_converts (ω := ω) (η := η) hconverts
    refine Traced.exact_quietly fun memory => ?_
    rw [hw]
    exact not_mismatched_ok
  obtain ⟨log, hlog⟩ := Traced.shadows_evaluate x s memory []
  rw [List.nil_append] at hlog
  obtain ⟨_, rfl, hiff⟩ := hexact _ _ _ _ _ hlog (remembers_of_written hmemos)
  exact ⟨_, hlog, hiff⟩

/-- A generator that takes a boolean and yields one. -/
def tossing : Member Unit Unit :=
  .generator "Coin" "toss" [] .bool .bool fun _ _ => pure fun _ => pure (.bool true)

def coins : Namespace Unit Unit := Namespace.empty.register tossing

/-- The generator once by itself, and once at the end of a chain. -/
def tosses : List Request :=
  [.tree none .bool (.call .generator (some "Coin") "toss" none 0),
    .tree none .bool (.operation .chain (.literal (.bool false) 0)
      (.call .generator (some "Coin") "toss" none 9) 6)]

def bareToss : Expression Unit Unit := ⟨.call tossing [] false none 0, .bool, none⟩

def chainedToss : Expression Unit Unit :=
  ⟨.operation .chain (.literal (.bool false)) (.call tossing [] true none 9) .bool, .bool, none⟩

theorem compiled_tosses : compiled coins tosses = [bareToss, chainedToss] := rfl

theorem fullyTyped_tossing : tossing.FullyTyped := by
  refine ⟨nofun, nofun, nofun, ?_⟩
  rintro _ _ store _ ⟨⟩ v store' _ ⟨⟩
  rfl

def nowhere : Situation := ⟨none, []⟩

def noMemory : Memory Unit Unit := ⟨⟨∅, none, ()⟩, .empty⟩

/-- At the end of a chain the generator has its input, and nothing goes wrong. -/
theorem chained_toss_fits :
    (chainedToss.evaluate nowhere noMemory).1 = .ok (.bool true) ∧
      ∃ log, Traced.evaluate chainedToss nowhere (noMemory, []) =
          ((chainedToss.evaluate nowhere noMemory).1, (chainedToss.evaluate nowhere noMemory).2, log) ∧
        (Mismatched (chainedToss.evaluate nowhere noMemory).1 ↔ ∃ y ∈ log, y.Starves) := by
  have hx : chainedToss ∈ compiled coins tosses := by
    rw [compiled_tosses]
    exact List.mem_cons_of_mem _ List.mem_cons_self
  have htyped : chainedToss.FullyTyped := by
    refine ⟨by decide, fun site hsite => ?_⟩
    cases List.mem_singleton.1 hsite
    exact fullyTyped_tossing
  exact ⟨rfl, mismatch_iff_starved nowhere hx .empty htyped⟩

/-- By itself the generator is compiled as well, with all kinds known, and never runs. -/
theorem bare_toss_mismatched :
    bareToss ∈ compiled coins tosses ∧ bareToss.FullyTyped ∧
      Written (compiled coins tosses) noMemory.memos ∧
      (bareToss.evaluate nowhere noMemory).1 = .error (.resultKind .bool .any) := by
  refine ⟨?_, ⟨by decide, fun site hsite => ?_⟩, .empty, rfl⟩
  · rw [compiled_tosses]
    exact List.mem_cons_self
  · cases List.mem_singleton.1 hsite
    exact fullyTyped_tossing

end Expr
end ChatFlow
