import ChatFlow.Proofs.Expr.Typing

/-! What one compiler makes of one expression after the other: no slot belongs to two calls. -/
namespace ChatFlow.Expr
variable {ω η α β : Type} {ns : Namespace ω η} {piped : Option Kind} {n n₁ n' position : Nat}

namespace Typing
variable {t : Term ω η}

/-- Slots are only ever handed out, also by a compilation that fails in the end. -/
def Grows (m : Typing α) : Prop := ∀ n, n ≤ (m n).2

theorem Checks.grows {m : Typing α} (hm : Checks m) : Grows m := by
  obtain ⟨r, hr⟩ := hm
  exact fun n => Nat.le_of_eq (congrArg Prod.snd (hr n)).symm

theorem Grows.bind {m : Typing α} {f : α → Typing β} (hm : Grows m) (hf : ∀ a, Grows (f a)) :
    Grows (m >>= f) := by
  intro n
  have hn := hm n
  rcases hr : m n with ⟨e | a, n₁⟩
  · rw [bind_of_error hr]
    simpa [hr] using hn
  · rw [bind_of_ok hr]
    rw [hr] at hn
    exact Nat.le_trans hn (hf a n₁)

theorem grows_finishCall {m : Member ω η} {args : List (Term ω η)} :
    Grows (finishCall m args piped position) := by
  intro n
  rw [finishCall_eq]
  cases m.caching
  · exact Nat.le_refl n
  · exact Nat.le_succ n

mutual

theorem grows_term (ns : Namespace ω η) (scope : Option String) :
    ∀ (e : Ast) (expected : Kind) (piped : Option Kind), Grows (term ns scope expected piped e)
  | .literal v _, _, _ => (Checks.pure (Term.literal v)).grows
  | .call form owner name none position, expected, piped => by
    rw [term_call]
    exact checks_resolve.grows.bind fun m =>
      (Checks.pure (α := List (Term ω η)) []).grows.bind fun _ => grows_finishCall
  | .call form owner name (some args) position, expected, piped => by
    rw [term_call]
    exact checks_resolve.grows.bind fun m =>
      (grows_arguments ns scope args m.qualifiedName _ _).bind fun _ => grows_finishCall
  | .conditional bs none _, expected, piped => by
    rw [term]
    exact (grows_branches ns scope bs expected none).bind fun _ => (Checks.pure _).grows
  | .conditional bs (some other) _, expected, piped => by
    rw [term]
    exact (grows_branches ns scope bs expected none).bind fun _ =>
      (grows_term ns scope other expected none).bind fun _ =>
        checks_check.grows.bind fun _ => (Checks.pure _).grows
  | .operation op left right _, expected, piped => by
    rw [term_operation]
    exact checks_target.grows.bind fun _ =>
      (grows_term ns scope left _ none).bind fun l => checks_logical.grows.bind fun _ =>
        (grows_term ns scope right _ _).bind fun r => checks_logical.grows.bind fun _ =>
          checks_ordered.grows.bind fun _ => (Checks.pure _).grows
termination_by structural e => e

theorem grows_arguments (ns : Namespace ω η) (scope : Option String) :
    ∀ (es : List Ast) (reference : String) (index : Nat) (params : List Kind),
      Grows (arguments ns scope reference index params es)
  | [], _, _, _ => (Checks.pure []).grows
  | e :: es, reference, index, params => by
    rw [arguments]
    refine (grows_term ns scope e _ none).bind fun t => ?_
    split
    · exact (grows_arguments ns scope es reference _ _).bind fun _ => (Checks.pure _).grows
    · exact (Checks.fail _ _).grows
termination_by structural es => es

theorem grows_branches (ns : Namespace ω η) (scope : Option String) :
    ∀ (bs : List (Ast × Ast)) (expected : Kind) (kind : Option Kind),
      Grows (branches ns scope expected kind bs)
  | [], _, kind => (Checks.pure (kind, [])).grows
  | (guard, body) :: bs, expected, kind => by
    rw [branches]
    exact (grows_term ns scope guard _ none).bind fun _ => checks_check.grows.bind fun _ =>
      (grows_term ns scope body _ none).bind fun _ => checks_check.grows.bind fun _ =>
        (grows_branches ns scope bs expected _).bind fun _ => (Checks.pure _).grows
termination_by structural bs => bs

end

end Typing

/-- Calls with slots of their own, handed out between two numbers of slots. -/
structure Fresh (n n' : Nat) (calls : List (CallSite ω η)) : Prop where
  le : n ≤ n'
  nodup : (calls.filterMap CallSite.slot).Nodup
  bounds : ∀ k ∈ calls.filterMap CallSite.slot, n ≤ k ∧ k < n'

namespace Fresh
variable {calls calls' : List (CallSite ω η)}

theorem nil (h : n ≤ n') : Fresh n n' ([] : List (CallSite ω η)) := ⟨h, .nil, nofun⟩

theorem append (h₁ : Fresh n n₁ calls) (h₂ : Fresh n₁ n' calls') : Fresh n n' (calls ++ calls') := by
  have hle := h₁.le
  have hle' := h₂.le
  refine ⟨by omega, ?_, ?_⟩
  · rw [List.filterMap_append, List.nodup_append]
    refine ⟨h₁.nodup, h₂.nodup, ?_⟩
    intro k hk k' hk'
    have hbound := h₁.bounds k hk
    have hbound' := h₂.bounds k' hk'
    omega
  · intro k hk
    rw [List.filterMap_append, List.mem_append] at hk
    rcases hk with hk | hk
    · have hbound := h₁.bounds k hk
      omega
    · have hbound := h₂.bounds k hk
      omega

/-- A call stands before its arguments and takes its slot after them. -/
theorem call {site : CallSite ω η} (h : Fresh n n₁ calls) (hslot : site.slot = some n₁) :
    Fresh n (n₁ + 1) (site :: calls) := by
  have hle := h.le
  refine ⟨by omega, ?_, ?_⟩
  · rw [List.filterMap_cons_some hslot, List.nodup_cons]
    refine ⟨fun hk => ?_, h.nodup⟩
    have hbound := h.bounds n₁ hk
    omega
  · intro k hk
    rw [List.filterMap_cons_some hslot, List.mem_cons] at hk
    rcases hk with rfl | hk
    · omega
    · have hbound := h.bounds k hk
      omega

theorem call_none {site : CallSite ω η} (h : Fresh n n' calls) (hslot : site.slot = none) :
    Fresh n n' (site :: calls) := by
  refine ⟨h.le, ?_, ?_⟩ <;> rw [List.filterMap_cons_none hslot]
  · exact h.nodup
  · exact h.bounds

end Fresh

namespace Typing
variable {t : Term ω η}

theorem fresh_finishCall {m : Member ω η} {args : List (Term ω η)}
    (hargs : Fresh n n₁ (Term.callsOfAll args))
    (h : finishCall m args piped position n₁ = (.ok t, n')) : Fresh n n' t.calls := by
  rw [finishCall_eq] at h
  cases hc : m.caching <;> rw [hc] at h <;> cases h
  · exact hargs.call_none rfl
  · exact hargs.call rfl

theorem gathers_fresh (ns : Namespace ω η) (scope : Option String) : Gathers ns scope Fresh where
  nil := fun n => .nil (Nat.le_refl n)
  append := Fresh.append
  finish := fun _ hargs h => fresh_finishCall hargs h

/-- A successful compilation hands out a slot of its own to each call that has one. -/
theorem fresh_term (ns : Namespace ω η) (scope : Option String) (e : Ast) {expected : Kind}
    {piped : Option Kind} {n n' : Nat} {t : Term ω η}
    (h : term ns scope expected piped e n = (.ok t, n')) : Fresh n n' t.calls :=
  (gathers_fresh ns scope).term e h

end Typing

/-- What a compiler may be asked to compile: an expression, or the text of one. -/
inductive Request where
  | tree (scope : Option String) (expected : Kind) (e : Ast)
  | text (scope : Option String) (expected : Kind) (source : String)

namespace Request

def compile (ns : Namespace ω η) : Request → Typing (Expression ω η)
  | .tree scope expected e => Typing.compile ns scope expected e
  | .text scope expected source => Typing.compileText ns scope expected source

theorem grows_compile (ns : Namespace ω η) (scope : Option String) (expected : Kind) (e : Ast) :
    (Typing.compile ns scope expected e).Grows :=
  (Typing.grows_term ns scope e expected none).bind fun _ =>
    Typing.checks_check.grows.bind fun _ => (Typing.Checks.pure _).grows

theorem grows (ns : Namespace ω η) (request : Request) : (request.compile ns).Grows := by
  cases request with
  | tree scope expected e => exact grows_compile ns scope expected e
  | text scope expected source =>
    rw [compile, Typing.compileText]
    cases parseText source with
    | error e => exact fun n => Nat.le_refl n
    | ok e => exact (grows_compile ns scope expected e).bind fun _ => (Typing.Checks.pure _).grows

/-- Whether from a text or not, an expression is compiled from a tree. -/
theorem compile_ok {request : Request} {x : Expression ω η}
    (h : request.compile ns n = (.ok x, n')) :
    ∃ scope e, Typing.term ns scope x.expected none e n = (.ok x.term, n') ∧
      x.expected.accepts x.term.kind = true := by
  cases request with
  | tree scope expected e =>
    obtain ⟨t, ht, hkind, rfl⟩ := Typing.compile_ok h
    exact ⟨scope, e, ht, hkind⟩
  | text scope expected source =>
    rw [compile, Typing.compileText] at h
    cases hp : parseText source with
    | error e =>
      rw [hp] at h
      cases h
    | ok e =>
      rw [hp] at h
      obtain ⟨x, n₁, hx, h⟩ := bind_ends_ok h
      obtain ⟨t, ht, hkind, rfl⟩ := Typing.compile_ok hx
      cases h
      exact ⟨scope, e, ht, hkind⟩

end Request

/-- The expressions that a compiler makes of requests, one after the other. A request that it
refuses may have taken slots. -/
def compiledFrom (ns : Namespace ω η) : List Request → Nat → List (Expression ω η)
  | [], _ => []
  | request :: rest, n =>
    match request.compile ns n with
    | (.ok x, n') => x :: compiledFrom ns rest n'
    | (.error _, n') => compiledFrom ns rest n'

/-- The expressions of a new compiler. -/
def compiled (ns : Namespace ω η) (requests : List Request) : List (Expression ω η) :=
  compiledFrom ns requests 0

/-- The calls in some expressions. -/
def callsOf (xs : List (Expression ω η)) : List (CallSite ω η) := xs.flatMap fun x => x.term.calls

theorem calls_subset_callsOf {xs : List (Expression ω η)} {x : Expression ω η} (hx : x ∈ xs) :
    x.term.calls ⊆ callsOf xs := by
  intro site hsite
  exact List.mem_flatMap.2 ⟨x, hx, hsite⟩

theorem mem_compiledFrom {requests : List Request} {x : Expression ω η}
    (h : x ∈ compiledFrom ns requests n) :
    ∃ scope e n₁ n₂, Typing.term ns scope x.expected none e n₁ = (.ok x.term, n₂) ∧
      x.expected.accepts x.term.kind = true := by
  induction requests generalizing n with
  | nil => cases h
  | cons request rest ih =>
    rw [compiledFrom] at h
    rcases hr : request.compile ns n with ⟨e | y, n'⟩ <;> rw [hr] at h
    · exact ih h
    · rcases List.mem_cons.1 h with rfl | h
      · obtain ⟨scope, e, h⟩ := Request.compile_ok hr
        exact ⟨scope, e, n, n', h⟩
      · exact ih h

theorem mem_compiled {requests : List Request} {x : Expression ω η} (h : x ∈ compiled ns requests) :
    ∃ scope e n₁ n₂, Typing.term ns scope x.expected none e n₁ = (.ok x.term, n₂) ∧
      x.expected.accepts x.term.kind = true :=
  mem_compiledFrom h

/-- Number of slots handed out after some requests, refused ones included. -/
def allocatedFrom (ns : Namespace ω η) : List Request → Nat → Nat
  | [], n => n
  | request :: rest, n => allocatedFrom ns rest (request.compile ns n).2

/-- Number of slots that a new compiler has handed out after some requests. -/
def allocated (ns : Namespace ω η) (requests : List Request) : Nat := allocatedFrom ns requests 0

theorem fresh_allocatedFrom (ns : Namespace ω η) (requests : List Request) (n : Nat) :
    Fresh n (allocatedFrom ns requests n) (callsOf (compiledFrom ns requests n)) := by
  induction requests generalizing n with
  | nil => exact .nil (Nat.le_refl n)
  | cons request rest ih =>
    have hgrows := request.grows ns n
    rw [compiledFrom, allocatedFrom]
    rcases hr : request.compile ns n with ⟨e | x, n₁⟩ <;> rw [hr] at hgrows
    · exact (Fresh.nil hgrows).append (ih n₁)
    · obtain ⟨_, _, ht, _⟩ := Request.compile_ok hr
      exact (Typing.fresh_term _ _ _ ht).append (ih n₁)

/-- All slots of a compiler's expressions differ. -/
theorem nodup_slots (ns : Namespace ω η) (requests : List Request) :
    ((callsOf (compiled ns requests)).filterMap CallSite.slot).Nodup :=
  (fresh_allocatedFrom ns requests 0).nodup

/-- Where an optional value never occurs twice in a list, it tells which element it belongs to. -/
theorem eq_of_nodup_filterMap {f : α → Option β} {l : List α} {a a' : α} {b : β}
    (h : (l.filterMap f).Nodup) (ha : a ∈ l) (ha' : a' ∈ l) (hb : f a = some b)
    (hb' : f a' = some b) : a = a' := by
  induction l with
  | nil => cases ha
  | cons c rest ih =>
    cases hc : f c with
    | none =>
      rw [List.filterMap_cons_none hc] at h
      refine ih h ?_ ?_
      · exact (List.mem_cons.1 ha).resolve_left fun he => by rw [he, hc] at hb; cases hb
      · exact (List.mem_cons.1 ha').resolve_left fun he => by rw [he, hc] at hb'; cases hb'
    | some d =>
      rw [List.filterMap_cons_some hc, List.nodup_cons] at h
      obtain ⟨hd, h⟩ := h
      have hcb {x : α} (hx : x ∈ rest) (hfx : f x = some b) : f c ≠ some b := by
        intro hcb
        rw [hcb] at hc
        cases hc
        exact hd (List.mem_filterMap.2 ⟨x, hx, hfx⟩)
      rcases List.mem_cons.1 ha with hac | hr <;> rcases List.mem_cons.1 ha' with hac' | hr'
      · exact hac.trans hac'.symm
      · exact absurd (hac ▸ hb) (hcb hr' hb')
      · exact absurd (hac' ▸ hb') (hcb hr hb)
      · exact ih h hr hr'

end ChatFlow.Expr
