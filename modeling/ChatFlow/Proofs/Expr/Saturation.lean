import ChatFlow.Proofs.Expr.Compiled

/-! The compiler counts arguments as the members do: every call has one value for each parameter, be it
written or piped. -/
namespace ChatFlow.Expr
variable {ω η : Type} {ns : Namespace ω η} {scope : Option String} {piped : Option Kind}

theorem Namespace.arity_of_resolve {owner : Option String} {name : String} {arity : Nat}
    {form : CallForm} {m : Member ω η} (h : ns.resolve scope owner name arity form = .ok m) :
    m.arity = arity := by
  have hcandidate := (List.mem_filter.1 (mem_candidates_of_resolve h)).2
  simp only [Bool.and_eq_true] at hcandidate
  exact eq_of_beq hcandidate.1.2

/-- Number of parameters that a piped value takes. -/
def Member.pipedCount (m : Member ω η) (piped : Bool) : Nat :=
  if piped && m.form == .reference then 1 else 0

namespace Term

/-- Whether each call of a term has one value for each parameter of its member, where something is
piped into the term or nothing is. Only the right side of a chain has something piped into it. -/
inductive Saturated : Bool → Term ω η → Prop
  | literal {piped : Bool} (v : Value) : Saturated piped (.literal v)
  | call {m : Member ω η} {args : List (Term ω η)} {piped : Bool} {slot position}
      (count : m.arity = args.length + m.pipedCount piped) (each : ∀ t ∈ args, Saturated false t) :
      Saturated piped (.call m args piped slot position)
  | conditional {piped : Bool} {bs : List (Term ω η × Term ω η)} {otherwise : Option (Term ω η)}
      {kind : Kind} {fallThrough : Bool} (guards : ∀ b ∈ bs, Saturated false b.1)
      (bodies : ∀ b ∈ bs, Saturated false b.2) (last : ∀ t ∈ otherwise, Saturated false t) :
      Saturated piped (.conditional bs otherwise kind fallThrough)
  | operation {piped : Bool} {op : Operator} {l r : Term ω η} {kind : Kind}
      (left : Saturated false l) (right : Saturated (op == .chain) r) :
      Saturated piped (.operation op l r kind)

end Term

namespace Typing

theorem length_arguments (ns : Namespace ω η) (scope : Option String) (es : List Ast)
    {reference : String} {index : Nat} {params : List Kind} {n n' : Nat} {ts : List (Term ω η)}
    (h : arguments ns scope reference index params es n = (.ok ts, n')) :
    ts.length = es.length := by
  induction es generalizing index params n n' ts with
  | nil =>
    cases h
    rfl
  | cons e es ih =>
    obtain ⟨t, n₁, rest, _, _, hrest, rfl⟩ := arguments_cons_ok h
    exact congrArg (· + 1) (ih hrest)

theorem saturated_finishCall {form : CallForm} {owner : Option String} {name : String}
    {position n n₁ n' : Nat} {m : Member ω η} {args : List (Term ω η)} {t : Term ω η}
    (hm : resolve ns scope owner name args.length form piped position n = (.ok m, n))
    (hargs : ∀ t ∈ args, t.Saturated false)
    (h : finishCall m args piped position n₁ = (.ok t, n')) : t.Saturated piped.isSome := by
  obtain ⟨slot, rfl⟩ := finishCall_ok h
  have hresolved := (resolve_ok hm).1
  refine .call ?_ hargs
  rw [Namespace.arity_of_resolve hresolved, Member.pipedCount, Namespace.form_of_resolve hresolved]
  rfl

mutual

theorem saturated_term (ns : Namespace ω η) (scope : Option String) :
    ∀ (e : Ast) {expected : Kind} {piped : Option Kind} {n n' : Nat} {t : Term ω η},
      term ns scope expected piped e n = (.ok t, n') → t.Saturated piped.isSome
  | .literal v _, _, _, _, _, _, h => by
    cases h
    exact .literal v
  | .call form owner name none position, _, _, _, _, _, h => by
    obtain ⟨m, ts, n₁, hm, hts, hcall⟩ := term_call_ok h
    cases hts
    exact saturated_finishCall hm (fun _ ht => absurd ht List.not_mem_nil) hcall
  | .call form owner name (some args) position, _, _, _, _, _, h => by
    obtain ⟨m, ts, n₁, hm, hts, hcall⟩ := term_call_ok h
    rw [← length_arguments ns scope _ hts] at hm
    exact saturated_finishCall hm (saturated_arguments ns scope args hts) hcall
  | .conditional bs none _, _, _, _, _, _, h => by
    obtain ⟨kind, bs', hbs, rfl⟩ := term_conditional_none_ok h
    obtain ⟨hguards, hbodies⟩ := saturated_branches ns scope bs hbs
    exact .conditional hguards hbodies nofun
  | .conditional bs (some other) _, _, _, _, _, _, h => by
    obtain ⟨kind, bs', n₁, last, hbs, hlast, _, rfl⟩ := term_conditional_some_ok h
    obtain ⟨hguards, hbodies⟩ := saturated_branches ns scope bs hbs
    refine .conditional hguards hbodies ?_
    rintro _ ⟨⟩
    exact saturated_term ns scope other hlast
  | .operation op left right _, _, _, _, _, _, h => by
    obtain ⟨l, n₁, r, hl, hr, _, rfl⟩ := term_operation_ok h
    have hright := saturated_term ns scope right hr
    refine .operation (saturated_term ns scope left hl) ?_
    cases op <;> exact hright
termination_by structural e => e

theorem saturated_arguments (ns : Namespace ω η) (scope : Option String) :
    ∀ (es : List Ast) {reference : String} {index : Nat} {params : List Kind} {n n' : Nat}
      {ts : List (Term ω η)}, arguments ns scope reference index params es n = (.ok ts, n') →
      ∀ t ∈ ts, t.Saturated false
  | [], _, _, _, _, _, _, h => by
    cases h
    exact fun _ ht => absurd ht List.not_mem_nil
  | e :: es, _, _, _, _, _, _, h => by
    obtain ⟨t, n₁, rest, ht, _, hrest, rfl⟩ := arguments_cons_ok h
    exact List.forall_mem_cons.2 ⟨saturated_term ns scope e ht, saturated_arguments ns scope es hrest⟩
termination_by structural es => es

theorem saturated_branches (ns : Namespace ω η) (scope : Option String) :
    ∀ (bs : List (Ast × Ast)) {expected : Kind} {kind kind' : Option Kind} {n n' : Nat}
      {bs' : List (Term ω η × Term ω η)},
      branches ns scope expected kind bs n = (.ok (kind', bs'), n') →
      (∀ b ∈ bs', b.1.Saturated false) ∧ ∀ b ∈ bs', b.2.Saturated false
  | [], _, _, _, _, _, _, h => by
    cases h
    exact ⟨fun _ hb => absurd hb List.not_mem_nil, fun _ hb => absurd hb List.not_mem_nil⟩
  | (guard, body) :: bs, _, _, _, _, _, _, h => by
    obtain ⟨g, n₁, b, n₂, rest, hg, _, hb, _, hrest, rfl⟩ := branches_cons_ok h
    obtain ⟨hguards, hbodies⟩ := saturated_branches ns scope bs hrest
    exact ⟨List.forall_mem_cons.2 ⟨saturated_term ns scope guard hg, hguards⟩,
      List.forall_mem_cons.2 ⟨saturated_term ns scope body hb, hbodies⟩⟩
termination_by structural bs => bs

end

end Typing
end ChatFlow.Expr
