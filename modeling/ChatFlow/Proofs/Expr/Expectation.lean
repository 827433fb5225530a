import ChatFlow.Proofs.Expr.Kinds

/-! What the kind that is expected of an expression decides: whether the expression is accepted, and
what its results are converted to. Unless results are discarded, the term does not depend on it. -/
namespace ChatFlow.Expr
variable {ω η α β : Type} {ns : Namespace ω η} {scope : Option String} {expected : Kind} {n n' : Nat}

namespace Typing
variable {m m' : Typing α}

/-- The second compilation succeeds wherever the first one does, with the same result and after handing
out the same slots. -/
def Relaxes (m m' : Typing α) : Prop := ∀ n a n', m n = (.ok a, n') → m' n = (.ok a, n')

theorem Relaxes.refl (m : Typing α) : Relaxes m m := fun _ _ _ h => h

theorem Relaxes.bind {f f' : α → Typing β} (hm : Relaxes m m') (hf : ∀ a, Relaxes (f a) (f' a)) :
    Relaxes (m >>= f) (m' >>= f') := by
  intro n b n' h
  obtain ⟨a, n₁, ha, hb⟩ := bind_ends_ok h
  rw [bind_of_ok (hm n a n₁ ha)]
  exact hf a n₁ b n' hb

/-- No kind is refused where any kind will do. -/
theorem relaxes_check (expected found : Kind) (position : Nat) :
    Relaxes (check expected found position) (check .any found position) := by
  intro n u n' h
  unfold check at h
  split at h
  · exact h
  · cases h

mutual

/-- The expected kind is passed on to bodies and right sides and looked at by checks only, but that a
conditional whose result is discarded may match nothing. The induction follows the three functions that
call each other. -/
theorem relaxes_term (ns : Namespace ω η) (scope : Option String) (hexpected : expected ≠ .unit) :
    ∀ (e : Ast) (piped : Option Kind),
      Relaxes (term ns scope expected piped e) (term ns scope .any piped e)
  | .literal v _, _ => .refl _
  | .call form owner name args position, piped => by
    rw [term_call, term_call]
    exact .refl _
  | .conditional bs none _, _ => by
    rw [term, term]
    apply (relaxes_branches ns scope hexpected bs none).bind
    intro compiled
    rw [beq_false_of_ne hexpected]
    exact .refl _
  | .conditional bs (some other) _, _ => by
    rw [term, term]
    apply (relaxes_branches ns scope hexpected bs none).bind
    intro compiled
    apply (relaxes_term ns scope hexpected other none).bind
    intro last
    apply Relaxes.bind (relaxes_check expected last.kind _)
    intro _
    rw [beq_false_of_ne hexpected]
    exact .refl _
  | .operation op left right _, _ => by
    have hright (piped : Option Kind) : Relaxes (term ns scope (rightKind expected op) piped right)
        (term ns scope (rightKind .any op) piped right) := by
      cases op with
      | chain | sequence => exact relaxes_term ns scope hexpected right piped
      | _ => exact .refl _
    rw [term_operation, term_operation]
    apply (Relaxes.refl _).bind
    intro _
    apply (Relaxes.refl _).bind
    intro l
    apply (Relaxes.refl _).bind
    intro _
    exact (hright _).bind fun r => .refl _
termination_by structural e => e

theorem relaxes_branches (ns : Namespace ω η) (scope : Option String) (hexpected : expected ≠ .unit) :
    ∀ (bs : List (Ast × Ast)) (kind : Option Kind),
      Relaxes (branches ns scope expected kind bs) (branches ns scope .any kind bs)
  | [], _ => .refl _
  | (guard, body) :: bs, kind => by
    rw [branches, branches]
    apply (Relaxes.refl _).bind
    intro g
    apply (Relaxes.refl _).bind
    intro _
    apply (relaxes_term ns scope hexpected body none).bind
    intro b
    apply Relaxes.bind (relaxes_check expected b.kind _)
    intro _
    exact (relaxes_branches ns scope hexpected bs _).bind fun _ => .refl _
termination_by structural bs => bs

end

end Typing

/-- How an evaluation ends when its value is converted to a kind afterwards. -/
def converted (expected : Kind) : Except EvalError Value → Except EvalError Value
  | .ok v =>
    match v.convert? expected with
    | some w => .ok w
    | none => .error (.resultKind expected v.kind)
  | .error e => .error e

theorem Eval.conform_eq (expected : Kind) (v : Value) (memory : Memory ω η) :
    Eval.conform expected v memory = (converted expected (.ok v), memory) := by
  simp only [Eval.conform, converted]
  cases v.convert? expected <;> rfl

theorem Expression.evaluate_any {x : Expression ω η} (hany : x.expected = .any) (s : Situation) :
    x.evaluate s = Eval.term s none x.term := by
  funext memory
  rcases hr : Eval.term s none x.term memory with ⟨e | v, memory'⟩
  · exact bind_of_error hr
  · exact (bind_of_ok hr).trans (by rw [hany]; rfl)

/-- Converting is the last step of an evaluation and has no effects. -/
theorem Expression.evaluate_eq_converted (x : Expression ω η) (s : Situation) (memory : Memory ω η) :
    x.evaluate s memory = (converted x.expected (Eval.term s none x.term memory).1,
      (Eval.term s none x.term memory).2) := by
  rcases hr : Eval.term s none x.term memory with ⟨e | v, memory'⟩
  · exact bind_of_error hr
  · exact (bind_of_ok hr).trans (Eval.conform_eq x.expected v memory')

/-- What is accepted where a kind is expected is accepted where any kind will do, with the same term
and the same slots. The results are then the same, converted to the expected kind, and so are all
effects. -/
theorem compile_for_any {e : Ast} {x : Expression ω η} (hexpected : expected ≠ .unit)
    (h : Typing.compile ns scope expected e n = (.ok x, n')) :
    Typing.compile ns scope .any e n = (.ok { x with expected := .any }, n') ∧
    ∀ (s : Situation) (memory : Memory ω η),
      x.evaluate s memory =
        (converted expected ({ x with expected := .any }.evaluate s memory).1,
          ({ x with expected := .any }.evaluate s memory).2) := by
  obtain ⟨t, ht, hkind, rfl⟩ := Typing.compile_ok h
  refine ⟨?_, fun s memory => ?_⟩
  · have hany := Typing.relaxes_term ns scope hexpected e none n t n' ht
    exact bind_of_ok hany
  · have hany : Expression.evaluate ⟨t, .any, none⟩ s = Eval.term s none t :=
      Expression.evaluate_any rfl s
    rw [hany]
    exact Expression.evaluate_eq_converted ⟨t, expected, none⟩ s memory

/-- The number of a ticket, or two. -/
def fare : Ast :=
  .conditional [(.literal (.bool true) 0, .call .reference (some "Desk") "ticket" none 0)]
    (some (.literal (.float (.ofInt 2)) 0)) 0

/-- The number of the ticket is an integer, which widens where a float is expected. -/
theorem fare_for_any :
    (Typing.compile desk none .float fare 0).1 = .ok someTicket ∧
    Typing.compile desk none .any fare 0 = (.ok { someTicket with expected := .any }, 1) ∧
    ({ someTicket with expected := .any }.evaluate atDesk freshDesk).1 = .ok (.int 5) ∧
    (someTicket.evaluate atDesk freshDesk).1 = .ok (.float (.ofInt 5)) := by
  have hcompiled : Typing.compile desk none .float fare 0 = (.ok someTicket, 1) := rfl
  have hfive : ({ someTicket with expected := .any }.evaluate atDesk freshDesk).1 = .ok (.int 5) := rfl
  obtain ⟨hany, hconverts⟩ := compile_for_any (by decide) hcompiled
  refine ⟨congrArg Prod.fst hcompiled, hany, hfive, ?_⟩
  rw [hconverts, hfive]
  rfl

end ChatFlow.Expr
