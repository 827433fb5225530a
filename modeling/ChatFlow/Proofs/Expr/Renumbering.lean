import ChatFlow.Proofs.Expr.Typing

/-! Terms with other slots: a compilation that starts from another slot makes the same terms up to their
slots. -/
namespace ChatFlow.Expr
variable {ω η α β γ δ : Type} {f : α → β} {g : γ → δ} (slots : Nat → Nat)

namespace Term

mutual

/-- The term with other slots. -/
def renumber : Term ω η → Term ω η
  | literal v => literal v
  | call m args piped slot position => call m (renumberAll args) piped (slot.map slots) position
  | conditional bs none kind fallThrough => conditional (renumberBranches bs) none kind fallThrough
  | conditional bs (some last) kind fallThrough =>
    conditional (renumberBranches bs) (some (renumber last)) kind fallThrough
  | operation op left right kind => operation op (renumber left) (renumber right) kind
termination_by structural t => t

def renumberAll : List (Term ω η) → List (Term ω η)
  | [] => []
  | t :: ts => renumber t :: renumberAll ts
termination_by structural ts => ts

def renumberBranches : List (Term ω η × Term ω η) → List (Term ω η × Term ω η)
  | [] => []
  | (guard, body) :: bs => (renumber guard, renumber body) :: renumberBranches bs
termination_by structural bs => bs

end

@[simp] theorem kind_renumber (t : Term ω η) : (t.renumber slots).kind = t.kind := by
  rcases t with _ | _ | ⟨_, _ | _, _, _⟩ | _ <;> rfl

variable (more : Nat → Nat)

mutual

theorem renumber_renumber : ∀ t : Term ω η,
    (t.renumber slots).renumber more = t.renumber (more ∘ slots)
  | literal _ => rfl
  | call .. => by simp only [renumber, renumberAll_renumberAll, Option.map_map]
  | conditional _ none .. => by simp only [renumber, renumberBranches_renumberBranches]
  | conditional _ (some last) .. => by
    simp only [renumber, renumberBranches_renumberBranches, renumber_renumber last]
  | operation _ left right _ => by
    simp only [renumber, renumber_renumber left, renumber_renumber right]
termination_by structural t => t

theorem renumberAll_renumberAll : ∀ ts : List (Term ω η),
    renumberAll more (renumberAll slots ts) = renumberAll (more ∘ slots) ts
  | [] => rfl
  | t :: ts => by simp only [renumberAll, renumber_renumber t, renumberAll_renumberAll ts]
termination_by structural ts => ts

theorem renumberBranches_renumberBranches : ∀ bs : List (Term ω η × Term ω η),
    renumberBranches more (renumberBranches slots bs) = renumberBranches (more ∘ slots) bs
  | [] => rfl
  | (guard, body) :: bs => by
    simp only [renumberBranches, renumber_renumber guard, renumber_renumber body,
      renumberBranches_renumberBranches bs]
termination_by structural bs => bs

end
end Term

namespace Expression

def renumber (x : Expression ω η) : Expression ω η := { x with term := x.term.renumber slots }

@[simp] theorem renumber_renumber (more : Nat → Nat) (x : Expression ω η) :
    (x.renumber slots).renumber more = x.renumber (more ∘ slots) := by
  simp only [renumber, Term.renumber_renumber]

end Expression

variable {slots}

/-- What a computation over the number of slots handed out may yield: the number before, the value, and
the number after. -/
abbrev Run (α : Type) := Nat → α → Nat → Prop

/-- Whether the second computation yields what the first one does, with the slots that it hands out
renamed, whenever they are handed out in the same order from another one on. -/
def Run.Moves (slots : Nat → Nat) (f : α → β) (r : Run α) (r' : Run β) : Prop :=
  ∀ n a n₁, r n a n₁ → ∃ u, n₁ = n + u ∧
    ∀ n', (∀ j < u, slots (n + j) = n' + j) → r' n' (f a) (n' + u)

/-- One computation after another. -/
def Run.andThen (r : Run α) (k : α → Run γ) : Run γ :=
  fun n b n₂ => ∃ a n₁, r n a n₁ ∧ k a n₁ b n₂

theorem Run.Moves.andThen {r : Run α} {r' : Run β} {k : α → Run γ} {k' : β → Run δ}
    (hr : Moves slots f r r') (hk : ∀ n a n₁, r n a n₁ → Moves slots g (k a) (k' (f a))) :
    Moves slots g (r.andThen k) (r'.andThen k') := by
  rintro n b n₂ ⟨a, n₁, ha, hb⟩
  obtain ⟨u, rfl, hfirst⟩ := hr n a n₁ ha
  obtain ⟨v, rfl, hsecond⟩ := hk n a _ ha (n + u) b n₂ hb
  refine ⟨u + v, Nat.add_assoc .., fun n' hslots => ⟨f a, n' + u, ?_, ?_⟩⟩
  · exact hfirst n' fun j hj => hslots j (Nat.lt_add_right v hj)
  · rw [← Nat.add_assoc]
    refine hsecond (n' + u) fun j hj => ?_
    rw [Nat.add_assoc, hslots (u + j) (Nat.add_lt_add_left hj u), Nat.add_assoc]

namespace Typing
variable {ns : Namespace ω η} {scope : Option String} {piped : Option Kind} {position : Nat}
  {m : Typing α} {m' : Typing β}

/-- What a compilation yields when it succeeds. -/
def ends (m : Typing α) : Run α := fun n a n₁ => m n = (.ok a, n₁)

/-- The second compilation succeeds where the first one does, with other slots. -/
def Moves (slots : Nat → Nat) (f : α → β) (m : Typing α) (m' : Typing β) : Prop :=
  Run.Moves slots f m.ends m'.ends

theorem Moves.pure (a : α) : Moves slots f (pure a) (pure (f a)) := by
  rintro n _ _ ⟨⟩
  exact ⟨0, rfl, fun n' _ => rfl⟩

theorem Moves.fail (reason : ParseReason) (position : Nat) :
    Moves slots f (fail reason position) (fail reason position) := by
  rintro n _ _ ⟨⟩

theorem ends_bind (m : Typing α) (k : α → Typing γ) :
    (m >>= k).ends = m.ends.andThen fun a => (k a).ends := by
  funext n b n₂
  refine propext ⟨fun h => bind_ends_ok h, ?_⟩
  rintro ⟨a, n₁, ha, hb⟩
  exact (bind_of_ok ha).trans hb

theorem Moves.bind {k : α → Typing γ} {k' : β → Typing δ} (hm : Moves slots f m m')
    (hk : ∀ a, Moves slots g (k a) (k' (f a))) : Moves slots g (m >>= k) (m' >>= k') := by
  rw [Moves, ends_bind, ends_bind]
  exact Run.Moves.andThen hm fun _ a _ _ => hk a

/-- Checks hand out no slots. -/
theorem Checks.moves (hm : Checks m) : Moves slots id m m := by
  obtain ⟨r, hr⟩ := hm
  intro n a n₁ h
  obtain ⟨rfl, rfl⟩ := Prod.mk.inj ((hr n).symm.trans h)
  exact ⟨0, rfl, fun n' _ => hr n'⟩

theorem moves_finishCall {member : Member ω η} {args : List (Term ω η)} :
    Moves slots (Term.renumber slots) (finishCall member args piped position)
      (finishCall member (Term.renumberAll slots args) piped position) := by
  intro n t n₁ h
  rw [ends, finishCall_eq] at h
  cases hcaching : member.caching with
  | never =>
    rw [hcaching] at h
    cases h
    exact ⟨0, rfl, fun n' _ => by rw [ends, finishCall_eq, hcaching]; rfl⟩
  | perEvent =>
    rw [hcaching] at h
    cases h
    refine ⟨1, rfl, fun n' hslots => ?_⟩
    rw [ends, finishCall_eq, hcaching, Term.renumber, Option.map_some]
    exact congrArg (fun slot => (Except.ok (Term.call member _ _ (some slot) _), n' + 1))
      (hslots 0 Nat.one_pos).symm

variable (slots)

mutual

theorem moves_term (ns : Namespace ω η) (scope : Option String) :
    ∀ (e : Ast) (expected : Kind) (piped : Option Kind), Moves slots (Term.renumber slots)
      (term ns scope expected piped e) (term ns scope expected piped e)
  | .literal v _, _, _ => .pure (Term.literal v)
  | .call form owner name none position, expected, piped => by
    rw [term_call]
    exact checks_resolve.moves.bind fun m =>
      (Moves.pure (f := Term.renumberAll slots) []).bind fun _ => moves_finishCall
  | .call form owner name (some args) position, expected, piped => by
    rw [term_call]
    exact checks_resolve.moves.bind fun m =>
      (moves_arguments ns scope args m.qualifiedName _ _).bind fun _ => moves_finishCall
  | .conditional bs none _, expected, piped => by
    rw [term]
    exact (moves_branches ns scope bs expected none).bind fun _ => .pure _
  | .conditional bs (some other) _, expected, piped => by
    rw [term]
    refine (moves_branches ns scope bs expected none).bind fun _ =>
      (moves_term ns scope other expected none).bind fun last => ?_
    rw [Term.kind_renumber]
    exact checks_check.moves.bind fun _ => .pure _
  | .operation op left right _, expected, piped => by
    rw [term_operation]
    refine checks_target.moves.bind fun _ =>
      (moves_term ns scope left _ none).bind fun l => ?_
    rw [Term.kind_renumber]
    refine checks_logical.moves.bind fun _ => (moves_term ns scope right _ _).bind fun r => ?_
    rw [Term.kind_renumber]
    exact checks_logical.moves.bind fun _ => checks_ordered.moves.bind fun _ => .pure _
termination_by structural e => e

theorem moves_arguments (ns : Namespace ω η) (scope : Option String) :
    ∀ (es : List Ast) (reference : String) (index : Nat) (params : List Kind),
      Moves slots (Term.renumberAll slots) (arguments ns scope reference index params es)
        (arguments ns scope reference index params es)
  | [], _, _, _ => .pure []
  | e :: es, reference, index, params => by
    rw [arguments]
    refine (moves_term ns scope e _ none).bind fun t => ?_
    rw [Term.kind_renumber]
    split
    · exact (moves_arguments ns scope es reference _ _).bind fun _ => .pure _
    · exact .fail _ _
termination_by structural es => es

theorem moves_branches (ns : Namespace ω η) (scope : Option String) :
    ∀ (bs : List (Ast × Ast)) (expected : Kind) (kind : Option Kind),
      Moves slots (Prod.map id (Term.renumberBranches slots)) (branches ns scope expected kind bs)
        (branches ns scope expected kind bs)
  | [], _, kind => .pure (kind, [])
  | (guard, body) :: bs, expected, kind => by
    rw [branches]
    refine (moves_term ns scope guard _ none).bind fun g => ?_
    rw [Term.kind_renumber]
    refine checks_check.moves.bind fun _ => (moves_term ns scope body _ none).bind fun b => ?_
    rw [Term.kind_renumber]
    exact checks_check.moves.bind fun _ =>
      (moves_branches ns scope bs expected _).bind fun _ => .pure _
termination_by structural bs => bs

end

theorem moves_compileText (ns : Namespace ω η) (scope : Option String) (expected : Kind) (text : String) :
    Moves slots (Expression.renumber slots) (compileText ns scope expected text)
      (compileText ns scope expected text) := by
  have hcompile (e : Ast) : Moves slots (Expression.renumber slots) (compile ns scope expected e)
      (compile ns scope expected e) := by
    refine (moves_term slots ns scope e expected none).bind fun t => ?_
    rw [Term.kind_renumber]
    exact checks_check.moves.bind fun _ => .pure _
  unfold compileText
  cases parseText text with
  | error e => exact fun _ _ _ h => by cases h
  | ok e => exact (hcompile e).bind fun _ => .pure _

end Typing
end ChatFlow.Expr
