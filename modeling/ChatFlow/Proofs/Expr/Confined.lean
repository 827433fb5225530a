import ChatFlow.Proofs.Expr.Purity

/-! Computations that have nothing to do with the world outside of a session. -/
namespace ChatFlow
variable {ε σ ω η α β : Type}

/-- Whether a computation does not know the part in which states may have been changed: it ends with the same
result, and leaves the same state but for the change. What it yields has a property. -/
structure Ignores (change : σ → σ) (m : ExceptT ε (StateM σ) α) (Q : α → Prop) : Prop where
  same : ∀ s, m (change s) = ((m s).1, change (m s).2)
  yields : ∀ s a, (m s).1 = .ok a → Q a

namespace Ignores
variable {change : σ → σ} {m : ExceptT ε (StateM σ) α} {f : α → ExceptT ε (StateM σ) β} {P Q : α → Prop}
  {R : β → Prop}

theorem pure {a : α} (h : Q a) : Ignores change (pure a : ExceptT ε (StateM σ) α) Q := by
  refine ⟨fun _ => rfl, ?_⟩
  rintro _ _ ⟨⟩
  exact h

theorem throw (e : ε) : Ignores change (throw e : ExceptT ε (StateM σ) α) Q :=
  ⟨fun _ => rfl, fun _ _ h => nomatch h⟩

theorem bind (hm : Ignores change m Q) (hf : ∀ a, Q a → Ignores change (f a) R) :
    Ignores change (m >>= f) R := by
  constructor
  · intro s
    have hsame := hm.same s
    rcases hr : m s with ⟨e | a, s₁⟩ <;> rw [hr] at hsame
    · rw [bind_of_error hr, bind_of_error hsame]
    · rw [bind_of_ok hr, bind_of_ok hsame]
      exact (hf a (hm.yields s a (by rw [hr]))).same s₁
  · intro s b hb
    rcases hr : m s with ⟨e | a, s₁⟩
    · rw [bind_of_error hr] at hb
      cases hb
    · rw [bind_of_ok hr] at hb
      exact (hf a (hm.yields s a (by rw [hr]))).yields s₁ b hb

theorem tryCatch {k : ε → ExceptT ε (StateM σ) α} (hm : Ignores change m Q)
    (hk : ∀ e, Ignores change (k e) Q) : Ignores change (tryCatch m k) Q := by
  constructor
  · intro s
    have hsame := hm.same s
    rcases hr : m s with ⟨e | a, s₁⟩ <;> rw [hr] at hsame
    · rw [tryCatch_of_error hr, tryCatch_of_error hsame]
      exact (hk e).same s₁
    · rw [tryCatch_of_ok hr, tryCatch_of_ok hsame]
  · intro s a ha
    rcases hr : m s with ⟨e | a', s₁⟩
    · rw [tryCatch_of_error hr] at ha
      exact (hk e).yields s₁ a ha
    · rw [tryCatch_of_ok hr] at ha
      exact hm.yields s a (by rw [hr]; exact ha)

theorem modify {f : σ → σ} (hf : ∀ s, f (change s) = change (f s)) :
    Ignores change (modify f : ExceptT ε (StateM σ) Unit) fun _ => True :=
  ⟨fun s => congrArg (Prod.mk _) (hf s), fun _ _ _ => trivial⟩

end Ignores

namespace Expr
variable {world : ω} {Q : α → Prop}

/-- The same variables and handler in another world. -/
def Store.inWorld (world : ω) (store : Store ω η) : Store ω η := { store with world }

/-- An effect is confined to its session if it neither reads nor changes the world outside. What it yields has
a property. -/
def Effect.Confined (e : Effect ω η α) (Q : α → Prop) : Prop :=
  ∀ world, Ignores (Store.inWorld world) e Q

/-- A body is confined if its effects are; the function that a generator yields has to be so, too. -/
def Body.IsConfined : Body ω η → Prop
  | .function run => ∀ s args, Effect.Confined (run s args) fun _ => True
  | .generator run =>
    ∀ s args, Effect.Confined (run s args) fun next => ∀ input, Effect.Confined (next input) fun _ => True

def Member.IsConfined (m : Member ω η) : Prop := m.body.IsConfined

/-- Whether an expression calls confined members only. -/
def Expression.IsConfined (e : Expression ω η) : Prop := ∀ call ∈ e.term.calls, call.member.IsConfined

/-- Whether instances are made afresh: all in the same state, whatever the world is like, which is left alone. -/
def Factory.IsFresh (factory : Factory ω η) : Prop := ∃ state, ∀ world, factory.make world = (state, world)

namespace Namespace
variable {ns : Namespace ω η}

/-- Whether all handlers are made afresh. -/
def MakesFresh (ns : Namespace ω η) : Prop :=
  ∀ owner factory, ns.factory? owner = some factory → factory.IsFresh

theorem makesFresh_of_no_factories (h : ns.factories = ∅) : ns.MakesFresh := by
  intro owner factory hfactory
  rw [factory?, h] at hfactory
  cases hfactory

theorem MakesFresh.registerFactory (h : ns.MakesFresh) (owner : String) {factory : Factory ω η}
    (hfactory : factory.IsFresh) : (ns.registerFactory owner factory).MakesFresh := by
  intro owner' factory' hget
  simp only [factory?, Namespace.registerFactory, Table.get?_insert] at hget
  split at hget
  · cases hget
    exact hfactory
  · exact h owner' factory' hget

end Namespace

namespace Effect
variable {e : Effect ω η α}

theorem Confined.perform_inWorld (h : Confined e Q) (world : ω) (store : Store ω η) :
    perform e (store.inWorld world) = ((perform e store).1, (perform e store).2.inWorld world) := by
  have hsame := (h world).same store
  have hperform (store : Store ω η) : perform e store =
      ((e store).1, { (e store).2 with handler := store.handler.map fun h => (e store).2.handler.getD h }) := rfl
  rw [hperform, hperform, hsame]
  rfl

end Effect

namespace Member
variable {τ : Type} {type : HandlerType η τ} {label : String} {run : ExceptT String (StateM (τ × Store ω η)) α}

/-- In every world, there is no handler to run against, or it is detached for the run and comes back. -/
theorem onHandler_cases (type : HandlerType η τ) (label : String)
    (run : ExceptT String (StateM (τ × Store ω η)) α) (store : Store ω η) :
    (∃ message, ∀ world, onHandler type label run (store.inWorld world) =
      (.error message, store.inWorld world)) ∨
    ∃ t, ∀ world, onHandler type label run (store.inWorld world) =
      let r := run (Prod.map id (Store.inWorld world) (t, { store with handler := none }))
      (r.1, { r.2.2 with handler := some (type.put r.2.1) }) := by
  obtain ⟨bindings, _ | h, _⟩ := store
  · exact Or.inl ⟨_, fun _ => rfl⟩
  · cases hget : type.get? h with
    | none =>
      refine Or.inl ⟨s!"active handler is not a {type.name}", fun world => ?_⟩
      simp only [onHandler, Store.inWorld, hget]
    | some t => exact Or.inr ⟨t, fun world => by simp only [onHandler, Store.inWorld, hget]; rfl⟩

/-- What runs against the active handler is confined if it does the same with this handler in any world. -/
theorem confined_onHandler (hrun : ∀ world, Ignores (Prod.map id (Store.inWorld world)) run Q) :
    Effect.Confined (onHandler type label run) Q := by
  intro world
  constructor
  · intro store
    rcases onHandler_cases type label run store with ⟨message, h⟩ | ⟨t, h⟩
    · have hhere : onHandler type label run store = _ := h store.world
      rw [h, hhere]
      rfl
    · have hhere : onHandler type label run store = _ := h store.world
      rw [h, hhere, (hrun world).same]
      rfl
  · intro store a ha
    rcases onHandler_cases type label run store with ⟨message, h⟩ | ⟨t, h⟩
    · have hhere : onHandler type label run store = _ := h store.world
      rw [hhere] at ha
      cases ha
    · have hhere : onHandler type label run store = _ := h store.world
      rw [hhere] at ha
      exact (hrun world).yields _ a ha

end Member

def Memory.inWorld (world : ω) (memory : Memory ω η) : Memory ω η :=
  { memory with store := memory.store.inWorld world }

namespace Eval
variable {change : Memory ω η → Memory ω η} {s : Situation} {m : Member ω η} {args : List Value} {input v : Value}
  {slot : Option Nat}

/-- What changes nothing and depends on no memory does not depend on the world either. -/
theorem ignores_of_settled {m : Eval ω η α} (h : Settled none fun _ => m) : Ignores change m fun _ => True := by
  obtain ⟨r, hr⟩ := h
  have heq (memory : Memory ω η) : m memory = (r, memory) := hr ⟨none, []⟩ memory rfl
  exact ⟨fun memory => by rw [heq, heq], fun _ _ _ => trivial⟩

theorem ignores_perform {name : String} {e : Effect ω η α} (h : Effect.Confined e Q) :
    Ignores (Memory.inWorld world) (perform name e) Q := by
  constructor
  · intro memory
    have hsame := h.perform_inWorld world memory.store
    have hstore : (memory.inWorld world).store = memory.store.inWorld world := rfl
    rw [perform_eq, perform_eq, hstore, hsame]
    rfl
  · intro memory a ha
    rw [perform_eq] at ha
    exact (h memory.store.world).yields memory.store a (mapError_eq_ok.1 ha)

theorem ignores_run (hm : m.IsConfined) :
    Ignores (Memory.inWorld world) (run s m args input) fun _ => True := by
  unfold run
  refine (ignores_of_settled settled_conformAll).bind fun args _ => ?_
  unfold Member.IsConfined at hm
  cases hbody : m.body with
  | function body =>
    rw [hbody] at hm
    exact (ignores_perform (hm s args)).bind fun _ _ => ignores_of_settled settled_conform
  | generator body =>
    rw [hbody] at hm
    refine (ignores_of_settled settled_conform).bind fun input _ => ?_
    refine (ignores_perform (hm s args)).bind fun next hnext => ?_
    exact (ignores_perform (hnext input)).bind fun _ _ => ignores_of_settled settled_conform

theorem ignores_remembered :
    Ignores (Memory.inWorld world) (remembered s m slot) fun _ => True :=
  ⟨fun _ => rfl, fun _ _ _ => trivial⟩

theorem ignores_remember : Ignores (Memory.inWorld world) (remember s m slot v) fun _ => True := by
  refine ⟨fun memory => ?_, fun _ _ _ => trivial⟩
  rw [remember_eq, remember_eq]
  rfl

/-- A comparison looks at nothing but the two values. -/
theorem ignores_compareValues {op : Operator} {l r : Value} :
    Ignores change (compareValues op l r) fun _ => True :=
  ignores_of_settled settled_compareValues

theorem ignores_truth : Ignores change (truth v) fun _ => True := ignores_of_settled settled_truth

mutual

theorem ignores_term (world : ω) (s : Situation) : ∀ (t : Term ω η) (piped : Option Value),
    (∀ call ∈ t.calls, call.member.IsConfined) →
    Ignores (Memory.inWorld world) (term s piped t) fun _ => True
  | .literal v, _, _ => .pure trivial
  | .call m args piped slot position, input, h => by
    obtain ⟨hm, hargs⟩ := List.forall_mem_cons.1 h
    rw [term]
    refine ignores_remembered.bind fun found _ => ?_
    cases found with
    | some v => exact .pure trivial
    | none =>
      refine (ignores_terms world s args hargs).bind fun values _ => (ignores_run hm).bind fun v _ => ?_
      exact ignores_remember.bind fun _ _ => .pure trivial
  | .conditional bs none kind fallThrough, _, h => by
    rw [term]
    refine (ignores_branches world s bs h).bind fun found _ => ?_
    cases found with
    | some v => exact .pure trivial
    | none =>
      dsimp only
      split
      · exact .pure trivial
      · exact .throw _
  | .conditional bs (some last) kind fallThrough, _, h => by
    obtain ⟨hbs, hlast⟩ := List.forall_mem_append.1 h
    rw [term]
    refine (ignores_branches world s bs hbs).bind fun found _ => ?_
    cases found with
    | some v => exact .pure trivial
    | none => exact ignores_term world s last none hlast
  | .operation op left right kind, piped, h => by
    obtain ⟨hleft, hright⟩ := List.forall_mem_append.1 h
    have hl := ignores_term world s left none hleft
    have hr := fun input => ignores_term world s right input hright
    have htruth : Ignores (Memory.inWorld world)
        (do return .bool (← truth (← term s none right)) : Eval ω η Value) fun _ => True :=
      (hr none).bind fun _ _ => ignores_truth.bind fun _ _ => .pure trivial
    rw [term.eq_def]
    cases op with
    | sequence => exact hl.bind fun _ _ => hr none
    | chain => exact hl.bind fun v _ => hr (some v)
    | or =>
      refine hl.bind fun v _ => ignores_truth.bind fun b _ => ?_
      cases b with
      | true => exact .pure trivial
      | false => exact htruth
    | and =>
      refine hl.bind fun v _ => ignores_truth.bind fun b _ => ?_
      cases b with
      | true => exact htruth
      | false => exact .pure trivial
    | _ => exact hl.bind fun _ _ => (hr none).bind fun _ _ => ignores_compareValues
termination_by structural t => t

theorem ignores_terms (world : ω) (s : Situation) : ∀ ts : List (Term ω η),
    (∀ call ∈ Term.callsOfAll ts, call.member.IsConfined) →
    Ignores (Memory.inWorld world) (terms s ts) fun _ => True
  | [], _ => .pure trivial
  | t :: ts, h => by
    obtain ⟨ht, hts⟩ := List.forall_mem_append.1 h
    rw [terms]
    exact (ignores_term world s t none ht).bind fun _ _ =>
      (ignores_terms world s ts hts).bind fun _ _ => .pure trivial
termination_by structural ts => ts

theorem ignores_branches (world : ω) (s : Situation) : ∀ bs : List (Term ω η × Term ω η),
    (∀ call ∈ Term.callsOfBranches bs, call.member.IsConfined) →
    Ignores (Memory.inWorld world) (branches s bs) fun _ => True
  | [], _ => .pure trivial
  | (guard, body) :: bs, h => by
    obtain ⟨hthis, hbs⟩ := List.forall_mem_append.1 h
    obtain ⟨hguard, hbody⟩ := List.forall_mem_append.1 hthis
    rw [branches]
    refine (ignores_term world s guard none hguard).bind fun v _ => ignores_truth.bind fun b _ => ?_
    split
    · exact (ignores_term world s body none hbody).bind fun _ _ => .pure trivial
    · exact ignores_branches world s bs hbs
termination_by structural bs => bs

end
end Eval

namespace Expression
variable {e : Expression ω η}

theorem ignores_evaluate (he : e.IsConfined) (s : Situation) :
    Ignores (Memory.inWorld world) (e.evaluate s) fun _ => True :=
  (Eval.ignores_term world s e.term none he).bind fun _ _ => Eval.ignores_of_settled Eval.settled_conform

theorem ignores_test (he : e.IsConfined) (s : Situation) :
    Ignores (Memory.inWorld world) (e.test s) fun _ => True :=
  (ignores_evaluate he s).bind fun _ _ => Eval.ignores_truth

end Expression
end Expr
end ChatFlow
