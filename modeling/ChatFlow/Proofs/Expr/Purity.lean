import ChatFlow.Proofs.Expr.Memory

/-! Computations that depend on nothing but the event that is handled. -/
namespace ChatFlow.Expr
variable {ω η α β : Type}

namespace Eval
variable {e : Option Flow.Event} {m : Situation → Eval ω η α}

/-- While an event is handled, a computation has one result whatever else is the case, and changes
nothing. -/
def Means (e : Option Flow.Event) (m : Situation → Eval ω η α) (r : Except EvalError α) : Prop :=
  ∀ s memory, s.event = e → m s memory = (r, memory)

/-- A computation that has one result while an event is handled. -/
def Settled (e : Option Flow.Event) (m : Situation → Eval ω η α) : Prop := ∃ r, Means e m r

theorem Means.unique {r r' : Except EvalError α} {s : Situation} (h : Means e m r)
    (h' : Means e m r') (hs : s.event = e) (memory : Memory ω η) : r = r' :=
  congrArg Prod.fst ((h s memory hs).symm.trans (h' s memory hs))

theorem Means.bind_ok {f : α → Situation → Eval ω η β} {a : α} {r : Except EvalError β}
    (hm : Means e m (.ok a)) (hf : Means e (f a) r) : Means e (fun s => m s >>= fun a => f a s) r :=
  fun s memory hs => (bind_of_ok (hm s memory hs)).trans (hf s memory hs)

theorem Means.bind_error {f : α → Situation → Eval ω η β} {err : EvalError}
    (hm : Means e m (.error err)) : Means e (fun s => m s >>= fun a => f a s) (.error err) :=
  fun s memory hs => bind_of_error (hm s memory hs)

theorem Settled.pure (a : α) : Settled e fun _ => (pure a : Eval ω η α) := ⟨.ok a, fun _ _ _ => rfl⟩

theorem Settled.throw (err : EvalError) : Settled e fun _ => (throw err : Eval ω η α) :=
  ⟨.error err, fun _ _ _ => rfl⟩

theorem Settled.bind {f : α → Situation → Eval ω η β} (hm : Settled e m)
    (hf : ∀ a, Settled e (f a)) : Settled e fun s => m s >>= fun a => f a s := by
  obtain ⟨err | a, hr⟩ := hm
  · exact ⟨.error err, hr.bind_error⟩
  · obtain ⟨r, hf⟩ := hf a
    exact ⟨r, hr.bind_ok hf⟩

theorem settled_truth {v : Value} : Settled e fun _ => (truth v : Eval ω η Bool) := by
  unfold truth
  split
  · exact .pure _
  · exact .throw _

theorem settled_conform {k : Kind} {v : Value} :
    Settled e fun _ => (conform k v : Eval ω η Value) := by
  unfold conform
  cases v.convert? k with
  | some w => exact .pure w
  | none => exact .throw _

theorem settled_conformAll {vs : List Value} {ks : List Kind} :
    Settled e fun _ => (conformAll vs ks : Eval ω η (List Value)) := by
  induction vs generalizing ks with
  | nil => exact .pure []
  | cons v vs ih =>
    cases ks with
    | nil => exact .pure []
    | cons k ks => exact settled_conform.bind fun _ => ih.bind fun _ => .pure _

theorem settled_compareValues {op : Operator} {l r : Value} :
    Settled e fun _ => (compareValues op l r : Eval ω η Value) := by
  unfold compareValues
  split
  · exact .pure _
  · exact .pure _
  · cases l.order? r with
    | some o => exact .pure _
    | none => exact .throw _

end Eval

/-- A body that changes nothing leaves the active handler active. -/
theorem Effect.perform_still {run : Effect ω η α} {r : Except String α} {store : Store ω η}
    (h : run store = (r, store)) : Effect.perform run store = (r, store) := by
  obtain ⟨bindings, _ | handler, world⟩ := store <;>
  · rw [perform, show ExceptT.run run _ = _ from h]
    rfl

theorem Eval.means_perform {e : Option Flow.Event} {name : String}
    {run : Situation → Effect ω η α} {r : Except String α}
    (h : ∀ s store, s.event = e → run s store = (r, store)) :
    Means e (fun s => perform name (run s)) (r.mapError (.invocation name ·)) := by
  intro s memory hs
  refine (perform_eq name (run s) memory).trans ?_
  rw [Effect.perform_still (h s memory.store hs)]

/-- A member is pure if what it yields depends on nothing but the event and what it is given, and if it
changes nothing. -/
def Member.IsPure (m : Member ω η) : Prop :=
  ∀ e args input, Eval.Settled e fun s => Eval.run s m args input

namespace Member
variable {m : Member ω η}

theorem isPure_of_function (f : Option Flow.Event → List Value → Except String Value)
    {run : Situation → List Value → Effect ω η Value} (hm : m.body = .function run)
    (hrun : ∀ s args store, run s args store = (f s.event args, store)) : m.IsPure := by
  intro e args input
  unfold Eval.run
  rw [hm]
  refine Eval.settled_conformAll.bind fun args => ?_
  refine Eval.Settled.bind ⟨_, Eval.means_perform (r := f e args) ?_⟩ fun _ => Eval.settled_conform
  rintro s store rfl
  exact hrun s args store

/-- Neither may the stages of a generator depend on anything else. -/
theorem isPure_of_generator
    (f : Option Flow.Event → List Value → Except String (Value → Effect ω η Value))
    {run : Situation → List Value → Effect ω η (Value → Effect ω η Value)}
    (hm : m.body = .generator run)
    (hrun : ∀ s args store, run s args store = (f s.event args, store))
    (hstages : ∀ e args stage, f e args = .ok stage →
      ∀ input, ∃ r, ∀ store, stage input store = (r, store)) : m.IsPure := by
  intro e args input
  unfold Eval.run
  rw [hm]
  refine Eval.settled_conformAll.bind fun args => Eval.settled_conform.bind fun input => ?_
  have hfirst : Eval.Means e (fun s => Eval.perform m.qualifiedName (run s args))
      ((f e args).mapError (.invocation m.qualifiedName ·)) :=
    Eval.means_perform fun s store hs => hs ▸ hrun s args store
  rcases hstage : f e args with message | stage <;> rw [hstage] at hfirst
  · exact ⟨_, hfirst.bind_error⟩
  · obtain ⟨r, hr⟩ := hstages e args stage hstage input
    have hsecond : Eval.Means e (fun _ => Eval.perform m.qualifiedName (stage input)) _ :=
      Eval.means_perform fun _ store _ => hr store
    obtain ⟨r', hr'⟩ : Eval.Settled e fun _ => Eval.perform m.qualifiedName (stage input) >>=
      fun v => Eval.conform m.returns v := .bind ⟨_, hsecond⟩ fun _ => Eval.settled_conform
    exact ⟨r', hfirst.bind_ok hr'⟩

end Member
end ChatFlow.Expr
