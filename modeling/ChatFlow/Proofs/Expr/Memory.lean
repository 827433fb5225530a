import ChatFlow.Expr.Eval
import ChatFlow.Proofs.Results

/-! What is remembered, and what an evaluation keeps of it. -/
namespace ChatFlow.Expr
variable {ω η α β : Type}

theorem capture_eq_event {s : Situation} {id : UInt64} (h : s.capture = .event id) :
    ∃ e, s.event = some e ∧ e.id = id := by
  unfold Situation.capture at h
  split at h <;> cases h
  exact ⟨_, ‹_›, rfl⟩

namespace Memo
variable {m : Memo} {v : Value} {capture : Capture}

theorem caching_write : (m.write v capture).caching = m.caching := by
  unfold write
  split
  · rfl
  · split <;> rfl

/-- A result is served for the event that it was stored for. -/
theorem lookup_eq_some {current : Option Capture} :
    m.lookup current = some v ↔ m.caching = .perEvent ∧
      ∃ id, m.stored = some (.event id, v) ∧ current = some (.event id) := by
  constructor
  · intro h
    unfold lookup at h
    split at h
    · rename_i capture w hcaching hstored
      split at h
      · rename_i hserves
        cases h
        unfold Capture.serves at hserves
        split at hserves
        · cases eq_of_beq hserves
          exact ⟨hcaching, _, hstored, rfl⟩
        · cases hserves
      · cases h
    · cases h
  · rintro ⟨hcaching, id, hstored, rfl⟩
    simp [lookup, hcaching, hstored, Capture.serves]

theorem stored_write (h : m.caching = .perEvent) :
    (m.write v capture).stored = if capture = .invalid then none else some (capture, v) := by
  rw [write, h]
  dsimp only
  split <;> rfl

end Memo

namespace Memos
variable {memos : Memos} {slot k : Nat} {caching : Caching} {capture : Capture} {v : Value}

/-- What is stored for a slot, whether or not it may be served. -/
def stored (memos : Memos) (slot : Nat) : Option (Capture × Value) :=
  (memos.slots.get? slot).bind Memo.stored

@[simp] theorem stored_empty : empty.stored slot = none := rfl

theorem lookup_eq_some_iff {current : Option Capture} :
    memos.lookup slot caching current = some v ↔ ∃ memo, memos.slots.get? slot = some memo ∧
      memo.caching = caching ∧ memo.lookup current = some v := by
  simp [lookup, Option.bind_eq_some_iff]

/-- What is served has been stored under the event that is handled. -/
theorem stored_of_lookup {current : Option Capture} (h : memos.lookup slot caching current = some v) :
    ∃ id, memos.stored slot = some (.event id, v) ∧ current = some (.event id) := by
  obtain ⟨memo, hmemo, -, hlookup⟩ := lookup_eq_some_iff.1 h
  obtain ⟨-, id, hstored, hcurrent⟩ := Memo.lookup_eq_some.1 hlookup
  exact ⟨id, by rw [stored, hmemo, Option.bind_some, hstored], hcurrent⟩

/-- A write stores its value in its slot, if it stores anything. -/
theorem stored_write {p : Capture × Value} (h : (memos.write slot caching v capture).stored k = some p) :
    memos.stored k = some p ∨ k = slot ∧ p = (capture, v) := by
  unfold write at h
  cases caching with
  | never => exact Or.inl h
  | perEvent =>
    simp only [stored, Table.get?_insert] at h
    split at h
    · rename_i hk
      subst hk
      rw [Option.bind_some] at h
      unfold Memo.write at h
      split at h
      · left
        cases hmemo : memos.slots.get? k with
        | none =>
          rw [hmemo] at h
          cases h
        | some memo =>
          rw [hmemo] at h
          rwa [stored, hmemo]
      · split at h
        · cases h
        · cases h
          exact Or.inr ⟨rfl, rfl⟩
    · exact Or.inl h

/-- Whether every slot in use serves its result while one event is handled. -/
def Uniform (memos : Memos) : Prop :=
  ∀ k memo, memos.slots.get? k = some memo → memo.caching = .perEvent

theorem uniform_empty : Uniform .empty := nofun

theorem Uniform.write (h : memos.Uniform) : (memos.write slot caching v capture).Uniform := by
  cases caching with
  | never => exact h
  | perEvent =>
    intro k memo hk
    rw [Memos.write, Table.get?_insert] at hk
    split at hk
    · cases hk
      cases hmemo : memos.slots.get? slot with
      | none => exact Memo.caching_write
      | some memo => exact Memo.caching_write.trans (h slot memo hmemo)
    · exact h k memo hk

/-- Where all slots serve for one event, a look-up finds what is stored for the event that is handled,
and only for calls that remember their results. -/
theorem Uniform.lookup_iff {current : Option Capture} (h : memos.Uniform) :
    memos.lookup slot caching current = some v ↔ caching = .perEvent ∧
      ∃ id, memos.stored slot = some (.event id, v) ∧ current = some (.event id) := by
  constructor
  · intro hlookup
    obtain ⟨memo, hmemo, hcaching, -⟩ := lookup_eq_some_iff.1 hlookup
    exact ⟨hcaching.symm.trans (h slot memo hmemo), stored_of_lookup hlookup⟩
  · rintro ⟨rfl, id, hstored, hcurrent⟩
    obtain ⟨memo, hmemo, hv⟩ := Option.bind_eq_some_iff.1 hstored
    have hcaching := h slot memo hmemo
    have hlookup := Memo.lookup_eq_some.2 ⟨hcaching, id, hv, hcurrent⟩
    exact lookup_eq_some_iff.2 ⟨memo, hmemo, hcaching, hlookup⟩

/-- What is stored for an event is exactly what is served for it. -/
theorem Uniform.lookup_eq_some (h : memos.Uniform) :
    memos.lookup slot .perEvent (some capture) = some v ↔
      ∃ id, capture = .event id ∧ memos.stored slot = some (.event id, v) := by
  simp [h.lookup_iff, and_comm]

/-- A write without circumstances erases what its slot held, any other write replaces it. -/
theorem Uniform.stored_write (h : memos.Uniform) :
    (memos.write slot .perEvent v capture).stored k =
      if k = slot then (if capture = .invalid then none else some (capture, v))
      else memos.stored k := by
  rw [stored, Memos.write, Table.get?_insert]
  split
  · have hcaching : ((memos.slots.get? slot).getD (.empty .perEvent)).caching = .perEvent := by
      cases hmemo : memos.slots.get? slot with
      | none => rfl
      | some memo => exact h slot memo hmemo
    rw [Option.bind_some, Memo.stored_write hcaching]
  · rfl

end Memos

namespace Eval
variable {s : Situation} {m : Member ω η} {slot : Option Nat} {memos : Memos} {k : Nat} {v : Value}

/-- What a call with a slot finds in memory. -/
def recalled (s : Situation) (m : Member ω η) (slot : Option Nat) (memos : Memos) : Option Value :=
  slot.bind fun k => memos.lookup k m.caching (some s.capture)

theorem remembered_eq (s : Situation) (m : Member ω η) (slot : Option Nat) (memory : Memory ω η) :
    remembered s m slot memory = (.ok (recalled s m slot memory.memos), memory) := rfl

theorem stored_of_recalled (h : recalled s m slot memos = some v) :
    ∃ k e, slot = some k ∧ s.event = some e ∧ memos.stored k = some (.event e.id, v) := by
  obtain ⟨k, hk, hlookup⟩ := Option.bind_eq_some_iff.1 h
  obtain ⟨id, hstored, hcapture⟩ := Memos.stored_of_lookup hlookup
  obtain ⟨e, he, rfl⟩ := capture_eq_event (Option.some.inj hcapture)
  exact ⟨k, e, hk, he, hstored⟩

/-- What is in memory once a call has yielded a value. -/
def recorded (s : Situation) (m : Member ω η) (slot : Option Nat) (v : Value) (memos : Memos) :
    Memos :=
  slot.elim memos fun k => memos.write k m.caching v s.capture

theorem remember_eq (s : Situation) (m : Member ω η) (slot : Option Nat) (v : Value)
    (memory : Memory ω η) :
    remember s m slot v memory =
      (.ok (), { memory with memos := recorded s m slot v memory.memos }) := by
  cases slot <;> rfl

theorem stored_recorded {p : Capture × Value} (h : (recorded s m slot v memos).stored k = some p) :
    memos.stored k = some p ∨ slot = some k ∧ p = (s.capture, v) := by
  cases slot with
  | none => exact Or.inl h
  | some k' =>
    rcases Memos.stored_write h with h | ⟨rfl, hp⟩
    · exact Or.inl h
    · exact Or.inr ⟨rfl, hp⟩

end Eval

/-- The memories that the evaluations of some expressions leave, when they start with none. -/
inductive Written (xs : List (Expression ω η)) : Memos → Prop
  | empty : Written xs .empty
  | evaluate {x : Expression ω η} {memory : Memory ω η} (s : Situation) (hx : x ∈ xs)
      (h : Written xs memory.memos) : Written xs (x.evaluate s memory).2.memos

namespace Eval
variable {I : Memos → Prop} {P Q : α → Prop} {m : Eval ω η α} {f : α → Eval ω η β}

/-- However an evaluation ends, it keeps a property of the memories; if it succeeds, its result has
a property too. -/
def Ensures (I : Memos → Prop) (m : Eval ω η α) (Q : α → Prop) : Prop :=
  ∀ memory r memory', m memory = (r, memory') → I memory.memos →
    I memory'.memos ∧ ∀ a, r = .ok a → Q a

theorem Ensures.pure {a : α} (h : Q a) : Ensures I (pure a : Eval ω η α) Q := by
  intro memory r memory' hr hI
  cases hr
  refine ⟨hI, ?_⟩
  rintro _ ⟨⟩
  exact h

theorem Ensures.throw {e : EvalError} : Ensures I (throw e : Eval ω η α) Q := by
  intro memory r memory' hr hI
  cases hr
  exact ⟨hI, nofun⟩

theorem Ensures.bind {R : β → Prop} (hm : Ensures I m Q) (hf : ∀ a, Q a → Ensures I (f a) R) :
    Ensures I (m >>= f) R := by
  intro memory r memory' hr hI
  rcases bind_ends hr with ⟨a, memory₁, ha, hb⟩ | ⟨e, he, rfl⟩
  · obtain ⟨hI₁, hQ⟩ := hm _ _ _ ha hI
    exact hf a (hQ a rfl) _ _ _ hb hI₁
  · exact ⟨(hm _ _ _ he hI).1, nofun⟩

theorem Ensures.imp (hm : Ensures I m P) (hPQ : ∀ a, P a → Q a) : Ensures I m Q := by
  intro memory r memory' hr hI
  obtain ⟨hI', hP⟩ := hm _ _ _ hr hI
  exact ⟨hI', fun a ha => hPQ a (hP a ha)⟩

theorem ensures_truth {v : Value} : Ensures I (truth v : Eval ω η Bool) fun _ => True := by
  unfold truth
  split
  · exact .pure trivial
  · exact .throw

theorem ensures_conform {k : Kind} {v : Value} :
    Ensures I (conform k v : Eval ω η Value) fun w => v.convert? k = some w := by
  unfold conform
  split
  · rename_i w hw
    exact .pure hw
  · exact .throw

theorem ensures_conformAll {vs : List Value} {ks : List Kind} :
    Ensures I (conformAll vs ks : Eval ω η (List Value)) fun _ => True := by
  induction vs generalizing ks with
  | nil => exact .pure trivial
  | cons v vs ih =>
    cases ks with
    | nil => exact .pure trivial
    | cons k ks => exact ensures_conform.bind fun _ _ => ih.bind fun _ _ => .pure trivial

theorem get_eq (memory : Memory ω η) :
    (get : Eval ω η (Memory ω η)) memory = (.ok memory, memory) := rfl

theorem perform_eq (member : String) (e : Effect ω η α) (memory : Memory ω η) :
    perform member e memory = ((Effect.perform e memory.store).1.mapError (.invocation member ·),
      { memory with store := (Effect.perform e memory.store).2 }) := by
  rcases hp : Effect.perform e memory.store with ⟨result, store⟩
  unfold perform
  rw [bind_of_ok (get_eq memory), hp]
  cases result <;> rfl

/-- A body has no access to the memories. -/
theorem ensures_perform {member : String} {e : Effect ω η α} :
    Ensures I (perform member e) fun _ => True := by
  intro memory r memory' hr hI
  rw [perform_eq] at hr
  cases hr
  exact ⟨hI, fun _ _ => trivial⟩

end Eval
end ChatFlow.Expr
