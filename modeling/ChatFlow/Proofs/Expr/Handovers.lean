import ChatFlow.Expr.Builtin
import ChatFlow.Proofs.Expr.Memory
import ChatFlow.Proofs.Expr.Saturation
import Mathlib.Data.List.Forall2

/-! What the bodies of members are handed when an evaluation runs them: one value for each declared
parameter, of the declared kind. The record of what is handed over is complete, since running the bodies
on it again changes the store as the evaluation did. -/
namespace ChatFlow

/-- Whether a value may be handed over for a kind: it has this kind, or it is null and the kind is not
that of booleans, or every value is allowed. -/
def Value.Meets (v : Value) (k : Kind) : Prop := v.kind = k ∨ (v = .null ∧ k ≠ .bool) ∨ k = .any

theorem Value.meets_of_convert {k : Kind} {v w : Value} (h : v.convert? k = some w) : w.Meets k := by
  unfold convert? at h
  split at h
  · cases h
    exact .inr (.inl ⟨rfl, nofun⟩)
  · exact .inr (.inr rfl)
  · cases h
  · rename_i hk
    cases h
    exact .inr (.inl ⟨rfl, hk⟩)
  · cases h
    exact .inl rfl
  · split at h
    · rename_i hk
      cases h
      exact .inl hk
    · cases h

/-- Values converted to kinds, one to each. -/
inductive Converts : List Value → List Kind → List Value → Prop
  | nil : Converts [] [] []
  | cons {v w : Value} {k : Kind} {vs ws : List Value} {ks : List Kind} (head : v.convert? k = some w)
      (tail : Converts vs ks ws) : Converts (v :: vs) (k :: ks) (w :: ws)

theorem Converts.meets {vs ws : List Value} {ks : List Kind} (h : Converts vs ks ws) :
    List.Forall₂ Value.Meets ws ks := by
  induction h with
  | nil => exact .nil
  | cons head _ ih => exact .cons (Value.meets_of_convert head) ih

namespace Expr
variable {ω η α β : Type} {s : Situation}

/-- What the body of a member is handed in one run. -/
structure Handover (ω η : Type) where
  member : Member ω η
  /-- The value on the left of the chain at whose end the call stands. -/
  piped : Option Value
  /-- Values of the arguments that are written. -/
  written : List Value
  args : List Value
  /-- What the function that a generator yields is applied to; null for a plain function. -/
  input : Value

namespace Handover

/-- Whether a body is handed what its member declares. -/
structure Proper (h : Handover ω η) : Prop where
  count : h.args.length = h.member.arity
  meets : List.Forall₂ Value.Meets h.args h.member.params
  /-- A piped value is the first argument of a plain function, before those that are written. -/
  reference : h.member.form = .reference →
    Converts (h.piped.toList ++ h.written) h.member.params h.args
  /-- A piped value is the input of a generator, and none of its arguments. -/
  generator : h.member.form = .generator → Converts h.written h.member.params h.args ∧
    (h.piped.getD .null).convert? h.member.input = some h.input ∧ h.input.Meets h.member.input

/-- The store after the body has run on what it is handed. -/
def replay (s : Situation) (store : Store ω η) (h : Handover ω η) : Store ω η :=
  match h.member.body with
  | .function body => (Effect.perform (body s h.args) store).2
  | .generator body =>
    match Effect.perform (body s h.args) store with
    | (.ok next, store) => (Effect.perform (next h.input) store).2
    | (.error _, store) => store

end Handover

namespace Eval

/-- What follows a computation, if it succeeds. -/
def after (e : Eval ω η α) (memory : Memory ω η) (next : α → Memory ω η → List β) : List β :=
  match e memory with
  | (.ok a, memory) => next a memory
  | (.error _, _) => []

/-- What a run of a member hands to its body, unless a conversion fails before. -/
def handoversOfRun (m : Member ω η) (piped : Option Value) (written : List Value)
    (memory : Memory ω η) : List (Handover ω η) :=
  after (conformAll (withPiped m piped written) m.params) memory fun args memory =>
    match m.body with
    | .function _ => [⟨m, piped, written, args, .null⟩]
    | .generator _ => after (conform m.input (piped.getD .null)) memory fun input _ =>
        [⟨m, piped, written, args, input⟩]

mutual

/-- All that is handed to bodies while a term is evaluated, in order. -/
def handovers (s : Situation) (piped : Option Value) :
    Term ω η → Memory ω η → List (Handover ω η)
  | .literal _, _ => []
  | .call m args _ slot _, memory =>
    match recalled s m slot memory.memos with
    | some _ => []
    | none =>
      handoversOfAll s args memory ++ after (terms s args) memory (handoversOfRun m piped)
  | .conditional bs none _ _, memory => handoversOfBranches s bs memory
  | .conditional bs (some last) _ _, memory =>
    handoversOfBranches s bs memory ++ after (branches s bs) memory fun o memory =>
      match o with
      | some _ => []
      | none => handovers s none last memory
  | .operation op left right _, memory =>
    handovers s none left memory ++ after (term s none left) memory fun v memory =>
      match op with
      | .chain => handovers s (some v) right memory
      | .or => after (truth v) memory fun b memory => if b then [] else handovers s none right memory
      | .and => after (truth v) memory fun b memory => if b then handovers s none right memory else []
      | _ => handovers s none right memory
termination_by structural t => t

def handoversOfAll (s : Situation) : List (Term ω η) → Memory ω η → List (Handover ω η)
  | [], _ => []
  | t :: ts, memory =>
    handovers s none t memory ++ after (term s none t) memory fun _ memory =>
      handoversOfAll s ts memory
termination_by structural ts => ts

def handoversOfBranches (s : Situation) :
    List (Term ω η × Term ω η) → Memory ω η → List (Handover ω η)
  | [], _ => []
  | (guard, body) :: rest, memory =>
    handovers s none guard memory ++ after (term s none guard) memory fun v memory =>
      after (truth v) memory fun b memory =>
        if b then handovers s none body memory else handoversOfBranches s rest memory
termination_by structural bs => bs

end

/-! The record is complete. -/

/-- Whether a computation leaves the store as it is. -/
def Quiet (e : Eval ω η α) : Prop := ∀ memory, (e memory).2.store = memory.store

/-- Whether a computation changes the store as the bodies do on what they are handed. -/
def Replays (s : Situation) (e : Eval ω η α) (hs : Memory ω η → List (Handover ω η)) : Prop :=
  ∀ memory, (e memory).2.store = (hs memory).foldl (Handover.replay s) memory.store

section
variable {e : Eval ω η α} {f : α → Eval ω η β} {hs : Memory ω η → List (Handover ω η)}
  {memory memory' : Memory ω η} {a : α} {next : α → Memory ω η → List β}

theorem after_of_ok (h : e memory = (.ok a, memory')) : after e memory next = next a memory' := by
  rw [after, h]

theorem after_of_error {err : EvalError} (h : e memory = (.error err, memory')) :
    after e memory next = [] := by
  rw [after, h]

theorem mem_after {b : β} : b ∈ after e memory next ↔
    ∃ a memory', e memory = (.ok a, memory') ∧ b ∈ next a memory' := by
  rcases he : e memory with ⟨err | a, memory₁⟩
  · rw [after_of_error he]
    exact iff_of_false List.not_mem_nil fun ⟨_, _, h, _⟩ => nomatch h
  · rw [after_of_ok he]
    refine ⟨fun hb => ⟨a, memory₁, rfl, hb⟩, ?_⟩
    rintro ⟨_, _, ⟨⟩, hb⟩
    exact hb

theorem Quiet.replays (he : Quiet e) : Replays s e fun _ => [] := he

theorem Replays.bind {hs' : α → Memory ω η → List (Handover ω η)} (he : Replays s e hs)
    (hf : ∀ a, Replays s (f a) (hs' a)) :
    Replays s (e >>= f) fun memory => hs memory ++ after e memory hs' := by
  intro memory
  have hfirst := he memory
  rcases hr : e memory with ⟨err | a, memory₁⟩ <;> rw [hr] at hfirst
  · beta_reduce
    rw [bind_of_error hr, after_of_error hr, List.append_nil]
    exact hfirst
  · beta_reduce
    rw [bind_of_ok hr, after_of_ok hr, List.foldl_append, ← hfirst]
    exact hf a memory₁

theorem Quiet.bind {hs' : α → Memory ω η → List (Handover ω η)} (he : Quiet e)
    (hf : ∀ a, Replays s (f a) (hs' a)) : Replays s (e >>= f) fun memory => after e memory hs' :=
  he.replays.bind hf

theorem store_bind_quiet (hf : ∀ a, Quiet (f a)) (memory : Memory ω η) :
    ((e >>= f) memory).2.store = (e memory).2.store := by
  rcases hr : e memory with ⟨err | a, memory₁⟩
  · rw [bind_of_error hr]
  · rw [bind_of_ok hr]
    exact hf a memory₁

/-- What only looks at a result or remembers it hands over nothing more. -/
theorem Replays.bind_quiet (he : Replays s e hs) (hf : ∀ a, Quiet (f a)) :
    Replays s (e >>= f) hs :=
  fun memory => (store_bind_quiet hf memory).trans (he memory)

theorem quiet_pure (a : α) : Quiet (pure a : Eval ω η α) := fun _ => rfl

theorem quiet_throw (err : EvalError) : Quiet (throw err : Eval ω η α) := fun _ => rfl

end

theorem quiet_truth (v : Value) : Quiet (truth v : Eval ω η Bool) := by
  unfold truth
  split
  · exact quiet_pure _
  · exact quiet_throw _

theorem quiet_conform (k : Kind) (v : Value) : Quiet (conform k v : Eval ω η Value) := by
  unfold conform
  split
  · exact quiet_pure _
  · exact quiet_throw _

theorem quiet_bind {e : Eval ω η α} {f : α → Eval ω η β} (he : Quiet e) (hf : ∀ a, Quiet (f a)) :
    Quiet (e >>= f) :=
  Replays.bind_quiet (s := ⟨none, []⟩) he.replays hf

theorem quiet_conformAll (vs : List Value) (ks : List Kind) :
    Quiet (conformAll vs ks : Eval ω η (List Value)) := by
  induction vs generalizing ks with
  | nil => exact quiet_pure []
  | cons v vs ih =>
    cases ks with
    | nil => exact quiet_pure []
    | cons k ks => exact quiet_bind (quiet_conform k v) fun _ => quiet_bind (ih ks) fun _ => quiet_pure _

theorem quiet_compareValues (op : Operator) (l r : Value) :
    Quiet (compareValues op l r : Eval ω η Value) := by
  unfold compareValues
  split
  · exact quiet_pure _
  · exact quiet_pure _
  · split
    · exact quiet_pure _
    · exact quiet_throw _

theorem quiet_remember (s : Situation) (m : Member ω η) (slot : Option Nat) (v : Value) :
    Quiet (remember s m slot v) := by
  intro memory
  rw [remember_eq]

theorem replays_run (s : Situation) (m : Member ω η) (piped : Option Value) (written : List Value) :
    Replays s (run s m (withPiped m piped written) (piped.getD .null))
      (handoversOfRun m piped written) := by
  unfold run handoversOfRun
  refine (quiet_conformAll _ _).bind fun args => ?_
  have hreturn (produced : Value) : Quiet (conform m.returns produced : Eval ω η Value) :=
    quiet_conform _ _
  cases hbody : m.body with
  | function body =>
    intro memory
    refine (store_bind_quiet hreturn memory).trans ?_
    rw [perform_eq]
    simp [Handover.replay, hbody]
  | generator body =>
    refine (quiet_conform _ _).bind fun input => ?_
    intro memory
    rcases hfirst : Effect.perform (body s args) memory.store with ⟨message | next, store⟩
    · have hperform : perform m.qualifiedName (body s args) memory =
          (.error (.invocation m.qualifiedName message), { memory with store }) := by
        rw [perform_eq, hfirst]
        rfl
      rw [bind_of_error hperform]
      simp [Handover.replay, hbody, hfirst]
    · have hperform : perform m.qualifiedName (body s args) memory =
          (.ok next, { memory with store }) := by
        rw [perform_eq, hfirst]
        rfl
      rw [bind_of_ok hperform, store_bind_quiet hreturn, perform_eq]
      simp [Handover.replay, hbody, hfirst]

mutual

theorem replays_term (s : Situation) :
    ∀ (t : Term ω η) (piped : Option Value), Replays s (term s piped t) (handovers s piped t)
  | .literal v, _ => (quiet_pure v).replays
  | .call m args _ slot _, piped => by
    intro memory
    rw [term, handovers, bind_of_ok (remembered_eq s m slot memory)]
    cases recalled s m slot memory.memos with
    | some v => rfl
    | none =>
      have hrun := (replays_terms s args).bind (f := fun values =>
        run s m (withPiped m piped values) (piped.getD .null) >>= fun v =>
          remember s m slot v >>= fun _ => pure v) fun values =>
        (replays_run s m piped values).bind_quiet fun v =>
          quiet_bind (quiet_remember s m slot v) fun _ => quiet_pure v
      exact hrun memory
  | .conditional bs none _ fallThrough, _ => by
    intro memory
    rw [term, handovers]
    refine (replays_branches s bs).bind_quiet (fun o => ?_) memory
    cases o with
    | some v => exact quiet_pure v
    | none =>
      cases fallThrough with
      | true => exact quiet_pure _
      | false => exact quiet_throw _
  | .conditional bs (some last) _ _, _ => by
    intro memory
    rw [term, handovers]
    refine (replays_branches s bs).bind (fun o => ?_) memory
    cases o with
    | some v => exact (quiet_pure v).replays
    | none => exact replays_term s last none
  | .operation op left right _, _ => by
    intro memory
    rw [term.eq_def, handovers]
    have hright (input : Option Value) := replays_term s right input
    -- A logical operator looks at its right side, or is done.
    have hlast : Replays s (do return Value.bool (← truth (← term s none right)))
        (handovers s none right) :=
      (hright none).bind_quiet fun v => quiet_bind (quiet_truth v) fun _ => quiet_pure _
    cases op with
    | sequence => exact (replays_term s left none).bind (fun _ => hright none) memory
    | chain => exact (replays_term s left none).bind (fun input => hright (some input)) memory
    | or =>
      refine (replays_term s left none).bind (fun v => (quiet_truth v).bind fun b => ?_) memory
      cases b with
      | true => exact (quiet_pure _).replays
      | false => exact hlast
    | and =>
      refine (replays_term s left none).bind (fun v => (quiet_truth v).bind fun b => ?_) memory
      cases b with
      | true => exact hlast
      | false => exact (quiet_pure _).replays
    | _ =>
      exact (replays_term s left none).bind
        (fun _ => (hright none).bind_quiet fun _ => quiet_compareValues _ _ _) memory
termination_by structural t => t

theorem replays_terms (s : Situation) :
    ∀ (ts : List (Term ω η)), Replays s (terms s ts) (handoversOfAll s ts)
  | [] => (quiet_pure []).replays
  | t :: ts => by
    intro memory
    rw [terms, handoversOfAll]
    exact (replays_term s t none).bind
      (fun _ => (replays_terms s ts).bind_quiet fun _ => quiet_pure _) memory
termination_by structural ts => ts

theorem replays_branches (s : Situation) :
    ∀ (bs : List (Term ω η × Term ω η)), Replays s (branches s bs) (handoversOfBranches s bs)
  | [] => (quiet_pure none).replays
  | (guard, body) :: bs => by
    intro memory
    rw [branches, handoversOfBranches]
    refine (replays_term s guard none).bind (fun v => (quiet_truth v).bind fun b => ?_) memory
    cases b with
    | true => exact (replays_term s body none).bind_quiet fun _ => quiet_pure _
    | false => exact replays_branches s bs
termination_by structural bs => bs

end

/-! What is recorded is proper. -/

theorem conform_ok {k : Kind} {v w : Value} {memory memory' : Memory ω η}
    (h : conform k v memory = (.ok w, memory')) : v.convert? k = some w :=
  (ensures_conform (I := fun _ => True) memory _ memory' h trivial).2 w rfl

theorem converts_of_conformAll {vs ws : List Value} {ks : List Kind} {memory memory' : Memory ω η}
    (hlength : vs.length = ks.length) (h : conformAll vs ks memory = (.ok ws, memory')) :
    Converts vs ks ws := by
  induction vs generalizing ks ws memory with
  | nil =>
    cases List.length_eq_zero_iff.1 hlength.symm
    cases h
    exact .nil
  | cons v vs ih =>
    cases ks with
    | nil => cases hlength
    | cons k ks =>
      obtain ⟨w, memory₁, hw, h⟩ := bind_ends_ok h
      obtain ⟨rest, memory₂, hrest, h⟩ := bind_ends_ok h
      cases h
      exact .cons (conform_ok hw) (ih (Nat.succ.inj hlength) hrest)

theorem length_terms {ts : List (Term ω η)} {vs : List Value} {memory memory' : Memory ω η}
    (h : terms s ts memory = (.ok vs, memory')) : vs.length = ts.length := by
  induction ts generalizing vs memory with
  | nil =>
    cases h
    rfl
  | cons t ts ih =>
    obtain ⟨v, memory₁, _, h⟩ := bind_ends_ok h
    obtain ⟨rest, memory₂, hrest, h⟩ := bind_ends_ok h
    cases h
    exact congrArg (· + 1) (ih hrest)

theorem length_withPiped (m : Member ω η) (piped : Option Value) (written : List Value) :
    (withPiped m piped written).length = written.length + m.pipedCount piped.isSome := by
  unfold withPiped Member.pipedCount
  cases m.form <;> cases piped <;> simp

theorem proper_of_run {m : Member ω η} {piped : Option Value} {written : List Value}
    {memory : Memory ω η} {h : Handover ω η}
    (hcount : m.arity = written.length + m.pipedCount piped.isSome)
    (hh : h ∈ handoversOfRun m piped written memory) : h.Proper := by
  obtain ⟨args, memory₁, hargs, hh⟩ := mem_after.1 hh
  have hlength : (withPiped m piped written).length = m.params.length :=
    (length_withPiped m piped written).trans hcount.symm
  have hconverts := converts_of_conformAll hlength hargs
  have hmeets := hconverts.meets
  unfold withPiped at hconverts
  cases hbody : m.body with
  | function body =>
    have hform : m.form = .reference := by rw [Member.form, hbody]
    rw [hbody] at hh
    rw [hform] at hconverts
    cases List.mem_singleton.1 hh
    exact ⟨hmeets.length_eq, hmeets, fun _ => hconverts,
      fun hgenerator => nomatch hform.symm.trans hgenerator⟩
  | generator body =>
    have hform : m.form = .generator := by rw [Member.form, hbody]
    rw [hbody] at hh
    rw [hform] at hconverts
    obtain ⟨input, memory₂, hinput, hh⟩ := mem_after.1 hh
    cases List.mem_singleton.1 hh
    have hconvert := conform_ok hinput
    exact ⟨hmeets.length_eq, hmeets, fun hreference => (nomatch hform.symm.trans hreference),
      fun _ => ⟨hconverts, hconvert, Value.meets_of_convert hconvert⟩⟩

mutual

theorem proper_of_term (s : Situation) :
    ∀ (t : Term ω η) (piped : Option Value) (memory : Memory ω η), t.Saturated piped.isSome →
      ∀ h ∈ handovers s piped t memory, h.Proper
  | .literal _, _, _, _, _, hh => nomatch hh
  | .call m args _ slot _, piped, memory, hsat, h, hh => by
    cases hsat with
    | call count each =>
      rw [handovers] at hh
      split at hh
      · cases hh
      · rcases List.mem_append.1 hh with hh | hh
        · exact proper_of_terms s args memory each h hh
        · obtain ⟨values, memory₁, hvalues, hh⟩ := mem_after.1 hh
          rw [← length_terms hvalues] at count
          exact proper_of_run count hh
  | .conditional bs none _ _, _, memory, hsat, h, hh => by
    cases hsat with
    | conditional guards bodies _ =>
      rw [handovers] at hh
      exact proper_of_branches s bs memory guards bodies h hh
  | .conditional bs (some last) _ _, _, memory, hsat, h, hh => by
    cases hsat with
    | conditional guards bodies hlast =>
      rw [handovers] at hh
      rcases List.mem_append.1 hh with hh | hh
      · exact proper_of_branches s bs memory guards bodies h hh
      · obtain ⟨o, memory₁, _, hh⟩ := mem_after.1 hh
        cases o with
        | some v => cases hh
        | none => exact proper_of_term s last none memory₁ (hlast last rfl) h hh
  | .operation op left right _, _, memory, hsat, h, hh => by
    cases hsat with
    | operation hleft hright =>
      rw [handovers] at hh
      rcases List.mem_append.1 hh with hh | hh
      · exact proper_of_term s left none memory hleft h hh
      · obtain ⟨v, memory₁, _, hh⟩ := mem_after.1 hh
        cases op with
        | chain => exact proper_of_term s right (some v) memory₁ hright h hh
        | or =>
          obtain ⟨b, memory₂, _, hh⟩ := mem_after.1 hh
          cases b with
          | true => cases hh
          | false => exact proper_of_term s right none memory₂ hright h hh
        | and =>
          obtain ⟨b, memory₂, _, hh⟩ := mem_after.1 hh
          cases b with
          | true => exact proper_of_term s right none memory₂ hright h hh
          | false => cases hh
        | _ => exact proper_of_term s right none memory₁ hright h hh
termination_by structural t => t

theorem proper_of_terms (s : Situation) :
    ∀ (ts : List (Term ω η)) (memory : Memory ω η), (∀ t ∈ ts, t.Saturated false) →
      ∀ h ∈ handoversOfAll s ts memory, h.Proper
  | [], _, _, _, hh => nomatch hh
  | t :: ts, memory, hsat, h, hh => by
    obtain ⟨ht, hts⟩ := List.forall_mem_cons.1 hsat
    rw [handoversOfAll] at hh
    rcases List.mem_append.1 hh with hh | hh
    · exact proper_of_term s t none memory ht h hh
    · obtain ⟨v, memory₁, _, hh⟩ := mem_after.1 hh
      exact proper_of_terms s ts memory₁ hts h hh
termination_by structural ts => ts

theorem proper_of_branches (s : Situation) :
    ∀ (bs : List (Term ω η × Term ω η)) (memory : Memory ω η), (∀ b ∈ bs, b.1.Saturated false) →
      (∀ b ∈ bs, b.2.Saturated false) → ∀ h ∈ handoversOfBranches s bs memory, h.Proper
  | [], _, _, _, _, hh => nomatch hh
  | (guard, body) :: bs, memory, hguards, hbodies, h, hh => by
    obtain ⟨hguard, hguards⟩ := List.forall_mem_cons.1 hguards
    obtain ⟨hbody, hbodies⟩ := List.forall_mem_cons.1 hbodies
    rw [handoversOfBranches] at hh
    rcases List.mem_append.1 hh with hh | hh
    · exact proper_of_term s guard none memory hguard h hh
    · obtain ⟨v, memory₁, _, hh⟩ := mem_after.1 hh
      obtain ⟨b, memory₂, _, hh⟩ := mem_after.1 hh
      cases b with
      | true => exact proper_of_term s body none memory₂ hbody h hh
      | false => exact proper_of_branches s bs memory₂ hguards hbodies h hh
termination_by structural bs => bs

end
end Eval

/-- What bodies are handed while an expression is evaluated, in order. -/
def Expression.handovers (x : Expression ω η) (s : Situation) (memory : Memory ω η) :
    List (Handover ω η) := Eval.handovers s none x.term memory

/-- Whether a body looks at no argument beyond the parameters that its member declares. -/
def Member.KeepsToParams (m : Member ω η) : Prop :=
  match m.body with
  | .function body => ∀ s args, body s args = body s (args.take m.arity)
  | .generator body => ∀ s args, body s args = body s (args.take m.arity)

theorem Builtin.keepsToParams (environment : String → Option String) :
    ∀ m ∈ (Builtin.members environment : List (Member ω η)), m.KeepsToParams := by
  intro m hm
  simp only [members, List.mem_cons, List.not_mem_nil, or_false] at hm
  rcases hm with rfl | rfl | rfl | rfl | rfl | rfl | rfl | rfl | rfl | rfl | rfl | rfl <;>
    intro s args <;> cases args <;> rfl

/-- In every evaluation of a compiled expression, whatever is remembered, each body that runs is handed
one argument for each parameter, of its kind, and the function that a generator yields an input of the
declared kind. What is handed over accounts for every change of the store. The parameters that the
compiler asks for when it types a call exist, and no builtin member looks for an argument that it does
not declare. -/
theorem bodies_get_declared_arguments {ns : Namespace ω η} {requests : List Request}
    {x : Expression ω η} (hx : x ∈ compiled ns requests) (s : Situation) (memory : Memory ω η) :
    (∀ h ∈ x.handovers s memory, h.Proper) ∧
      (x.evaluate s memory).2.store =
        (x.handovers s memory).foldl (Handover.replay s) memory.store ∧
      (∀ scope owner name (written : List Ast) form (piped : Option Kind) m,
        ns.resolve scope owner name (written.length + Typing.pipedArity form piped) form = .ok m →
        (∀ offset < written.length, Typing.pipedArity form piped + offset < m.params.length) ∧
          (piped.isSome = true → form = .reference → 0 < m.params.length)) ∧
      ∀ environment, ∀ m ∈ (Builtin.members environment : List (Member ω η)), m.KeepsToParams := by
  obtain ⟨scope, e, n, n', ht, _⟩ := mem_compiled hx
  refine ⟨?_, ?_, ?_, Builtin.keepsToParams⟩
  · exact Eval.proper_of_term s x.term none memory (Typing.saturated_term ns scope e ht)
  · exact (Eval.replays_term s x.term none).bind_quiet (fun v => Eval.quiet_conform _ v) memory
  · intro scope owner name written form piped m hm
    have harity : m.params.length = written.length + Typing.pipedArity form piped :=
      Namespace.arity_of_resolve hm
    refine ⟨fun offset hoffset => by omega, ?_⟩
    rintro hpiped rfl
    have hone : Typing.pipedArity .reference piped = 1 := by simp [Typing.pipedArity, hpiped]
    omega

/-- Adds a fee by name, and notes that it has run. -/
def charging : Member Nat Unit :=
  .function "Till" "charge" [.float, .str] .float fun _ args store =>
    (.ok (args.headD .null), { store with world := store.world + 1 })

/-- Puts what is piped into a book. -/
def booking : Member Nat Unit :=
  .generator "Till" "book" [.str] .float .unit fun _ _ => pure fun _ store =>
    (.ok .null, { store with world := store.world + 10 })

def till : Namespace Nat Unit := (Namespace.empty.register charging).register booking

/-- An integer is piped into the plain function, and the result of that into the generator. -/
def sale : Request :=
  .tree none .any (.operation .chain
    (.operation .chain (.literal (.int 7) 0)
      (.call .reference (some "Till") "charge" (some [.literal (.str "fee") 17]) 5) 2)
    (.call .generator (some "Till") "book" (some [.literal (.str "daily") 40]) 29) 26)

def soldTicket : Expression Nat Unit :=
  ⟨.operation .chain
    (.operation .chain (.literal (.int 7)) (.call charging [.literal (.str "fee")] true none 5) .float)
    (.call booking [.literal (.str "daily")] true none 29) .unit, .any, none⟩

def openTill : Memory Nat Unit := ⟨⟨∅, none, 0⟩, .empty⟩

/-- The integer is widened and comes first, the generator has one argument, and both bodies have run. -/
theorem soldTicket_handovers : compiled till [sale] = [soldTicket] ∧
    (soldTicket.handovers ⟨none, []⟩ openTill).map (fun h => (h.args, h.input)) =
      [([.float (.ofInt 7), .str "fee"], .null), ([.str "daily"], .float (.ofInt 7))] ∧
    (∀ h ∈ soldTicket.handovers ⟨none, []⟩ openTill, h.Proper) ∧
    ((soldTicket.evaluate ⟨none, []⟩ openTill).2.store =
        (soldTicket.handovers ⟨none, []⟩ openTill).foldl (Handover.replay ⟨none, []⟩) openTill.store ∧
      (soldTicket.evaluate ⟨none, []⟩ openTill).2.store.world = 11) := by
  have hcompiled : compiled till [sale] = [soldTicket] := rfl
  have hx : soldTicket ∈ compiled till [sale] := hcompiled ▸ List.mem_singleton_self _
  have hproper := bodies_get_declared_arguments hx ⟨none, []⟩ openTill
  exact ⟨hcompiled, rfl, hproper.1, hproper.2.1, rfl⟩

end Expr
end ChatFlow
