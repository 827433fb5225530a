import ChatFlow.Proofs.Expr.Kinds
import ChatFlow.Proofs.Expr.Slots
import ChatFlow.Proofs.Expr.Tracing
import ChatFlow.Proofs.Expr.Transparency
import Mathlib.Data.List.Induction

/-! One invocation per event: once a call has yielded a value for an event, that value is served to it
whenever it is evaluated again for that event, and to nothing else. -/
namespace ChatFlow.Expr
variable {ω η α β : Type} {sites sites' : List (CallSite ω η)} {site : CallSite ω η}
  {capture : Capture} {memos memos' : Memos} {log log₁ log' : List (Moment ω η)} {x : Moment ω η}
  {k : Nat} {v : Value}

namespace Moment

/-- Whether it happens at a call, under some circumstances. -/
def At (site : CallSite ω η) (capture : Capture) (x : Moment ω η) : Prop :=
  x.place? = some (site, capture)

/-- Whether it ends an evaluation of a call with a value. -/
def Yields (site : CallSite ω η) (capture : Capture) (v : Value) : Moment ω η → Prop
  | served site' capture' v' => site' = site ∧ capture' = capture ∧ v' = v
  | ended site' capture' (.ok v') => site' = site ∧ capture' = capture ∧ v' = v
  | _ => False

/-- Whether a slot belongs to the call that it happens at. -/
def Uses (k : Nat) (x : Moment ω η) : Prop := ∃ site capture, x.At site capture ∧ site.slot = some k

/-- What is held for a slot after something has happened. -/
def update (k : Nat) (found : Option (Capture × Value)) : Moment ω η → Option (Capture × Value)
  | ended site capture (.ok v) =>
    if site.slot = some k then (if capture = .invalid then none else some (capture, v)) else found
  | cleared => none
  | _ => found

theorem update_of_not_uses {found : Option (Capture × Value)} (hx : ¬ x.Uses k)
    (hclear : x ≠ cleared) : x.update k found = found := by
  cases x with
  | ended site capture r =>
    have hslot : site.slot ≠ some k := fun h => hx ⟨site, capture, rfl, h⟩
    cases r with
    | error e => rfl
    | ok v => exact if_neg hslot
  | cleared => exact absurd rfl hclear
  | _ => rfl

end Moment

/-- What a record says about a slot: the last value stored for it since memories were cleared. -/
def held (k : Nat) (log : List (Moment ω η)) : Option (Capture × Value) :=
  log.foldl (fun found x => x.update k found) none

theorem held_concat : held k (log ++ [x]) = x.update k (held k log) := by
  rw [held, List.foldl_append]
  rfl

/-- Whether a call may have to be made: no value of it for the event that is handled is on record. -/
def Vacant (site : CallSite ω η) (capture : Capture) (log : List (Moment ω η)) : Prop :=
  ∀ k id v, site.slot = some k → capture = .event id → held k log ≠ some (.event id, v)

theorem Vacant.congr (h : Vacant site capture log)
    (heq : ∀ k, site.slot = some k → held k log' = held k log) : Vacant site capture log' :=
  fun k id v hk hcapture hheld => h k id v hk hcapture ((heq k hk).symm.trans hheld)

/-- Whether something may happen after what is on record. -/
def Moment.Due (log : List (Moment ω η)) : Moment ω η → Prop
  | served site capture v =>
    ∃ k id, site.slot = some k ∧ capture = .event id ∧ held k log = some (.event id, v)
  | begun site capture => Vacant site capture log
  | invoked site capture => Vacant site capture log
  | ended site capture _ => Vacant site capture log
  | cleared => True

/-- All that is on record was due when it happened, and what is in memory is what is on record. -/
structure Recorded (memos : Memos) (log : List (Moment ω η)) : Prop where
  uniform : memos.Uniform
  stored : ∀ k, memos.stored k = held k log
  due : ∀ before x after, log = before ++ x :: after → x.Due before

namespace Recorded

theorem empty : Recorded .empty ([] : List (Moment ω η)) :=
  ⟨Memos.uniform_empty, fun _ => rfl, by simp⟩

/-- The record goes on with something due, if memory changes accordingly. -/
theorem concat (h : Recorded memos log) (hdue : x.Due log) (huniform : memos'.Uniform)
    (hstored : ∀ k, memos'.stored k = x.update k (memos.stored k)) :
    Recorded memos' (log ++ [x]) := by
  refine ⟨huniform, fun k => by rw [hstored, h.stored, held_concat], ?_⟩
  intro before y after heq
  rcases List.eq_nil_or_concat after with rfl | ⟨after, z, rfl⟩
  · obtain ⟨rfl, hxy⟩ := List.append_inj' heq rfl
    cases hxy
    exact hdue
  · rw [List.concat_eq_append, ← List.cons_append, ← List.append_assoc] at heq
    exact h.due before y after (List.append_inj' heq rfl).1

/-- What is recalled is on record for the event that is handled. -/
theorem due_of_recalled {s : Situation} (h : Recorded memos log)
    (hv : Eval.recalled s site.member site.slot memos = some v) :
    (Moment.served site s.capture v).Due log := by
  obtain ⟨k, hk, hlookup⟩ := Option.bind_eq_some_iff.1 hv
  obtain ⟨id, hstored, hcapture⟩ := Memos.stored_of_lookup hlookup
  exact ⟨k, id, hk, Option.some.inj hcapture, (h.stored k).symm.trans hstored⟩

theorem vacant_of_recalled {s : Situation} (h : Recorded memos log)
    (hcaching : site.slot.isSome = true → site.member.caching = .perEvent)
    (hv : Eval.recalled s site.member site.slot memos = none) : Vacant site s.capture log := by
  intro k id v hk hcapture hheld
  have hlookup : memos.lookup k .perEvent (some s.capture) = some v :=
    h.uniform.lookup_eq_some.2 ⟨id, hcapture, (h.stored k).trans hheld⟩
  rw [Eval.recalled, hcaching (by rw [hk]; rfl), hk, Option.bind_some, hlookup] at hv
  cases hv

end Recorded

/-- Whether a record goes on with nothing but what happens at some calls. -/
def Extends (sites : List (CallSite ω η)) (log log' : List (Moment ω η)) : Prop :=
  ∃ new, log' = log ++ new ∧ ∀ x ∈ new, ∃ site ∈ sites, ∃ capture, x.At site capture

namespace Extends

theorem refl : Extends sites log log := ⟨[], (List.append_nil log).symm, by simp⟩

theorem trans (h : Extends sites log log₁) (h' : Extends sites log₁ log') : Extends sites log log' := by
  obtain ⟨new, rfl, hnew⟩ := h
  obtain ⟨more, rfl, hmore⟩ := h'
  refine ⟨new ++ more, List.append_assoc .., fun x hx => ?_⟩
  exact (List.mem_append.1 hx).elim (hnew x) (hmore x)

theorem imp (h : Extends sites log log') (hsub : sites ⊆ sites') : Extends sites' log log' := by
  obtain ⟨new, rfl, hnew⟩ := h
  refine ⟨new, rfl, fun x hx => ?_⟩
  obtain ⟨site, hsite, hx⟩ := hnew x hx
  exact ⟨site, hsub hsite, hx⟩

theorem concat (h : Extends sites log log') (hx : x.At site capture) (hsite : site ∈ sites) :
    Extends sites log (log' ++ [x]) := by
  refine h.trans ⟨[x], rfl, fun y hy => ?_⟩
  cases List.mem_singleton.1 hy
  exact ⟨site, hsite, capture, hx⟩

/-- What happens at some calls changes nothing for the slot of another call. -/
theorem held_eq (h : Extends sites log log') (hk : k ∉ sites.filterMap CallSite.slot) :
    held k log' = held k log := by
  obtain ⟨new, rfl, hnew⟩ := h
  induction new generalizing log with
  | nil => rw [List.append_nil]
  | cons x rest ih =>
    obtain ⟨site, hsite, capture, hx⟩ := hnew x List.mem_cons_self
    have hclear : x ≠ .cleared := by
      rintro rfl
      cases hx
    have huses : ¬ x.Uses k := by
      rintro ⟨site', capture', hx', hslot⟩
      cases hx.symm.trans hx'
      exact hk (List.mem_filterMap.2 ⟨site, hsite, hslot⟩)
    rw [List.append_cons, ih fun y hy => hnew y (List.mem_cons_of_mem _ hy), held_concat,
      Moment.update_of_not_uses huses hclear]

end Extends

/-- A call that ends with a value keeps it, if it has a slot. -/
theorem Recorded.concat_ended {s : Situation} (h : Recorded memos log)
    (hvacant : Vacant site s.capture log)
    (hcaching : site.slot.isSome = true → site.member.caching = .perEvent) (v : Value) :
    Recorded (Eval.recorded s site.member site.slot v memos)
      (log ++ [.ended site s.capture (.ok v)]) := by
  cases hslot : site.slot with
  | none =>
    refine h.concat hvacant h.uniform fun k => (if_neg ?_).symm
    rw [hslot]
    exact nofun
  | some k' =>
    rw [Eval.recorded, Option.elim_some, hcaching (by rw [hslot]; rfl)]
    refine h.concat hvacant h.uniform.write fun k => ?_
    rw [h.uniform.stored_write, Moment.update, hslot]
    simp only [Option.some.injEq, eq_comm]

namespace Traced
variable {m : Traced ω η α} {f : α → Traced ω η β} {s : Situation}

/-- A traced evaluation keeps a record that is right, and adds to it only what happens at some calls. -/
def Records (sites : List (CallSite ω η)) (m : Traced ω η α) : Prop :=
  ∀ memory log r memory' log', m (memory, log) = (r, memory', log') → Recorded memory.memos log →
    Recorded memory'.memos log' ∧ Extends sites log log'

theorem Records.imp (hm : Records sites m) (h : sites ⊆ sites') : Records sites' m := by
  intro memory log r memory' log' hr hrec
  obtain ⟨hrec', hext⟩ := hm _ _ _ _ _ hr hrec
  exact ⟨hrec', hext.imp h⟩

/-- What has no access to the memories has none to the record. -/
theorem unchanged_of_quietly {Q : α → Prop} {e : Eval ω η α} {memory memory' : Memory ω η}
    {r : Except EvalError α} (he : ∀ I, Eval.Ensures I e Q)
    (h : quietly e (memory, log) = (r, memory', log')) : memory'.memos = memory.memos ∧ log' = log := by
  obtain ⟨hr, hlog⟩ := quietly_eq h
  exact ⟨(he (· = memory.memos) _ _ _ hr rfl).1, hlog⟩

theorem records_quietly {Q : α → Prop} {e : Eval ω η α} (he : ∀ I, Eval.Ensures I e Q) :
    Records sites (quietly e) := by
  intro memory log r memory' log' hr hrec
  obtain ⟨hmemos, rfl⟩ := unchanged_of_quietly he hr
  exact ⟨hmemos ▸ hrec, .refl⟩

theorem Records.pure (a : α) : Records sites (pure a : Traced ω η α) := by
  intro memory log r memory' log' hr hrec
  cases hr
  exact ⟨hrec, .refl⟩

theorem Records.throw (e : EvalError) : Records sites (throw e : Traced ω η α) := by
  intro memory log r memory' log' hr hrec
  cases hr
  exact ⟨hrec, .refl⟩

theorem Records.bind (hm : Records sites m) (hf : ∀ a, Records sites (f a)) :
    Records sites (m >>= f) := by
  intro memory log r memory' log' hr hrec
  rcases bind_ends hr with ⟨a, ⟨memory₁, log₁⟩, ha, hb⟩ | ⟨e, he, rfl⟩
  · obtain ⟨hrec₁, hext₁⟩ := hm _ _ _ _ _ ha hrec
    obtain ⟨hrec', hext⟩ := hf a _ _ _ _ _ hb hrec₁
    exact ⟨hrec', hext₁.trans hext⟩
  · exact hm _ _ _ _ _ he hrec

section Call
variable {args : List (Term ω η)} {input : Option Value} {memory memory' : Memory ω η}
  {r : Except EvalError Value}

/-- A call that is not served leaves a right record of its arguments and of its own end. -/
theorem recorded_attempt (hcaching : site.slot.isSome = true → site.member.caching = .perEvent)
    (hslot : ∀ k, site.slot = some k → k ∉ (Term.callsOfAll args).filterMap CallSite.slot)
    (hargs : Records (Term.callsOfAll args) (terms s args))
    (hrec : Recorded memory.memos log) (hvacant : Vacant site s.capture log)
    (h : (do
      let values ← terms s args
      note (.invoked site s.capture)
      let v ← quietly (Eval.run s site.member (Eval.withPiped site.member input values)
        (input.getD .null))
      quietly (Eval.remember s site.member site.slot v)
      return v : Traced ω η Value) (memory, log) = (r, memory', log')) :
    Recorded memory'.memos (log' ++ [.ended site s.capture r]) ∧
      Extends (site :: Term.callsOfAll args) log log' := by
  have hsub : Term.callsOfAll args ⊆ site :: Term.callsOfAll args := List.subset_cons_self ..
  rcases bind_ends h with ⟨values, ⟨memory₁, log₁⟩, hterms, h⟩ | ⟨e, he, rfl⟩
  · obtain ⟨hrec₁, hext₁⟩ := hargs _ _ _ _ _ hterms hrec
    have hvacant₁ := hvacant.congr fun k hk => hext₁.held_eq (hslot k hk)
    have hinvoked := hrec₁.concat (x := .invoked site s.capture) hvacant₁ hrec₁.uniform fun _ => rfl
    have hvacant₂ := hvacant₁.congr fun k _ => held_concat (x := .invoked site s.capture)
    have hext := (hext₁.imp hsub).concat (x := .invoked site s.capture) rfl List.mem_cons_self
    rw [bind_of_ok (note_eq ..)] at h
    rcases bind_ends h with ⟨v, ⟨memory₂, log₂⟩, hrun, h⟩ | ⟨e, he, rfl⟩
    · obtain ⟨hmemos, rfl⟩ := unchanged_of_quietly (fun _ => Eval.ensures_run) hrun
      rw [← hmemos] at hinvoked
      rw [bind_of_ok (quietly_of_eq (Eval.remember_eq s site.member site.slot v memory₂))] at h
      cases h
      exact ⟨hinvoked.concat_ended hvacant₂ hcaching v, hext⟩
    · obtain ⟨hmemos, rfl⟩ := unchanged_of_quietly (fun _ => Eval.ensures_run) he
      rw [← hmemos] at hinvoked
      exact ⟨hinvoked.concat hvacant₂ hinvoked.uniform fun _ => rfl, hext⟩
  · obtain ⟨hrec₁, hext⟩ := hargs _ _ _ _ _ he hrec
    have hvacant₁ := hvacant.congr fun k hk => hext.held_eq (hslot k hk)
    exact ⟨hrec₁.concat hvacant₁ hrec₁.uniform fun _ => rfl, hext.imp hsub⟩

theorem records_call (site : CallSite ω η)
    (hcaching : site.slot.isSome = true → site.member.caching = .perEvent)
    (hslot : ∀ k, site.slot = some k → k ∉ (Term.callsOfAll args).filterMap CallSite.slot)
    (hargs : Records (Term.callsOfAll args) (terms s args)) :
    Records (site :: Term.callsOfAll args)
      (term s input (.call site.member args site.piped site.slot site.position)) := by
  intro memory log r memory' log' hr hrec
  rw [term, bind_of_ok (quietly_of_eq (Eval.remembered_eq s site.member site.slot memory))] at hr
  cases hv : Eval.recalled s site.member site.slot memory.memos with
  | some v =>
    rw [hv] at hr
    cases hr
    have hdue := hrec.due_of_recalled hv
    exact ⟨hrec.concat hdue hrec.uniform fun _ => rfl,
      Extends.refl.concat (x := .served site s.capture v) rfl List.mem_cons_self⟩
  | none =>
    rw [hv] at hr
    have hvacant := hrec.vacant_of_recalled hcaching hv
    have hbegun := hrec.concat (x := .begun site s.capture) hvacant hrec.uniform fun _ => rfl
    have hvacant₁ := hvacant.congr fun k _ => held_concat (x := .begun site s.capture)
    have hext₁ : Extends (site :: Term.callsOfAll args) log (log ++ [.begun site s.capture]) :=
      Extends.refl.concat rfl List.mem_cons_self
    obtain ⟨log₁, hattempt, rfl⟩ := noteEnd_eq ((bind_of_ok (note_eq ..)).symm.trans hr)
    obtain ⟨hrec', hext⟩ := recorded_attempt hcaching hslot hargs hbegun hvacant₁ hattempt
    exact ⟨hrec', (hext₁.trans hext).concat rfl List.mem_cons_self⟩

end Call

mutual

/-- An evaluation of a term keeps a right record, on which only calls of the term are added. -/
theorem records_term (s : Situation) : ∀ (t : Term ω η) (input : Option Value), Slotted t.calls →
    Records t.calls (term s input t)
  | .literal v, _, _ => .pure v
  | .call m args piped slot position, input, h =>
    records_call ⟨m, piped, slot, position⟩ (h.caching _ List.mem_cons_self).1
      h.not_mem_of_cons (records_terms s args (h.sublist (List.sublist_cons_self ..)))
  | .conditional bs none _ fallThrough, _, h => by
    rw [term]
    refine (records_branches s bs h).bind fun o => ?_
    cases o with
    | some v => exact .pure v
    | none =>
      cases fallThrough with
      | true => exact .pure _
      | false => exact .throw _
  | .conditional bs (some last) _ _, _, h => by
    rw [term]
    have hbs := records_branches s bs (h.sublist (List.sublist_append_left ..))
    have hlast := records_term s last none (h.sublist (List.sublist_append_right ..))
    refine (hbs.imp (List.subset_append_left ..)).bind fun o => ?_
    cases o with
    | some v => exact .pure v
    | none => exact hlast.imp (List.subset_append_right ..)
  | .operation op left right kind, _, h => by
    rw [term.eq_def]
    have hl : Records (Term.operation op left right kind).calls (term s none left) :=
      (records_term s left none (h.sublist (List.sublist_append_left ..))).imp
        (List.subset_append_left ..)
    have hr (input : Option Value) : Records (Term.operation op left right kind).calls
        (term s input right) :=
      (records_term s right input (h.sublist (List.sublist_append_right ..))).imp
        (List.subset_append_right ..)
    have htruth (v : Value) : Records (Term.operation op left right kind).calls
        (quietly (Eval.truth v)) := records_quietly fun _ => Eval.ensures_truth
    have hlast : Records (Term.operation op left right kind).calls
        (do return Value.bool (← quietly (Eval.truth (← term s none right)))) :=
      (hr none).bind fun v => (htruth v).bind fun _ => .pure _
    cases op with
    | sequence => exact hl.bind fun _ => hr none
    | chain => exact hl.bind fun v => hr (some v)
    | or =>
      refine hl.bind fun v => (htruth v).bind fun b => ?_
      cases b with
      | true => exact .pure _
      | false => exact hlast
    | and =>
      refine hl.bind fun v => (htruth v).bind fun b => ?_
      cases b with
      | true => exact hlast
      | false => exact .pure _
    | _ =>
      exact hl.bind fun _ => (hr none).bind fun _ => records_quietly fun _ => Eval.ensures_compareValues
termination_by structural t => t

theorem records_terms (s : Situation) : ∀ (ts : List (Term ω η)), Slotted (Term.callsOfAll ts) →
    Records (Term.callsOfAll ts) (terms s ts)
  | [], _ => .pure []
  | t :: ts, h => by
    rw [terms]
    have ht := records_term s t none (h.sublist (List.sublist_append_left ..))
    have hts := records_terms s ts (h.sublist (List.sublist_append_right ..))
    exact (ht.imp (List.subset_append_left ..)).bind fun _ =>
      (hts.imp (List.subset_append_right ..)).bind fun _ => .pure _
termination_by structural ts => ts

theorem records_branches (s : Situation) : ∀ (bs : List (Term ω η × Term ω η)),
    Slotted (Term.callsOfBranches bs) → Records (Term.callsOfBranches bs) (branches s bs)
  | [], _ => .pure none
  | (guard, body) :: bs, h => by
    rw [branches]
    have hfirst := h.sublist (List.sublist_append_left ..)
    have hguard := records_term s guard none (hfirst.sublist (List.sublist_append_left ..))
    have hbody := records_term s body none (hfirst.sublist (List.sublist_append_right ..))
    have hbs := records_branches s bs (h.sublist (List.sublist_append_right ..))
    have hpair := List.subset_append_left (guard.calls ++ body.calls) (Term.callsOfBranches bs)
    refine (hguard.imp (List.Subset.trans (List.subset_append_left ..) hpair)).bind fun v =>
      (records_quietly fun _ => Eval.ensures_truth).bind fun b => ?_
    cases b with
    | true => exact (hbody.imp (List.Subset.trans (List.subset_append_right ..) hpair)).bind fun _ => .pure _
    | false => exact hbs.imp (List.subset_append_right ..)
termination_by structural bs => bs

end

theorem records_evaluate {x : Expression ω η} (s : Situation) (h : Slotted x.term.calls) :
    Records x.term.calls (evaluate x s) :=
  (records_term s x.term none h).bind fun _ => records_quietly fun _ => Eval.ensures_conform

end Traced

/-- A use of the memories that the expressions of a compiler share. -/
inductive Step (ω η : Type) where
  | evaluate (e : Evaluation ω η)
  | clear

/-- The results of some uses of the same memories, with what each evaluation makes of its store. -/
def outcomes (xs : List (Expression ω η)) :
    List (Step ω η) → Memos → List (Option (Except EvalError Value × Store ω η))
  | [], _ => []
  | .clear :: rest, memos => outcomes xs rest memos.clear
  | .evaluate e :: rest, memos =>
    match xs[e.index]? with
    | none => none :: outcomes xs rest memos
    | some x =>
      let (result, memory) := ExceptT.run (x.evaluate e.situation) ⟨e.store, memos⟩
      some (result, memory.store) :: outcomes xs rest memory.memos

/-- The same results, with a record of all calls that goes on from the given one. -/
def history (xs : List (Expression ω η)) : List (Step ω η) → Memos → List (Moment ω η) →
    List (Option (Except EvalError Value × Store ω η)) × List (Moment ω η)
  | [], _, log => ([], log)
  | .clear :: rest, memos, log => history xs rest memos.clear (log ++ [.cleared])
  | .evaluate e :: rest, memos, log =>
    match xs[e.index]? with
    | none => (history xs rest memos log).map (none :: ·) id
    | some x =>
      let (result, memory, log) := ExceptT.run (Traced.evaluate x e.situation) (⟨e.store, memos⟩, log)
      (history xs rest memory.memos log).map (some (result, memory.store) :: ·) id

theorem history_fst (xs : List (Expression ω η)) (steps : List (Step ω η)) (memos : Memos)
    (log : List (Moment ω η)) : (history xs steps memos log).1 = outcomes xs steps memos := by
  induction steps generalizing memos log with
  | nil => rfl
  | cons step rest ih =>
    cases step with
    | clear => exact ih ..
    | evaluate e =>
      rw [history, outcomes]
      cases xs[e.index]? with
      | none => exact congrArg (none :: ·) (ih ..)
      | some x =>
        obtain ⟨new, hnew⟩ := Traced.shadows_evaluate x e.situation ⟨e.store, memos⟩ log
        simp only [ExceptT.run]
        rw [hnew]
        exact congrArg (_ :: ·) (ih ..)

theorem recorded_history {xs : List (Expression ω η)} (hslots : Slotted (callsOf xs))
    (steps : List (Step ω η)) (hrec : Recorded memos log)
    (hat : ∀ x ∈ log, ∀ site capture, x.At site capture → site ∈ callsOf xs) :
    ∃ memos', Recorded memos' (history xs steps memos log).2 ∧
      ∀ x ∈ (history xs steps memos log).2, ∀ site capture, x.At site capture →
        site ∈ callsOf xs := by
  induction steps generalizing memos log with
  | nil => exact ⟨memos, hrec, hat⟩
  | cons step rest ih =>
    cases step with
    | clear =>
      refine ih (hrec.concat trivial Memos.uniform_empty fun _ => rfl) ?_
      rintro x hx site capture hxat
      rcases List.mem_append.1 hx with hx | hx
      · exact hat x hx site capture hxat
      · cases List.mem_singleton.1 hx
        cases hxat
    | evaluate e =>
      rw [history]
      cases hx : xs[e.index]? with
      | none => exact ih hrec hat
      | some x =>
        have hmem := List.mem_of_getElem? hx
        rcases hr : Traced.evaluate x e.situation (⟨e.store, memos⟩, log) with ⟨r, memory₁, log₁⟩
        obtain ⟨hrec₁, new, rfl, hnew⟩ :=
          Traced.records_evaluate e.situation (hslots.calls_of_mem hmem) _ _ _ _ _ hr hrec
        simp only [ExceptT.run, hr]
        refine ih hrec₁ fun y hy site capture hyat => ?_
        rcases List.mem_append.1 hy with hy | hy
        · exact hat y hy site capture hyat
        · obtain ⟨site', hsite', capture', hyat'⟩ := hnew y hy
          cases hyat.symm.trans hyat'
          exact calls_subset_callsOf hmem hsite'

/-- Where a value for the event that is handled is held for a call, it is served to that call. -/
theorem Moment.served_of_due {id : UInt64} (hx : x.At site (.event id)) (hdue : x.Due log)
    (hk : site.slot = some k) (hheld : held k log = some (.event id, v)) :
    x = .served site (.event id) v := by
  have hvacant : ¬ Vacant site (.event id) log := fun h => h k id v hk rfl hheld
  cases x with
  | served site' capture' w =>
    cases hx
    obtain ⟨k', id', hk', hid, hw⟩ := hdue
    cases hk.symm.trans hk'
    cases hid
    cases hheld.symm.trans hw
    rfl
  | cleared => cases hx
  | _ =>
    cases hx
    exact absurd hdue hvacant

theorem held_of_yields {id : UInt64} (hx : x.Yields site (.event id) v) (hdue : x.Due log)
    (hk : site.slot = some k) : held k (log ++ [x]) = some (.event id, v) := by
  rw [held_concat]
  cases x with
  | served site' capture' w =>
    obtain ⟨rfl, rfl, rfl⟩ := hx
    obtain ⟨k', id', hk', hid, hheld⟩ := hdue
    cases hk.symm.trans hk'
    cases hid
    exact hheld
  | ended site' capture' r =>
    cases r with
    | error e => cases hx
    | ok w =>
      obtain ⟨rfl, rfl, rfl⟩ := hx
      simp [Moment.update, hk]
  | _ => cases hx

/-- What is held stays held until memories are cleared or its call is evaluated for something else. -/
theorem held_between {id : UInt64} (hrec : Recorded memos log)
    (hown : ∀ x ∈ log, ∀ site' capture, x.At site' capture → site'.slot = some k → site' = site)
    (hk : site.slot = some k) {before between after : List (Moment ω η)}
    (hlog : log = before ++ (between ++ after)) (hheld : held k before = some (.event id, v))
    (hbetween : ∀ z ∈ between, z ≠ .cleared ∧ ∀ capture, z.At site capture → capture = .event id) :
    held k (before ++ between) = some (.event id, v) := by
  induction between generalizing before with
  | nil => rwa [List.append_nil]
  | cons z rest ih =>
    obtain ⟨hclear, hsame⟩ := hbetween z List.mem_cons_self
    have hz : z ∈ log := by simp [hlog]
    have hupdate : z.update k (held k before) = some (.event id, v) := by
      by_cases huses : z.Uses k
      · obtain ⟨site', capture, hat, hslot⟩ := huses
        cases hown z hz site' capture hat hslot
        cases hsame capture hat
        rw [Moment.served_of_due hat (hrec.due _ _ _ hlog) hk hheld]
        exact hheld
      · rw [Moment.update_of_not_uses huses hclear, hheld]
    rw [List.append_cons]
    refine ih ?_ (held_concat.trans hupdate) fun y hy => hbetween y (List.mem_cons_of_mem _ hy)
    rw [hlog, List.append_assoc]
    rfl

/-- What is held has been put on record by a call of that slot, and nothing else has been since. -/
theorem ended_of_held (h : held k log = some (capture, v)) :
    ∃ earlier site since, log = earlier ++ .ended site capture (.ok v) :: since ∧
      site.slot = some k ∧
        ∀ z ∈ since, z ≠ .cleared ∧ ∀ capture w, z ≠ .ended site capture (.ok w) := by
  induction log using List.reverseRecOn with
  | nil => cases h
  | append_singleton log x ih =>
    rw [held_concat] at h
    by_cases hstores : ∃ site capture w, x = .ended site capture (.ok w) ∧ site.slot = some k
    · obtain ⟨site, capture', w, rfl, hslot⟩ := hstores
      rw [Moment.update, if_pos hslot] at h
      split at h
      · cases h
      · cases h
        exact ⟨log, site, [], rfl, hslot, by simp⟩
    · have hclear : x ≠ .cleared := by
        rintro rfl
        cases h
      have hkept : x.update k (held k log) = held k log := by
        cases x with
        | ended site capture' r =>
          cases r with
          | error e => rfl
          | ok w => exact if_neg fun hslot => hstores ⟨site, capture', w, rfl, hslot⟩
        | cleared => exact absurd rfl hclear
        | _ => rfl
      obtain ⟨earlier, site, since, rfl, hslot, hsince⟩ := ih (hkept.symm.trans h)
      refine ⟨earlier, site, since ++ [x], by simp, hslot, fun z hz => ?_⟩
      rcases List.mem_append.1 hz with hz | hz
      · exact hsince z hz
      · cases List.mem_singleton.1 hz
        exact ⟨hclear, fun capture' w hx => hstores ⟨site, capture', w, hx, hslot⟩⟩

/-- Whether each call that remembers its results gets the value it has yielded for an event again, and
nothing else happens at it, whenever it is evaluated for that event: unless in between memories were
cleared or the call was evaluated without that event. -/
def ServesAgain (log : List (Moment ω η)) : Prop :=
  ∀ before x between y after site id v, log = before ++ x :: (between ++ y :: after) →
    site.member.caching = .perEvent → x.Yields site (.event id) v → y.At site (.event id) →
    (∀ z ∈ between, z ≠ .cleared ∧ ∀ capture, z.At site capture → capture = .event id) →
    y = .served site (.event id) v

/-- Whether a call is only served what its member has yielded for the event that is handled, when it
last yielded anything, with memories not cleared since. -/
def ServesOwn (log : List (Moment ω η)) : Prop :=
  ∀ before site capture v after, log = before ++ .served site capture v :: after →
    ∃ id earlier since, capture = .event id ∧
      before = earlier ++ .ended site (.event id) (.ok v) :: since ∧
      ∀ z ∈ since, z ≠ .cleared ∧ ∀ capture w, z ≠ .ended site capture (.ok w)

/-- In any use of the memories that a compiler's expressions share, keeping a record of the calls
changes no result, and by that record a member runs at most once per call and event. -/
theorem one_invocation_per_event (ns : Namespace ω η) (requests : List Request)
    (steps : List (Step ω η)) :
    (history (compiled ns requests) steps .empty []).1 = outcomes (compiled ns requests) steps .empty ∧
      ServesAgain (history (compiled ns requests) steps .empty []).2 ∧
      ServesOwn (history (compiled ns requests) steps .empty []).2 := by
  have hslots := Slotted.callsOf_compiled ns requests
  obtain ⟨memos, hrec, hat⟩ := recorded_history hslots steps .empty (by simp)
  refine ⟨history_fst .., ?_, ?_⟩
  · intro before x between y after site id v hlog hcaching hx hy hbetween
    have hsite : site ∈ callsOf (compiled ns requests) := hat y (by simp [hlog]) site _ hy
    obtain ⟨k, hk⟩ := Option.isSome_iff_exists.1 ((hslots.caching site hsite).2 hcaching)
    have hheld := held_of_yields hx (hrec.due _ _ _ hlog) hk
    have hlog' := hlog.trans (List.append_cons ..)
    have hown := fun z hz site' capture hz' hslot =>
      eq_of_nodup_filterMap hslots.nodup (hat z hz site' capture hz') hsite hslot hk
    have hstill := held_between hrec hown hk hlog' hheld hbetween
    rw [← List.append_assoc] at hlog'
    exact Moment.served_of_due hy (hrec.due _ _ _ hlog') hk hstill
  · intro before site capture v after hlog
    obtain ⟨k, id, hk, rfl, hheld⟩ := hrec.due _ _ _ hlog
    obtain ⟨earlier, site', since, rfl, hk', hsince⟩ := ended_of_held hheld
    have hsite := hat (.served site (.event id) v) (by simp [hlog]) site _ rfl
    have hsite' := hat (.ended site' (.event id) (.ok v)) (by simp [hlog]) site' _ rfl
    cases eq_of_nodup_filterMap hslots.nodup hsite hsite' hk hk'
    exact ⟨id, earlier, since, rfl, rfl, hsince⟩

/-- The only call at the desk. -/
def drawing : CallSite Nat Unit := ⟨ticket, false, some 0, 0⟩

def visitDesk (situation : Situation) (next : Nat) : Step Nat Unit :=
  .evaluate ⟨0, situation, ⟨∅, none, next⟩⟩

/-- Two visits under one event, and one more under it after clearing. -/
def queue : List (Step Nat Unit) :=
  [visitDesk atDesk 5, visitDesk atDesk 6, .clear, visitDesk atDesk 7]

def drawn (capture : Capture) (number : Int64) : List (Moment Nat Unit) :=
  [.begun drawing capture, .invoked drawing capture, .ended drawing capture (.ok (.int number))]

/-- Of the two visits under one event only the first draws a ticket. -/
theorem one_ticket_per_event :
    (history (compiled desk [ticketOrTwo]) queue .empty []).2 =
      drawn (.event 7) 5 ++ .served drawing (.event 7) (.int 5) ::
        (.cleared :: drawn (.event 7) 7) ∧
    ∀ y after, (history (compiled desk [ticketOrTwo]) queue .empty []).2 =
      drawn (.event 7) 5 ++ y :: after → y.At drawing (.event 7) →
      y = .served drawing (.event 7) (.int 5) := by
  obtain ⟨-, hagain, -⟩ := one_invocation_per_event desk [ticketOrTwo] queue
  refine ⟨rfl, fun y after hlog hy => ?_⟩
  exact hagain [.begun drawing (.event 7), .invoked drawing (.event 7)]
    (.ended drawing (.event 7) (.ok (.int 5))) [] y after drawing 7 (.int 5) hlog rfl
    ⟨rfl, rfl, rfl⟩ hy (by simp)

end ChatFlow.Expr
