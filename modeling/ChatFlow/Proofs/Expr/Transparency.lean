import ChatFlow.Proofs.Expr.Places
import ChatFlow.Proofs.Expr.Purity
import ChatFlow.Proofs.Expr.Uncached

/-! Remembering is transparent: as long as members depend on nothing but the event and what they are
given, serving their results from memory changes no result. -/
namespace ChatFlow.Expr
variable {ω η α β : Type}

namespace Eval
variable {I : Memos → Prop} {e : Option Flow.Event} {m m' : Situation → Eval ω η α}
  {r r' : Except EvalError α}

/-- While an event is handled, a computation has one result and changes nothing but the memories, of
which it keeps a property. -/
def Computes (I : Memos → Prop) (e : Option Flow.Event) (m : Situation → Eval ω η α)
    (r : Except EvalError α) : Prop :=
  ∀ s memory, s.event = e → I memory.memos →
    ∃ memos, m s memory = (r, { memory with memos }) ∧ I memos

/-- With sound memories, the first computation has the same result as the second without any. -/
def Agree (I : Memos → Prop) (e : Option Flow.Event) (m m' : Situation → Eval ω η α) : Prop :=
  ∃ r, Means e m' r ∧ Computes I e m r

/-- What needs no memory is not changed by having one. -/
theorem Agree.of_settled (h : Settled e m) : Agree I e m m := by
  obtain ⟨r, hr⟩ := h
  exact ⟨r, hr, fun s memory hs hI => ⟨memory.memos, hr s memory hs, hI⟩⟩

theorem Agree.pure (a : α) : Agree I e (fun _ => pure a) fun _ => (pure a : Eval ω η α) :=
  .of_settled (.pure a)

theorem Agree.bind {f f' : α → Situation → Eval ω η β} (hm : Agree I e m m')
    (hf : ∀ a, Means e m' (.ok a) → Agree I e (f a) (f' a)) :
    Agree I e (fun s => m s >>= fun a => f a s) fun s => m' s >>= fun a => f' a s := by
  obtain ⟨r | a, hmeans, hcomputes⟩ := hm
  · refine ⟨.error r, hmeans.bind_error, ?_⟩
    intro s memory hs hI
    obtain ⟨memos, hr, hI'⟩ := hcomputes s memory hs hI
    exact ⟨memos, bind_of_error hr, hI'⟩
  · obtain ⟨r, hmeans', hcomputes'⟩ := hf a hmeans
    refine ⟨r, hmeans.bind_ok hmeans', ?_⟩
    intro s memory hs hI
    obtain ⟨memos₁, hr₁, hI₁⟩ := hcomputes s memory hs hI
    obtain ⟨memos, hr, hI'⟩ := hcomputes' s { memory with memos := memos₁ } hs hI₁
    exact ⟨memos, (bind_of_ok hr₁).trans hr, hI'⟩

/-- What arrives at a place through the chain that it is part of. -/
inductive Fed (e : Option Flow.Event) : Option (Term ω η) → Option Value → Prop
  | none : Fed e none none
  | some {l : Term ω η} {u : Value} (h : Means e (fun s => term s none l.uncached) (.ok u)) :
      Fed e (some l) (some u)

end Eval

/-- Whether the call at a place, made without any memory, yields a value. -/
def Place.Yields (p : Place ω η) (x : Flow.Event) (v : Value) : Prop :=
  ∃ input, Eval.Fed (some x) p.feed input ∧
    Eval.Means (some x) (fun s => Eval.term s input p.call.uncached) (.ok v)

/-- What is stored under the identifier of an event is what the call would yield for that event. -/
def Faithful (places : List (Place ω η)) (events : List Flow.Event) (memos : Memos) : Prop :=
  ∀ p ∈ places, ∀ k x v, p.site.slot = some k → memos.stored k = some (.event x.id, v) →
    x ∈ events → p.Yields x v

namespace Eval
variable {e : Option Flow.Event} {places : List (Place ω η)} {events : List Flow.Event}

theorem Fed.unique {feed : Option (Term ω η)} {input input' : Option Value} {s : Situation}
    (h : Fed e feed input) (h' : Fed e feed input') (hs : s.event = e) (memory : Memory ω η) :
    input = input' := by
  cases h with
  | none =>
    cases h'
    rfl
  | some h =>
    cases h' with
    | some h' =>
      cases h.unique h' hs memory
      rfl

/-- Each slot belongs to one place, and each identifier to one event, of which the one that is handled
is one. -/
structure Unambiguous (places : List (Place ω η)) (events : List Flow.Event)
    (e : Option Flow.Event) : Prop where
  slots : (places.filterMap (·.site.slot)).Nodup
  ids : ∀ x ∈ events, ∀ y ∈ events, x.id = y.id → x = y
  handled : ∀ x, e = some x → x ∈ events

variable {p : Place ω η} {s : Situation} {input : Option Value} {v : Value}

/-- A call that is served from memory gets what it would have computed. -/
theorem means_of_recalled {memory : Memory ω η} (hu : Unambiguous places events e) (hp : p ∈ places)
    (hfed : Fed e p.feed input) (hs : s.event = e) (hI : Faithful places events memory.memos)
    (hv : recalled s p.site.member p.site.slot memory.memos = some v) :
    Means e (fun s => term s input p.call.uncached) (.ok v) := by
  obtain ⟨k, x, hk, hx, hstored⟩ := stored_of_recalled hv
  rw [hs] at hx
  subst hx
  obtain ⟨input', hfed', hmeans⟩ := hI p hp k x v hk hstored (hu.handled x rfl)
  cases hfed.unique hfed' hs memory
  exact hmeans

/-- A call that is not served from memory stores what it would compute without any. -/
theorem faithful_recorded {memos : Memos} (hu : Unambiguous places events e) (hp : p ∈ places)
    (hfed : Fed e p.feed input) (hs : s.event = e) (hI : Faithful places events memos)
    (hmeans : Means e (fun s => term s input p.call.uncached) (.ok v)) :
    Faithful places events (recorded s p.site.member p.site.slot v memos) := by
  intro p' hp' k x w hk' hstored hx
  rcases stored_recorded hstored with hold | ⟨hk, hnew⟩
  · exact hI p' hp' k x w hk' hold hx
  · cases eq_of_nodup_filterMap hu.slots hp' hp hk' hk
    obtain ⟨hcapture, rfl⟩ := Prod.mk.inj hnew
    obtain ⟨y, hy, hid⟩ := capture_eq_event hcapture.symm
    rw [hs] at hy
    subst hy
    cases hu.ids x hx y (hu.handled y rfl) hid.symm
    exact ⟨input, hfed, hmeans⟩

section
variable {m : Member ω η} {args : List (Term ω η)} {piped : Bool} {slot : Option Nat}
  {position : Nat} {memory memory₁ : Memory ω η}

theorem term_call_error {err : EvalError} (hmiss : recalled s m slot memory.memos = none)
    (hterms : terms s args memory = (.error err, memory₁)) :
    term s input (.call m args piped slot position) memory = (.error err, memory₁) := by
  rw [term, bind_of_ok (remembered_eq s m slot memory), hmiss]
  exact bind_of_error hterms

/-- A call that is not served from memory runs its member, and puts on record what that yields. -/
theorem term_call_miss {values : List Value} {r : Except EvalError Value}
    (hmiss : recalled s m slot memory.memos = none)
    (hterms : terms s args memory = (.ok values, memory₁))
    (hrun : run s m (withPiped m input values) (input.getD .null) memory₁ = (r, memory₁)) :
    term s input (.call m args piped slot position) memory = match r with
      | .ok v => (.ok v, { memory₁ with memos := recorded s m slot v memory₁.memos })
      | .error err => (.error err, memory₁) := by
  rw [term, bind_of_ok (remembered_eq s m slot memory), hmiss]
  dsimp only
  rw [bind_of_ok hterms]
  rcases r with err | v
  · exact bind_of_error hrun
  · rw [bind_of_ok hrun]
    exact bind_of_ok (remember_eq s m slot v memory₁)

/-- A call without a slot does what its arguments and its member do. -/
theorem means_call {values : List Value} {r : Except EvalError Value}
    (hargs : Means e (fun s => terms s args) (.ok values))
    (hrun : Means e (fun s => run s m (withPiped m input values) (input.getD .null)) r) :
    Means e (fun s => term s input (.call m args piped none position)) r := by
  intro s memory hs
  refine (term_call_miss rfl (hargs s memory hs) (hrun s memory hs)).trans ?_
  cases r <;> rfl

end

/-- Only calls that are not served from memory are left to look at. -/
theorem agree_of_miss {r : Except EvalError Value} (hu : Unambiguous places events e)
    (hp : p ∈ places) (hfed : Fed e p.feed input)
    (hcall : Means e (fun s => term s input p.call.uncached) r)
    (hmiss : ∀ s memory, s.event = e → Faithful places events memory.memos →
      recalled s p.site.member p.site.slot memory.memos = none → ∃ memos,
        term s input p.call memory = (r, { memory with memos }) ∧ Faithful places events memos) :
    Agree (Faithful places events) e (fun s => term s input p.call)
      fun s => term s input p.call.uncached := by
  refine ⟨r, hcall, fun s memory hs hI => ?_⟩
  cases hrecalled : recalled s p.site.member p.site.slot memory.memos with
  | none => exact hmiss s memory hs hI hrecalled
  | some v =>
    have hmeans := means_of_recalled hu hp hfed hs hI hrecalled
    cases hmeans.unique hcall hs memory
    refine ⟨memory.memos, (bind_of_ok (remembered_eq s _ _ memory)).trans ?_, hI⟩
    rw [hrecalled]
    rfl

theorem agree_call (hu : Unambiguous places events e) (hp : p ∈ places) (hfed : Fed e p.feed input)
    (hpure : p.site.member.IsPure)
    (hargs : Agree (Faithful places events) e (fun s => terms s p.args)
      fun s => terms s (Term.uncachedAll p.args)) :
    Agree (Faithful places events) e (fun s => term s input p.call)
      fun s => term s input p.call.uncached := by
  obtain ⟨err | values, hmeans, hcomputes⟩ := hargs
  · refine agree_of_miss hu hp hfed (fun s memory hs => term_call_error rfl (hmeans s memory hs)) ?_
    intro s memory hs hI hmiss
    obtain ⟨memos, hterms, hI'⟩ := hcomputes s memory hs hI
    exact ⟨memos, term_call_error hmiss hterms, hI'⟩
  · obtain ⟨r, hr⟩ := hpure e (withPiped p.site.member input values) (input.getD .null)
    have hcall : Means e (fun s => term s input p.call.uncached) r :=
      means_call (m := p.site.member.uncached) hmeans hr
    refine agree_of_miss hu hp hfed hcall ?_
    intro s memory hs hI hmiss
    obtain ⟨memos₁, hterms, hI₁⟩ := hcomputes s memory hs hI
    have hcalled : term s input p.call memory = _ := term_call_miss hmiss hterms (hr s _ hs)
    rcases r with err | v
    · exact ⟨memos₁, hcalled, hI₁⟩
    · exact ⟨_, hcalled, faithful_recorded hu hp hfed hs hI₁ hcall⟩

theorem agree_truth {I : Memos → Prop} :
    Agree I e (fun _ => truth v) fun _ => (truth v : Eval ω η Bool) :=
  .of_settled settled_truth

mutual

/-- Over pure members, a term computes with faithful memories what it means without any. -/
theorem agree_term (hu : Unambiguous places events e) :
    ∀ (t : Term ω η) {feed : Option (Term ω η)} {input : Option Value}, t.places feed ⊆ places →
      (∀ site ∈ t.calls, site.member.IsPure) → Fed e feed input →
      Agree (Faithful places events) e (fun s => term s input t) fun s => term s input t.uncached
  | .literal v, _, _, _, _, _ => .pure v
  | .call m args piped slot position, feed, input, hsub, hpure, hfed => by
    have hargs := agree_terms hu args (fun _ h => hsub (List.mem_cons_of_mem _ h))
      fun _ h => hpure _ (List.mem_cons_of_mem _ h)
    exact agree_call (p := ⟨feed, ⟨m, piped, slot, position⟩, args⟩) hu
      (hsub List.mem_cons_self) hfed (hpure _ List.mem_cons_self) hargs
  | .conditional bs none _ fallThrough, _, _, hsub, hpure, _ => by
    refine (agree_branches hu bs hsub hpure).bind fun o _ => ?_
    cases o with
    | some v => exact .pure v
    | none =>
      cases fallThrough with
      | true => exact .pure Value.null
      | false => exact .of_settled (.throw _)
  | .conditional bs (some last) _ _, _, _, hsub, hpure, _ => by
    obtain ⟨hbs, hlast⟩ := List.append_subset.1 hsub
    obtain ⟨hpbs, hplast⟩ := List.forall_mem_append.1 hpure
    refine (agree_branches hu bs hbs hpbs).bind fun o _ => ?_
    cases o with
    | some v => exact .pure v
    | none => exact agree_term hu last hlast hplast .none
  | .operation op left right _, _, _, hsub, hpure, _ => by
    obtain ⟨hleft, hright⟩ := List.append_subset.1 hsub
    obtain ⟨hpleft, hpright⟩ := List.forall_mem_append.1 hpure
    have hl := agree_term hu left hleft hpleft .none
    -- Only a chain feeds its right side, with the one value that its left side means.
    have hr {input : Option Value} (hfed : Fed e (if op = .chain then some left else none) input) :=
      agree_term hu right hright hpright hfed
    cases op with
    | sequence => exact hl.bind fun _ _ => hr .none
    | chain => exact hl.bind fun v hv => hr (.some hv)
    | or =>
      refine hl.bind fun v _ => agree_truth.bind fun b _ => ?_
      cases b with
      | true => exact .pure _
      | false => exact (hr .none).bind fun _ _ => agree_truth.bind fun _ _ => .pure _
    | and =>
      refine hl.bind fun v _ => agree_truth.bind fun b _ => ?_
      cases b with
      | true => exact (hr .none).bind fun _ _ => agree_truth.bind fun _ _ => .pure _
      | false => exact .pure _
    | _ =>
      exact hl.bind fun _ _ => (hr .none).bind fun _ _ => .of_settled settled_compareValues
termination_by structural t => t

theorem agree_terms (hu : Unambiguous places events e) : ∀ (ts : List (Term ω η)),
    Term.placesOfAll ts ⊆ places → (∀ site ∈ Term.callsOfAll ts, site.member.IsPure) →
    Agree (Faithful places events) e (fun s => terms s ts) fun s => terms s (Term.uncachedAll ts)
  | [], _, _ => .pure []
  | t :: ts, hsub, hpure => by
    obtain ⟨ht, hts⟩ := List.append_subset.1 hsub
    obtain ⟨hpt, hpts⟩ := List.forall_mem_append.1 hpure
    exact (agree_term hu t ht hpt .none).bind fun _ _ =>
      (agree_terms hu ts hts hpts).bind fun _ _ => .pure _
termination_by structural ts => ts

theorem agree_branches (hu : Unambiguous places events e) : ∀ (bs : List (Term ω η × Term ω η)),
    Term.placesOfBranches bs ⊆ places → (∀ site ∈ Term.callsOfBranches bs, site.member.IsPure) →
    Agree (Faithful places events) e (fun s => branches s bs)
      fun s => branches s (Term.uncachedBranches bs)
  | [], _, _ => .pure none
  | (guard, body) :: bs, hsub, hpure => by
    obtain ⟨hsub, hbs⟩ := List.append_subset.1 hsub
    obtain ⟨hguard, hbody⟩ := List.append_subset.1 hsub
    obtain ⟨hpure, hpbs⟩ := List.forall_mem_append.1 hpure
    obtain ⟨hpguard, hpbody⟩ := List.forall_mem_append.1 hpure
    refine (agree_term hu guard hguard hpguard .none).bind fun _ _ => agree_truth.bind fun b _ => ?_
    cases b with
    | true => exact (agree_term hu body hbody hpbody .none).bind fun _ _ => .pure _
    | false => exact agree_branches hu bs hbs hpbs
termination_by structural bs => bs

end
end Eval

/-- The evaluation of the expression with an index, in a context of its own. -/
structure Evaluation (ω η : Type) where
  index : Nat
  situation : Situation
  store : Store ω η

/-- The results of evaluations that share their memories, with what each makes of its store. -/
def evaluations (xs : List (Expression ω η)) :
    List (Evaluation ω η) → Memos → List (Option (Except EvalError Value × Store ω η))
  | [], _ => []
  | step :: rest, memos =>
    match xs[step.index]? with
    | none => none :: evaluations xs rest memos
    | some x =>
      let (result, memory) := ExceptT.run (x.evaluate step.situation) ⟨step.store, memos⟩
      some (result, memory.store) :: evaluations xs rest memory.memos

/-- Whether an expression calls pure members only. -/
def Expression.IsPure (x : Expression ω η) : Prop := ∀ site ∈ x.term.calls, site.member.IsPure

theorem agree_evaluate {x : Expression ω η} {xs : List (Expression ω η)} {events : List Flow.Event}
    {e : Option Flow.Event} (hu : Eval.Unambiguous (placesOf xs) events e) (hx : x ∈ xs)
    (hpure : x.IsPure) :
    Eval.Agree (Faithful (placesOf xs) events) e x.evaluate x.uncached.evaluate := by
  have hsub : x.term.places none ⊆ placesOf xs := fun p hp => List.mem_flatMap.2 ⟨x, hx, hp⟩
  exact (Eval.agree_term hu x.term hsub hpure .none).bind fun _ _ => .of_settled Eval.settled_conform

theorem evaluations_eq (events : List Flow.Event) {xs : List (Expression ω η)}
    {steps : List (Evaluation ω η)} {memos memos' : Memos}
    (hslots : ((placesOf xs).filterMap (·.site.slot)).Nodup)
    (hids : ∀ x ∈ events, ∀ y ∈ events, x.id = y.id → x = y)
    (hevents : ∀ step ∈ steps, ∀ e, step.situation.event = some e → e ∈ events)
    (hpure : ∀ step ∈ steps, ∀ x, xs[step.index]? = some x → x.IsPure)
    (hmemos : Faithful (placesOf xs) events memos) :
    evaluations (xs.map Expression.uncached) steps memos' = evaluations xs steps memos := by
  induction steps generalizing memos memos' with
  | nil => rfl
  | cons step rest ih =>
    have hevents' := fun step' h => hevents step' (List.mem_cons_of_mem _ h)
    have hpure' := fun step' h => hpure step' (List.mem_cons_of_mem _ h)
    rw [evaluations, evaluations, List.getElem?_map]
    cases hx : xs[step.index]? with
    | none => exact congrArg (none :: ·) (ih hevents' hpure' hmemos)
    | some x =>
      have hu : Eval.Unambiguous (placesOf xs) events step.situation.event :=
        ⟨hslots, hids, hevents step List.mem_cons_self⟩
      obtain ⟨r, hmeans, hcomputes⟩ := agree_evaluate hu (List.mem_of_getElem? hx)
        (hpure step List.mem_cons_self x hx)
      obtain ⟨memos₁, hr, hmemos₁⟩ := hcomputes step.situation ⟨step.store, memos⟩ rfl hmemos
      simp only [Option.map_some, ExceptT.run]
      rw [hr, hmeans step.situation ⟨step.store, memos'⟩ rfl]
      exact congrArg (_ :: ·) (ih hevents' hpure' hmemos₁)

/-- Evaluations of expressions over pure members give the same results whether or not results are
remembered, in any order of events that can be told apart by their identifiers. -/
theorem evaluations_uncached {ns : Namespace ω η} {requests : List Request}
    {steps : List (Evaluation ω η)}
    (hpure : ∀ step ∈ steps, ∀ x, (compiled ns requests)[step.index]? = some x → x.IsPure)
    (hids : ∀ a ∈ steps, ∀ b ∈ steps, ∀ x y, a.situation.event = some x →
      b.situation.event = some y → x.id = y.id → x = y) :
    evaluations (compiled ns.uncached requests) steps .empty =
      evaluations (compiled ns requests) steps .empty := by
  rw [compiled_uncached]
  refine evaluations_eq (steps.filterMap (·.situation.event)) (nodup_slots_placesOf ns requests)
    ?_ ?_ hpure ?_
  · intro x hx y hy hid
    obtain ⟨a, ha, hax⟩ := List.mem_filterMap.1 hx
    obtain ⟨b, hb, hby⟩ := List.mem_filterMap.1 hy
    exact hids a ha b hb x y hax hby hid
  · intro step hstep e he
    exact List.mem_filterMap.2 ⟨step, hstep, he⟩
  · intro p _ k id v _ hstored
    cases hstored

/-- What a shop answers to a message about some goods. -/
def answer : Option Flow.Event → List Value → Except String Value
  | some e, goods => .ok (.list (.str (e.text?.getD "") :: goods))
  | none, _ => .error "nobody asks"

def answering : Member Unit Unit :=
  { Member.function "Shop" "answer" [.str] .list fun s goods store => (answer s.event goods, store) with
    caching := .perEvent }

def box (goods : Value) : Effect Unit Unit Value := pure (.list [goods])

def boxing : Member Unit Unit :=
  { Member.generator "Shop" "box" [] .any .list fun _ _ => pure box with caching := .perEvent }

def shop : Namespace Unit Unit := (Namespace.empty.register answering).register boxing

def boxedAnswer : Request :=
  .tree none .any (.operation .chain
    (.call .reference (some "Shop") "answer" (some [.literal (.str "tea") 0]) 0)
    (.call .generator (some "Shop") "box" none 0) 0)

def boxedTea : Expression Unit Unit :=
  ⟨.operation .chain (.call answering [.literal (.str "tea")] false (some 0) 0)
    (.call boxing [] true (some 1) 0) .list, .any, none⟩

def morning : Flow.Event := ⟨1, 7, .text "hi"⟩
def evening : Flow.Event := ⟨2, 7, .text "hello"⟩

def visit (event : Option Flow.Event) : Evaluation Unit Unit := ⟨0, ⟨event, []⟩, ⟨∅, none, ()⟩⟩

def visits : List (Evaluation Unit Unit) :=
  [visit morning, visit morning, visit none, visit evening, visit morning]

/-- The second visitor of the morning is answered from memory, the one in the evening is not, and
nobody gets what belongs to another event. -/
theorem answers_uncached :
    (evaluations (compiled shop [boxedAnswer]) visits .empty).map
        (·.bind fun r => r.1.toOption.map Value.render) =
      [some "[[hi, tea]]", some "[[hi, tea]]", none, some "[[hello, tea]]", some "[[hi, tea]]"] ∧
    evaluations (compiled shop.uncached [boxedAnswer]) visits .empty =
      evaluations (compiled shop [boxedAnswer]) visits .empty := by
  have hcompiled : compiled shop [boxedAnswer] = [boxedTea] := rfl
  have hpure : boxedTea.IsPure := by
    intro site hsite
    rcases List.mem_cons.1 hsite with rfl | hsite
    · exact Member.isPure_of_function answer rfl fun _ _ _ => rfl
    · cases List.mem_singleton.1 hsite
      refine Member.isPure_of_generator (fun _ _ => .ok box) rfl (fun _ _ _ => rfl) ?_
      rintro _ _ _ ⟨⟩ goods
      exact ⟨.ok (.list [goods]), fun _ => rfl⟩
  have hevents : ∀ a ∈ visits, ∀ x, a.situation.event = some x → x = morning ∨ x = evening := by
    intro a ha x hx
    simp only [visits, List.mem_cons, List.not_mem_nil, or_false] at ha
    rcases ha with rfl | rfl | rfl | rfl | rfl <;> cases hx
    · exact Or.inl rfl
    · exact Or.inl rfl
    · exact Or.inr rfl
    · exact Or.inl rfl
  refine ⟨by decide +kernel, evaluations_uncached ?_ ?_⟩
  · intro step hstep x hx
    rw [hcompiled] at hx
    cases List.mem_singleton.1 (List.mem_of_getElem? hx)
    exact hpure
  · intro a ha b hb x y hx hy hid
    rcases hevents a ha x hx with rfl | rfl <;> rcases hevents b hb y hy with rfl | rfl
    · rfl
    · cases hid
    · cases hid
    · rfl

end ChatFlow.Expr
