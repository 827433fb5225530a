import ChatFlow.Proofs.Expr.Memory

/-! Evaluation with a record of its calls. The record changes nothing: values, failures and memories are
those of an evaluation without it. -/
namespace ChatFlow.Expr
variable {ω η α β : Type}

/-- Something that happens at a call, under the circumstances in which it is evaluated. -/
inductive Moment (ω η : Type) where
  /-- The call is answered from memory. Neither its arguments nor its member are needed. -/
  | served (site : CallSite ω η) (capture : Capture) (v : Value)
  /-- Nothing is found in memory. The arguments are evaluated next. -/
  | begun (site : CallSite ω η) (capture : Capture)
  /-- All arguments have values, and the member is run. -/
  | invoked (site : CallSite ω η) (capture : Capture)
  | ended (site : CallSite ω η) (capture : Capture) (result : Except EvalError Value)
  /-- The memories are cleared, which no evaluation does. -/
  | cleared

namespace Moment

/-- The call that something happens at, with the circumstances. -/
def place? : Moment ω η → Option (CallSite ω η × Capture)
  | served site capture _ => some (site, capture)
  | begun site capture => some (site, capture)
  | invoked site capture => some (site, capture)
  | ended site capture _ => some (site, capture)
  | cleared => none

end Moment

/-- An evaluation that records what happens at its calls, in order. -/
abbrev Traced (ω η α : Type) := ExceptT EvalError (StateM (Memory ω η × List (Moment ω η))) α

namespace Traced

/-- An evaluation in which no call happens. -/
def quietly (e : Eval ω η α) : Traced ω η α := fun st =>
  ((e st.1).1, (e st.1).2, st.2)

def note (x : Moment ω η) : Traced ω η Unit := fun st => (.ok (), st.1, st.2 ++ [x])

/-- Records how the rest of a call ends. -/
def noteEnd (site : CallSite ω η) (capture : Capture) (m : Traced ω η Value) : Traced ω η Value :=
  fun st => ((m st).1, (m st).2.1, (m st).2.2 ++ [.ended site capture (m st).1])

section
variable {memory memory' : Memory ω η} {log log' : List (Moment ω η)}

theorem quietly_eq {e : Eval ω η α} {r : Except EvalError α}
    (h : quietly e (memory, log) = (r, memory', log')) : e memory = (r, memory') ∧ log' = log := by
  cases h
  exact ⟨rfl, rfl⟩

theorem quietly_of_eq {e : Eval ω η α} {r : Except EvalError α} (h : e memory = (r, memory')) :
    quietly e (memory, log) = (r, memory', log) := by
  rw [quietly, h]

theorem note_eq (x : Moment ω η) (memory : Memory ω η) (log : List (Moment ω η)) :
    note x (memory, log) = (.ok (), memory, log ++ [x]) := rfl

theorem noteEnd_eq {m : Traced ω η Value} {site : CallSite ω η} {capture : Capture}
    {r : Except EvalError Value} (h : noteEnd site capture m (memory, log) = (r, memory', log')) :
    ∃ log₁, m (memory, log) = (r, memory', log₁) ∧ log' = log₁ ++ [.ended site capture r] := by
  cases h
  exact ⟨_, rfl, rfl⟩

end

mutual

def term (s : Situation) (piped : Option Value) : Term ω η → Traced ω η Value
  | .literal v => return v
  | .call m args p slot position => do
    match ← quietly (Eval.remembered s m slot) with
    | some v =>
      note (.served ⟨m, p, slot, position⟩ s.capture v)
      return v
    | none =>
      note (.begun ⟨m, p, slot, position⟩ s.capture)
      noteEnd ⟨m, p, slot, position⟩ s.capture do
        let values ← terms s args
        note (.invoked ⟨m, p, slot, position⟩ s.capture)
        let v ← quietly (Eval.run s m (Eval.withPiped m piped values) (piped.getD .null))
        quietly (Eval.remember s m slot v)
        return v
  | .conditional bs none _ fallThrough => do
    match ← branches s bs with
    | some v => return v
    | none => if fallThrough then return .null else throw .noBranchMatched
  | .conditional bs (some last) _ _ => do
    match ← branches s bs with
    | some v => return v
    | none => term s none last
  | .operation op left right _ => do
    match op with
    | .sequence =>
      let _ ← term s none left
      term s none right
    | .chain =>
      let input ← term s none left
      term s (some input) right
    | .or =>
      if ← quietly (Eval.truth (← term s none left)) then return .bool true
      else return .bool (← quietly (Eval.truth (← term s none right)))
    | .and =>
      if ← quietly (Eval.truth (← term s none left)) then
        return .bool (← quietly (Eval.truth (← term s none right)))
      else return .bool false
    | op =>
      let l ← term s none left
      let r ← term s none right
      quietly (Eval.compareValues op l r)
termination_by structural t => t

def terms (s : Situation) : List (Term ω η) → Traced ω η (List Value)
  | [] => return []
  | t :: ts => do
    let v ← term s none t
    return v :: (← terms s ts)
termination_by structural ts => ts

def branches (s : Situation) : List (Term ω η × Term ω η) → Traced ω η (Option Value)
  | [] => return none
  | (guard, body) :: rest => do
    if ← quietly (Eval.truth (← term s none guard)) then return some (← term s none body)
    else branches s rest
termination_by structural bs => bs

end

/-- Value of an expression, with a record of its calls. -/
def evaluate (x : Expression ω η) (s : Situation) : Traced ω η Value := do
  quietly (Eval.conform x.expected (← term s none x.term))

/-! A traced evaluation is the plain one, and only adds to the record. -/

/-- The first evaluation does what the second does, and adds to the record besides. -/
def Shadows (m : Traced ω η α) (e : Eval ω η α) : Prop :=
  ∀ memory log, ∃ new, m (memory, log) = ((e memory).1, (e memory).2, log ++ new)

variable {m : Traced ω η α} {e : Eval ω η α}

theorem Shadows.pure (a : α) : Shadows (pure a : Traced ω η α) (pure a) :=
  fun _ log => ⟨[], by rw [List.append_nil]; rfl⟩

theorem Shadows.throw (err : EvalError) : Shadows (throw err : Traced ω η α) (throw err) :=
  fun _ log => ⟨[], by rw [List.append_nil]; rfl⟩

theorem shadows_quietly (e : Eval ω η α) : Shadows (quietly e) e :=
  fun _ log => ⟨[], by rw [List.append_nil]; rfl⟩

theorem Shadows.bind {f : α → Traced ω η β} {f' : α → Eval ω η β} (hm : Shadows m e)
    (hf : ∀ a, Shadows (f a) (f' a)) : Shadows (m >>= f) (e >>= f') := by
  intro memory log
  obtain ⟨new, hnew⟩ := hm memory log
  rcases he : e memory with ⟨err | a, memory₁⟩ <;> rw [he] at hnew
  · rw [bind_of_error hnew, bind_of_error he]
    exact ⟨new, rfl⟩
  · rw [bind_of_ok hnew, bind_of_ok he]
    obtain ⟨more, hmore⟩ := hf a memory₁ (log ++ new)
    exact ⟨new ++ more, by rw [hmore, List.append_assoc]⟩

/-- Recording something is no step of the plain evaluation. -/
theorem Shadows.note {x : Moment ω η} {k : Unit → Traced ω η α} (hk : Shadows (k ()) e) :
    Shadows (Traced.note x >>= k) e := by
  intro memory log
  obtain ⟨new, hnew⟩ := hk memory (log ++ [x])
  have hnote : Traced.note x (memory, log) = (.ok (), memory, log ++ [x]) := rfl
  exact ⟨x :: new, by rw [bind_of_ok hnote, hnew, List.append_assoc]; rfl⟩

theorem Shadows.noteEnd {site : CallSite ω η} {capture : Capture} {m : Traced ω η Value}
    {e : Eval ω η Value} (hm : Shadows m e) : Shadows (noteEnd site capture m) e := by
  intro memory log
  obtain ⟨new, hnew⟩ := hm memory log
  exact ⟨new ++ [.ended site capture (e memory).1], by
    rw [Traced.noteEnd, hnew, List.append_assoc]⟩

mutual

theorem shadows_term (s : Situation) :
    ∀ (t : Term ω η) (piped : Option Value), Shadows (term s piped t) (Eval.term s piped t)
  | .literal v, _ => .pure v
  | .call m args p slot position, piped => by
    rw [term, Eval.term]
    refine (shadows_quietly _).bind fun o => ?_
    cases o with
    | some v => exact .note (.pure v)
    | none =>
      refine .note (.noteEnd ?_)
      exact (shadows_terms s args).bind fun values => .note <|
        (shadows_quietly _).bind fun v => (shadows_quietly _).bind fun _ => .pure v
  | .conditional bs none _ fallThrough, _ => by
    rw [term, Eval.term]
    refine (shadows_branches s bs).bind fun o => ?_
    cases o with
    | some v => exact .pure v
    | none =>
      cases fallThrough with
      | true => exact .pure _
      | false => exact .throw _
  | .conditional bs (some last) _ _, _ => by
    rw [term, Eval.term]
    refine (shadows_branches s bs).bind fun o => ?_
    cases o with
    | some v => exact .pure v
    | none => exact shadows_term s last none
  | .operation op left right _, _ => by
    rw [term.eq_def, Eval.term.eq_def]
    have hl := shadows_term s left none
    have hr (input : Option Value) := shadows_term s right input
    have hlast : Shadows (do return Value.bool (← quietly (Eval.truth (← term s none right))))
        (do return Value.bool (← Eval.truth (← Eval.term s none right))) :=
      (hr none).bind fun _ => (shadows_quietly _).bind fun _ => .pure _
    cases op with
    | sequence => exact hl.bind fun _ => hr none
    | chain => exact hl.bind fun input => hr (some input)
    | or =>
      refine hl.bind fun v => (shadows_quietly _).bind fun b => ?_
      cases b with
      | true => exact .pure _
      | false => exact hlast
    | and =>
      refine hl.bind fun v => (shadows_quietly _).bind fun b => ?_
      cases b with
      | true => exact hlast
      | false => exact .pure _
    | _ => exact hl.bind fun _ => (hr none).bind fun _ => shadows_quietly _
termination_by structural t => t

theorem shadows_terms (s : Situation) :
    ∀ (ts : List (Term ω η)), Shadows (terms s ts) (Eval.terms s ts)
  | [] => .pure []
  | t :: ts => by
    rw [terms, Eval.terms]
    exact (shadows_term s t none).bind fun _ => (shadows_terms s ts).bind fun _ => .pure _
termination_by structural ts => ts

theorem shadows_branches (s : Situation) :
    ∀ (bs : List (Term ω η × Term ω η)), Shadows (branches s bs) (Eval.branches s bs)
  | [] => .pure none
  | (guard, body) :: bs => by
    rw [branches, Eval.branches]
    refine (shadows_term s guard none).bind fun v => (shadows_quietly _).bind fun b => ?_
    cases b with
    | true => exact (shadows_term s body none).bind fun _ => .pure _
    | false => exact shadows_branches s bs
termination_by structural bs => bs

end

theorem shadows_evaluate (x : Expression ω η) (s : Situation) :
    Shadows (evaluate x s) (x.evaluate s) :=
  (shadows_term s x.term none).bind fun _ => shadows_quietly _

end Traced
end ChatFlow.Expr
