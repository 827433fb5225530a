import ChatFlow.Proofs.Session.Guards
import ChatFlow.Proofs.Session.Hops
import ChatFlow.Proofs.Session.Proposals

/-! Everything that handling an event can come to. -/
namespace ChatFlow
open Flow Expr
variable {ω η : Type} {sc : Scenario ω η} {l l' : Live ω η} {event : Event} {tree : NodeId} {i : Nat}
  {route : List (Hop ω η)}

namespace Run

/-- The session when its hops have run. -/
def arrive (n : Navigation) (l : Live ω η) : Live ω η :=
  { l with session := { l.session with navigation := n } }

/-- The session when its hops have failed. -/
def restore (before : Session η) (l : Live ω η) : Live ω η :=
  let kept := l.session.handlers.restrict before.handlers.contains
  { l with session := { l.session with handlers := kept.insertAll l.parked } }

theorem commit_eq {r : Except FlowError (Option Landing)} (hl : l.parked = [])
    (hc : commit sc event route l = (r, l')) :
    (∃ n landing l₁, r = .ok landing ∧
      hops sc event l.session.navigation none route l = (.ok (n, landing), l₁) ∧
      l' = if landing.isSome then arrive n l₁ else l₁) ∨
    ∃ e l₁, r = .error e ∧
      hops sc event l.session.navigation none route l = (.error e, l₁) ∧
      l' = restore l.session l₁ := by
  have hstart : { l with parked := [] } = l := by rw [← hl]
  unfold commit at hc
  rcases bind_eq hc with ⟨_, l₁, h₁, hc⟩ | ⟨e, h₁, _⟩
  · cases h₁
    rcases bind_eq hc with ⟨_, l₂, h₂, hc⟩ | ⟨e, h₂, _⟩
    · cases h₂
      dsimp only at hc
      rw [hstart] at hc
      rcases tryCatch_eq hc with ⟨landing, hrun, rfl⟩ | ⟨e, l₃, hrun, hk⟩
      · obtain ⟨⟨n, landing'⟩, l₄, hh, hend⟩ := bind_eq_ok hrun
        refine Or.inl ⟨n, landing', l₄, ?_⟩
        cases landing' <;> cases hend <;> exact ⟨rfl, hh, rfl⟩
      · rcases bind_eq hrun with ⟨⟨n, landing'⟩, l₄, hh, hend⟩ | ⟨e', hh, he⟩
        · cases landing' <;> cases hend
        · cases he
          refine Or.inr ⟨e, l₃, ?_, hh, ?_⟩ <;> cases hk <;> rfl
    · cases h₂
  · cases h₁

/-- After a failure a tree has the last handler that was parked for it; without one, it keeps a handler
that it had before the hops. -/
theorem instance?_restore (before : Session η) (l : Live ω η) (tree : NodeId) :
    (restore before l).session.instance? tree =
      (((l.parked.filter fun e => e.1 = tree).map fun e => e.2.serial).getLast? <|>
        if before.hasHandler tree then l.session.instance? tree else none) := by
  simp only [restore, Session.instance?, Table.get?_insertAll, Table.get?_restrict,
    Session.hasHandler, List.getLast?_map]
  cases (l.parked.filter fun e => decide (e.1 = tree)).getLast? with
  | none => by_cases hb : before.handlers.contains tree = true <;> simp [hb]
  | some e => rfl

theorem mem_left_iff : tree ∈ l.left ↔
    ((l.parked.filter fun e => e.1 = tree).map fun e => e.2.serial) ≠ [] := by
  simp [Live.left, List.filter_eq_nil_iff]

/-- A tree has a handler after a failure if one was parked for it, or if it had one before the hops and
has had one since. -/
theorem restore_alive {before : Session η} (h : tree ∈ l.left ∨
    before.hasHandler tree = true ∧ l.instances tree ≠ []) :
    ∃ i, (restore before l).session.instance? tree = some i := by
  rw [instance?_restore]
  rw [mem_left_iff, Live.instances] at h
  generalize ((l.parked.filter fun e => e.1 = tree).map fun e => e.2.serial) = parked at h ⊢
  cases parked with
  | cons i rest => exact ⟨_, by rw [List.getLast?_cons]; rfl⟩
  | nil =>
    rcases h with h | ⟨hb, hl⟩
    · exact absurd rfl h
    · cases hc : l.session.instance? tree with
      | none => simp [hc] at hl
      | some i => exact ⟨i, by simp [hb]⟩

theorem alive_of_restore {before : Session η} {i : Nat}
    (h : (restore before l).session.instance? tree = some i) :
    tree ∈ l.left ∨ before.hasHandler tree = true := by
  by_contra hne
  obtain ⟨hleft, hb⟩ := not_or.1 hne
  have hparked := not_ne_iff.1 (mt mem_left_iff.2 hleft)
  rw [instance?_restore, hparked, if_neg hb] at h
  cases h

/-- The hops that begin while an event is handled, in order. There are none when it asks for no route, and
when a guard cannot be evaluated or cancels the route. -/
def taken (sc : Scenario ω η) (event : Event) (l : Live ω η) : List (Hop ω η) :=
  match plan sc event l with
  | (.ok (.go route _), l₁) =>
    match executable sc event route l₁ with
    | (.ok runnable, l₂) =>
      if runnable.length < route.length ∧ runnable.all fun h => h.via.isNone then []
      else begun sc event l₂ runnable
    | (.error _, _) => []
  | _ => []

/-- How handling an event may end, with the hops that have begun. -/
inductive Ends (sc : Scenario ω η) (event : Event) (l : Live ω η) :
    List (Hop ω η) → Except FlowError Outcome → Live ω η → Prop where
  /-- There is no route. -/
  | stay {p : Except FlowError (Plan ω η)} {r : Except FlowError Outcome} {l' : Live ω η}
    (hp : plan sc event l = (p, l')) (hno : ∀ route made, p ≠ .ok (.go route made))
    (hr : ∀ outcome, r = .ok outcome → p = .ok (.stay outcome)) : Ends sc event l [] r l'
  /-- A guard cancels the route, or cannot be evaluated. -/
  | halt {route : List (Hop ω η)} {made : Option Landing → Outcome} {l₁ : Live ω η}
    {r : Except FlowError Outcome} (hp : plan sc event l = (.ok (.go route made), l₁))
    (hr : ∀ outcome, r = .ok outcome → outcome = made none) :
    Ends sc event l [] r (executable sc event route l₁).2
  /-- A hop fails. -/
  | fail {route runnable : List (Hop ω η)} {made : Option Landing → Outcome} {l₁ l₂ l₃ : Live ω η}
    {e : FlowError} (hp : plan sc event l = (.ok (.go route made), l₁))
    (hx : executable sc event route l₁ = (.ok runnable, l₂))
    (hh : hops sc event l₂.session.navigation none runnable l₂ = (.error e, l₃)) :
    Ends sc event l (begun sc event l₂ runnable) (.error e) (restore l₂.session l₃)
  /-- The hops have run. -/
  | move {route runnable : List (Hop ω η)} {made : Option Landing → Outcome} {l₁ l₂ l₃ : Live ω η}
    {n : Navigation} {landing : Landing} (hp : plan sc event l = (.ok (.go route made), l₁))
    (hx : executable sc event route l₁ = (.ok runnable, l₂)) (hne : runnable ≠ [])
    (hh : hops sc event l₂.session.navigation none runnable l₂ = (.ok (n, some landing), l₃)) :
    Ends sc event l runnable (.ok (made (some landing))) (arrive n l₃)

/-- Up to its first hop, a route makes handlers in the current tree and where guards are evaluated. -/
theorem frame_of_route (hg : sc.graph.Sound) {made : Option Landing → Outcome} {l₁ : Live ω η}
    (hp : plan sc event l = (.ok (.go route made), l₁)) :
    Frame sc (fun t => l.session.current.map sc.graph.tree = some t ∨ Examined sc event l₁ route t) l
      (executable sc event route l₁).2 :=
  ((plan_planned hg hp).frame.imp fun _ => Or.inl).trans (executable_frame.imp fun _ => Or.inr)

theorem frame_of_executable (hg : sc.graph.Sound) {made : Option Landing → Outcome} {l₁ l₂ : Live ω η}
    {x : Except FlowError (List (Hop ω η))} (hp : plan sc event l = (.ok (.go route made), l₁))
    (hx : executable sc event route l₁ = (x, l₂)) :
    Frame sc (fun t => l.session.current.map sc.graph.tree = some t ∨ Examined sc event l₁ route t) l
      l₂ := by
  have hf := frame_of_route hg hp
  rwa [hx] at hf

/-- A route with a hop that can be run is carried out, unless this is only its first hop and a later
one cannot. -/
theorem execute_ends {made : Option Landing → Outcome} {l₁ : Live ω η}
    {r : Except FlowError (Option Landing)} (hl : l.parked = [])
    (hp : plan sc event l = (.ok (.go route made), l₁)) (he : execute sc event route l₁ = (r, l')) :
    Ends sc event l (taken sc event l) (r.map made) l' := by
  unfold execute at he
  rcases bind_eq he with ⟨runnable, l₂, hx, he⟩ | ⟨e, hx, rfl⟩
  · have htaken : taken sc event l =
        if runnable.length < route.length ∧ runnable.all fun h => h.via.isNone then []
        else begun sc event l₂ runnable := by
      rw [taken, hp]
      dsimp only
      rw [hx]
    split at he
    · rename_i hcancels
      cases he
      have hl' : (executable sc event route l₁).2 = l' := by rw [hx]
      rw [htaken, if_pos hcancels]
      refine hl' ▸ .halt hp ?_
      rintro _ ⟨⟩
      rfl
    · rename_i hgo
      rw [htaken, if_neg hgo]
      have hl₂ : l₂.parked = [] := by
        have hf : Frame sc (Examined sc event l₁ route) l₁ (executable sc event route l₁).2 := executable_frame
        rw [hx] at hf
        rw [hf.parked_eq, (plan_proposed hp).frame.parked_eq, hl]
      rcases commit_eq hl₂ he with ⟨n, landing, l₃, rfl, hh, rfl⟩ | ⟨e, l₃, rfl, hh, rfl⟩
      · have hrunnable : runnable ≠ [] := by
          rintro rfl
          have hne := (plan_proposed hp).proposes.resolves.ne_nil
          exact hgo ⟨List.length_pos_iff.2 hne, rfl⟩
        rw [begun_of_hops hh]
        cases landing with
        | none => exact absurd ((hops_follow hh).2 rfl).2 hrunnable
        | some landing => exact .move hp hx hrunnable hh
      · exact .fail hp hx hh
  · have htaken : taken sc event l = [] := by
      rw [taken, hp]
      dsimp only
      rw [hx]
    have hl' : (executable sc event route l₁).2 = l' := by rw [hx]
    rw [htaken]
    exact hl' ▸ .halt hp nofun

/-- Without a route, no hop begins. -/
theorem taken_of_plan {p : Except FlowError (Plan ω η)} {l₁ : Live ω η}
    (hp : plan sc event l = (p, l₁)) (hno : ∀ route made, p ≠ .ok (.go route made)) :
    taken sc event l = [] := by
  rw [taken, hp]
  rcases p with e | outcome | ⟨route, made⟩
  · rfl
  · rfl
  · exact absurd rfl (hno route made)

theorem handle_ends {r : Except FlowError Outcome} (hl : l.parked = [])
    (hh : handle sc event l = (r, l')) :
    ∃ ran, taken sc event l = ran ∧ Ends sc event l ran r l' := by
  refine ⟨_, rfl, ?_⟩
  unfold handle at hh
  rcases bind_eq hh with ⟨p, l₁, hp, hh⟩ | ⟨e, hp, rfl⟩
  · cases p with
    | stay outcome =>
      have hno (route : List (Hop ω η)) (made : Option Landing → Outcome) :
          Except.ok (Plan.stay outcome) ≠ (.ok (.go route made) : Except FlowError _) := nofun
      cases hh
      rw [taken_of_plan hp hno]
      refine .stay hp hno ?_
      rintro _ ⟨⟩
      rfl
    | go route made =>
      rcases bind_eq hh with ⟨landing, l₂, he, hh⟩ | ⟨e, he, rfl⟩
      · cases hh
        exact execute_ends hl hp he
      · exact execute_ends hl hp he
  · have hno (route : List (Hop ω η)) (made : Option Landing → Outcome) :
        Except.error e ≠ (.ok (.go route made) : Except FlowError (Plan ω η)) := nofun
    rw [taken_of_plan hp hno]
    exact .stay hp hno nofun

end Run
end ChatFlow
