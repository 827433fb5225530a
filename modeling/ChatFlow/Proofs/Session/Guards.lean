import ChatFlow.Proofs.Session.Evaluation

/-! Which hops of a route can be run, and which guards are evaluated to find out. -/
namespace ChatFlow.Run
open Flow Expr
variable {ω η : Type} {sc : Scenario ω η} {l l' : Live ω η} {event : Event} {tree : NodeId}
  {route runnable before after : List (Hop ω η)} {h : Hop ω η}

/-- Whether the guard of a hop lets it pass. -/
def passes (sc : Scenario ω η) (event : Event) (h : Hop ω η) : Run ω η Bool :=
  match h.guard? with
  | none => pure true
  | some guard =>
    test sc event (some (sc.graph.tree h.guardNode)) (sc.graph.pathTo h.guardNode) h.guardNode guard

theorem executable_cons (sc : Scenario ω η) (event : Event) (h : Hop ω η) (rest : List (Hop ω η)) :
    executable sc event (h :: rest) = (do
      let go ← passes sc event h
      if go then return h :: (← executable sc event rest) else return []) := by
  rw [executable, passes]
  cases h.guard? <;> rfl

theorem passes_frame :
    Within (Frame sc fun t => h.guard?.isSome = true ∧ sc.graph.tree h.guardNode = t)
      (passes sc event h) := by
  unfold passes
  cases hg : h.guard? with
  | none => exact frame_pure true
  | some guard => exact frame_imp (fun t ht => ⟨rfl, Option.some.inj ht⟩) test_frame

theorem passes_alive {r : Except FlowError Bool} (hp : passes sc event h l = (r, l'))
    (hg : h.guard?.isSome = true) (hhost : sc.Hosts (sc.graph.tree h.guardNode)) :
    ∃ i, l'.session.instance? (sc.graph.tree h.guardNode) = some i := by
  obtain ⟨guard, hguard⟩ := Option.isSome_iff_exists.1 hg
  unfold passes at hp
  rw [hguard] at hp
  exact evaluate_alive hp hhost

/-- A hop passes and the next ones are looked at, or it is the first one that does not pass. -/
theorem executable_cons_eq {rest : List (Hop ω η)} {r : Except FlowError (List (Hop ω η))}
    (he : executable sc event (h :: rest) l = (r, l')) :
    (∃ l₁ r', passes sc event h l = (.ok true, l₁) ∧ executable sc event rest l₁ = (r', l') ∧
      r = r'.map (h :: ·)) ∨ passes sc event h l = (.ok false, l') ∧ r = .ok [] ∨
      ∃ e, passes sc event h l = (.error e, l') ∧ r = .error e := by
  rw [executable_cons] at he
  rcases bind_eq he with ⟨go, l₁, hp, he⟩ | ⟨e, hp, rfl⟩
  · cases go with
    | true =>
      rcases bind_eq he with ⟨runnable, l₂, hrest, he⟩ | ⟨e, hrest, rfl⟩
      · cases he
        exact Or.inl ⟨l₁, _, hp, hrest, rfl⟩
      · exact Or.inl ⟨l₁, _, hp, hrest, rfl⟩
    | false =>
      cases he
      exact Or.inr (Or.inl ⟨hp, rfl⟩)
  · exact Or.inr (Or.inr ⟨e, hp, rfl⟩)

theorem executable_of_passes {l₁ : Live ω η} {rest : List (Hop ω η)}
    {r : Except FlowError (List (Hop ω η))} (hp : passes sc event h l = (.ok true, l₁))
    (he : executable sc event (h :: rest) l = (r, l')) :
    ∃ r', executable sc event rest l₁ = (r', l') ∧ r = r'.map (h :: ·) := by
  rcases executable_cons_eq he with ⟨l₂, r', hp', hrest, hr⟩ | ⟨hp', _⟩ | ⟨e, hp', _⟩
  · rw [hp] at hp'
    cases hp'
    exact ⟨r', hrest, hr⟩
  · rw [hp] at hp'
    cases hp'
  · rw [hp] at hp'
    cases hp'

theorem passes_of_executable (he : (executable sc event (h :: before) l).1 = .ok (h :: before)) :
    ∃ l₁, passes sc event h l = (.ok true, l₁) ∧
      (executable sc event before l₁).1 = .ok before := by
  rcases hx : executable sc event (h :: before) l with ⟨r, l'⟩
  rw [hx] at he
  subst he
  rcases executable_cons_eq hx with ⟨l₁, r', hp, hrest, hr⟩ | ⟨_, hr⟩ | ⟨e, _, hr⟩
  · refine ⟨l₁, hp, ?_⟩
    rw [hrest]
    cases r' with
    | error e => cases hr
    | ok runnable =>
      cases hr
      rfl
  · cases hr
  · cases hr

/-- Whether the guard of some hop of a route is evaluated in a tree; those before it must hold. -/
def Examined (sc : Scenario ω η) (event : Event) (l : Live ω η) (route : List (Hop ω η))
    (tree : NodeId) : Prop :=
  ∃ before h after, route = before ++ h :: after ∧ (executable sc event before l).1 = .ok before ∧
    h.guard?.isSome = true ∧ sc.graph.tree h.guardNode = tree

theorem examined_head (route : List (Hop ω η)) (hg : h.guard?.isSome = true) :
    Examined sc event l (h :: route) (sc.graph.tree h.guardNode) :=
  ⟨[], h, route, rfl, rfl, hg, rfl⟩

theorem examined_tail {l₁ : Live ω η} (hp : passes sc event h l = (.ok true, l₁))
    (hx : Examined sc event l₁ route tree) : Examined sc event l (h :: route) tree := by
  obtain ⟨before, h', after, rfl, hbefore, hg, ht⟩ := hx
  refine ⟨h :: before, h', after, rfl, ?_, hg, ht⟩
  rcases he : executable sc event (h :: before) l with ⟨r, l'⟩
  obtain ⟨r', hrest, rfl⟩ := executable_of_passes hp he
  rw [hrest] at hbefore
  have hbefore : r' = .ok before := hbefore
  subst hbefore
  rfl

/-- A guard that is evaluated belongs to the first hop, or to a later one after that has passed. -/
theorem Examined.cases (hx : Examined sc event l (h :: route) tree) :
    (h.guard?.isSome = true ∧ sc.graph.tree h.guardNode = tree) ∨
      ∃ l₁, passes sc event h l = (.ok true, l₁) ∧ Examined sc event l₁ route tree := by
  obtain ⟨before, h', after, hroute, hbefore, hg, ht⟩ := hx
  cases before with
  | nil =>
    cases hroute
    exact Or.inl ⟨hg, ht⟩
  | cons first before =>
    cases hroute
    obtain ⟨l₁, hp, hbefore⟩ := passes_of_executable hbefore
    exact Or.inr ⟨l₁, hp, before, h', after, rfl, hbefore, hg, ht⟩

/-- Looking which hops can be run makes handlers in the trees whose guards are evaluated. -/
theorem executable_frame : Frame sc (Examined sc event l route) l (executable sc event route l).2 := by
  induction route generalizing l with
  | nil => exact Frame.refl ..
  | cons h rest ih =>
    rcases he : executable sc event (h :: rest) l with ⟨r, l'⟩
    have himp (t : NodeId) (ht : h.guard?.isSome = true ∧ sc.graph.tree h.guardNode = t) :
        Examined sc event l (h :: rest) t := ht.2 ▸ examined_head rest ht.1
    rcases executable_cons_eq he with ⟨l₁, r', hp, hrest, _⟩ | ⟨hp, _⟩ | ⟨e, hp, _⟩
    · have hf := ih (l := l₁)
      rw [hrest] at hf
      exact ((passes_frame l _ l₁ hp).imp himp).trans (hf.imp fun t => examined_tail hp)
    · exact (passes_frame l _ l' hp).imp himp
    · exact (passes_frame l _ l' hp).imp himp

theorem executable_alive (hx : Examined sc event l route tree) (hhost : sc.Hosts tree) :
    ∃ i, (executable sc event route l).2.session.instance? tree = some i := by
  induction route generalizing l with
  | nil =>
    obtain ⟨before, h, after, hroute, _⟩ := hx
    cases before <;> cases hroute
  | cons h rest ih =>
    rcases he : executable sc event (h :: rest) l with ⟨r, l'⟩
    rcases hx.cases with ⟨hg, ht⟩ | ⟨l₁, hp, hx⟩
    · subst ht
      rcases executable_cons_eq he with ⟨l₁, r', hp, hrest, _⟩ | ⟨hp, _⟩ | ⟨e, hp, _⟩
      · obtain ⟨i, hi⟩ := passes_alive hp hg hhost
        have hf : Frame sc (Examined sc event l₁ rest) l₁ (executable sc event rest l₁).2 :=
          executable_frame
        rw [hrest] at hf
        exact ⟨i, hf.kept hi⟩
      · exact passes_alive hp hg hhost
      · exact passes_alive hp hg hhost
    · obtain ⟨r', hrest, _⟩ := executable_of_passes hp he
      have halive := ih hx
      rwa [hrest] at halive

/-- The hops that can be run are the first ones of a route. -/
theorem executable_isPrefix (he : executable sc event route l = (.ok runnable, l')) :
    runnable <+: route := by
  induction route generalizing l runnable with
  | nil =>
    cases he
    exact List.nil_prefix
  | cons h rest ih =>
    rcases executable_cons_eq he with ⟨l₁, r', _, hrest, hr⟩ | ⟨_, hr⟩ | ⟨e, _, hr⟩
    · cases r' with
      | error e => cases hr
      | ok rest' =>
        cases hr
        exact List.cons_prefix_cons.2 ⟨rfl, ih hrest⟩
    · cases hr
      exact List.nil_prefix
    · cases hr

/-- Every hop before an examined guard can be run. -/
theorem prefix_executable (he : executable sc event route l = (.ok runnable, l'))
    (hroute : route = before ++ after) (hb : (executable sc event before l).1 = .ok before) :
    before <+: runnable := by
  induction before generalizing l route runnable with
  | nil => exact List.nil_prefix
  | cons h before ih =>
    subst hroute
    obtain ⟨l₁, hp, hb⟩ := passes_of_executable hb
    obtain ⟨r', hrest, hr⟩ := executable_of_passes hp he
    cases r' with
    | error e => cases hr
    | ok rest' =>
      cases hr
      exact List.cons_prefix_cons.2 ⟨rfl, ih hrest rfl hb⟩

end ChatFlow.Run
