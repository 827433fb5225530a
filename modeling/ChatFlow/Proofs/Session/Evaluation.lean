import ChatFlow.Proofs.Session.Runs

/-! What evaluations do to the handlers of a session: they make those that are missing, and never drop
or replace one. -/
namespace ChatFlow
open Flow Expr
variable {ω η α : Type} {sc : Scenario ω η} {P Q : NodeId → Prop} {l l₁ l₂ l' : Live ω η}
  {tree : NodeId} {i : Nat}

/-- Whether handlers can be made for a tree. -/
def Scenario.Hosts (sc : Scenario ω η) (tree : NodeId) : Prop :=
  ∃ owner factory, (sc.graph.node tree).handler = some owner ∧
    sc.members.factory? owner = some factory

theorem Scenario.Hosts.isTree (h : sc.Hosts tree) : (sc.graph.node tree).isTree = true := by
  obtain ⟨owner, _, ho, _⟩ := h
  cases hs : (sc.graph.node tree).spec with
  | tree spec => simp [Node.isTree, hs]
  | branch spec => simp [Node.handler, Node.tree?, hs] at ho

namespace Session
variable {s : Session η}

/-- Serial number of the handler of a tree. -/
def instance? (s : Session η) (tree : NodeId) : Option Nat :=
  (s.handlers.get? tree).map Handler.serial

theorem hasHandler_iff : s.hasHandler tree = true ↔ ∃ i, s.instance? tree = some i := by
  rw [hasHandler, Table.contains, ← Option.isSome_iff_exists, instance?, Option.isSome_map]

/-- Everything that looking for the handler of a tree can do: nothing, or having the factory of its owner
make a new one. -/
theorem ensureHandler_cases (sc : Scenario ω η) (s : Session η) (tree : NodeId) (world : ω) :
    (s.ensureHandler sc tree world = (s, world) ∧ (sc.Hosts tree → ∃ i, s.instance? tree = some i)) ∨
      s.instance? tree = none ∧ ∃ owner factory,
        (sc.graph.node tree).handler = some owner ∧ sc.members.factory? owner = some factory ∧
        s.ensureHandler sc tree world =
          ({ s with
              handlers := s.handlers.insert tree ⟨s.nextSerial, (factory.make world).1⟩
              nextSerial := s.nextSerial + 1 }, (factory.make world).2) := by
  unfold ensureHandler
  split
  · rename_i ho
    refine Or.inl ⟨rfl, ?_⟩
    rintro ⟨owner, _, ho', _⟩
    rw [ho] at ho'
    cases ho'
  · rename_i owner ho
    split
    · rename_i hhas
      exact Or.inl ⟨rfl, fun _ => hasHandler_iff.1 hhas⟩
    · rename_i hhas
      have hnone : s.instance? tree = none := by
        cases hi : s.instance? tree with
        | none => rfl
        | some i => exact absurd (hasHandler_iff.2 ⟨i, hi⟩) hhas
      split
      · rename_i hfactory
        refine Or.inl ⟨rfl, ?_⟩
        rintro ⟨owner', factory, ho', hfactory'⟩
        rw [ho] at ho'
        cases ho'
        rw [hfactory] at hfactory'
        cases hfactory'
      · rename_i factory hfactory
        exact Or.inr ⟨hnone, owner, factory, ho, hfactory, rfl⟩

end Session

theorem Live.ensureHandler_cases (sc : Scenario ω η) (l : Live ω η) (tree : NodeId) :
    (l.ensureHandler sc tree = l ∧ (sc.Hosts tree → ∃ i, l.session.instance? tree = some i)) ∨
      l.session.instance? tree = none ∧ ∃ owner factory,
        (sc.graph.node tree).handler = some owner ∧ sc.members.factory? owner = some factory ∧
        l.ensureHandler sc tree =
          { l with
            session := { l.session with
              handlers := l.session.handlers.insert tree
                ⟨l.session.nextSerial, (factory.make l.world).1⟩
              nextSerial := l.session.nextSerial + 1 }
            world := (factory.make l.world).2 } := by
  unfold ensureHandler
  rcases l.session.ensureHandler_cases sc tree l.world with
    ⟨he, halive⟩ | ⟨hnone, owner, factory, ho, hfactory, he⟩
  · rw [he]
    exact Or.inl ⟨rfl, halive⟩
  · rw [he]
    exact Or.inr ⟨hnone, owner, factory, ho, hfactory, rfl⟩

/-- What evaluating in trees that satisfy `P` may change: handlers may be made for such trees, while
the position and all other handlers stay. -/
structure Frame (sc : Scenario ω η) (P : NodeId → Prop) (l l' : Live ω η) : Prop where
  navigation_eq : l'.session.navigation = l.session.navigation
  role_eq : l'.session.role = l.session.role
  parked_eq : l'.parked = l.parked
  serial_le : l.session.nextSerial ≤ l'.session.nextSerial
  kept : ∀ {tree i}, l.session.instance? tree = some i → l'.session.instance? tree = some i
  made : ∀ {tree i}, l.session.instance? tree = none → l'.session.instance? tree = some i →
    P tree ∧ sc.Hosts tree ∧ l.session.nextSerial ≤ i ∧ i < l'.session.nextSerial

namespace Frame

theorem refl (sc : Scenario ω η) (P : NodeId → Prop) (l : Live ω η) : Frame sc P l l := by
  refine ⟨rfl, rfl, rfl, Nat.le_refl _, fun h => h, ?_⟩
  intro tree i h₁ h₂
  rw [h₁] at h₂
  cases h₂

theorem trans (h₁ : Frame sc P l l₁) (h₂ : Frame sc P l₁ l₂) : Frame sc P l l₂ where
  navigation_eq := h₂.navigation_eq.trans h₁.navigation_eq
  role_eq := h₂.role_eq.trans h₁.role_eq
  parked_eq := h₂.parked_eq.trans h₁.parked_eq
  serial_le := Nat.le_trans h₁.serial_le h₂.serial_le
  kept h := h₂.kept (h₁.kept h)
  made {tree i} hnone hsome := by
    have hle₁ := h₁.serial_le
    have hle₂ := h₂.serial_le
    cases hmid : l₁.session.instance? tree with
    | none =>
      obtain ⟨hp, hhost, hle, hlt⟩ := h₂.made hmid hsome
      exact ⟨hp, hhost, by omega, hlt⟩
    | some j =>
      rw [h₂.kept hmid] at hsome
      cases hsome
      obtain ⟨hp, hhost, hle, hlt⟩ := h₁.made hnone hmid
      exact ⟨hp, hhost, hle, by omega⟩

theorem imp (hPQ : ∀ tree, P tree → Q tree) (h : Frame sc P l l') : Frame sc Q l l' :=
  { h with made := fun h₁ h₂ => (h.made h₁ h₂).imp_left (hPQ _) }

/-- A handler that is alive afterwards was alive before, or has been made. -/
theorem alive (h : Frame sc P l l') (hi : l'.session.instance? tree = some i) :
    l.session.instance? tree = some i ∨
      l.session.instance? tree = none ∧ P tree ∧ sc.Hosts tree ∧ l.session.nextSerial ≤ i := by
  cases hold : l.session.instance? tree with
  | none =>
    obtain ⟨hp, hhost, hle, _⟩ := h.made hold hi
    exact Or.inr ⟨rfl, hp, hhost, hle⟩
  | some j =>
    rw [h.kept hold] at hi
    exact Or.inl hi

/-- Changes that do not concern handlers. -/
theorem of_handlers (hn : l'.session.navigation = l.session.navigation)
    (hr : l'.session.role = l.session.role) (hp : l'.parked = l.parked)
    (hs : l'.session.nextSerial = l.session.nextSerial)
    (hi : ∀ tree, l'.session.instance? tree = l.session.instance? tree) : Frame sc P l l' := by
  refine ⟨hn, hr, hp, Nat.le_of_eq hs.symm, fun h => (hi _).trans h, ?_⟩
  intro tree i h₁ h₂
  rw [hi, h₁] at h₂
  cases h₂

end Frame

namespace Run
variable {fault : EvalError → FlowError} {e : Eval ω η α} {event : Event}

/-- The session in which an evaluation in a tree starts. -/
def prepare (sc : Scenario ω η) (tree : Option NodeId) (l : Live ω η) : Live ω η :=
  tree.elim l (l.ensureHandler sc)

/-- The memory that an evaluation in a tree gets. -/
def memoryIn (sc : Scenario ω η) (tree : Option NodeId) (l : Live ω η) : Memory ω η :=
  memory l (tree.bind (l.session.activeHandler? sc))

/-- What an evaluation in a tree leaves behind. -/
def conclude (sc : Scenario ω η) (tree : Option NodeId) (l : Live ω η) (m : Memory ω η) : Live ω η :=
  absorb l (if (tree.bind (l.session.activeHandler? sc)).isSome then tree else none) m

theorem evaluate_eq (sc : Scenario ω η) (tree : Option NodeId) (l : Live ω η) :
    evaluate sc tree fault e l =
      let prepared := prepare sc tree l
      let after := e (memoryIn sc tree prepared)
      (after.1.mapError fault, conclude sc tree prepared after.2) := by
  have hprepare : evaluate sc tree fault e l = evaluateIn sc tree fault e (prepare sc tree l) := by
    cases tree <;> rfl
  rw [hprepare]
  generalize prepare sc tree l = l
  rcases hr : e (memoryIn sc tree l) with ⟨r, m⟩
  have hrun : ExceptT.run e (memory l (tree.bind (l.session.activeHandler? sc))) = (r, m) := hr
  unfold evaluateIn
  refine (bind_of_ok (rfl : (get : Run ω η (Live ω η)) l = (.ok l, l))).trans ?_
  dsimp only
  rw [hrun, hr]
  cases r <;> rfl

/-- Whether it succeeds or not, an evaluation only prepares its tree and changes what it sees. -/
theorem evaluate_ends {tree : Option NodeId} {r : Except FlowError α}
    (h : evaluate sc tree fault e l = (r, l')) :
    ∃ m, l' = conclude sc tree (prepare sc tree l) m := by
  rw [evaluate_eq] at h
  cases h
  exact ⟨_, rfl⟩

theorem instance?_absorb (l : Live ω η) (absorbed : Option NodeId) (m : Memory ω η) (tree : NodeId) :
    (absorb l absorbed m).session.instance? tree = l.session.instance? tree := by
  cases absorbed with
  | none => rfl
  | some at' =>
    simp only [absorb, Session.instance?, Table.get?_modify]
    split
    · cases l.session.handlers.get? tree <;> rfl
    · rfl

theorem frame_conclude (tree : Option NodeId) (l : Live ω η) (m : Memory ω η) :
    Frame sc P l (conclude sc tree l m) :=
  Frame.of_handlers rfl rfl rfl rfl (instance?_absorb l _ m)

theorem frame_prepare (sc : Scenario ω η) (tree : Option NodeId) (l : Live ω η) :
    Frame sc (fun t => tree = some t) l (prepare sc tree l) := by
  cases tree with
  | none => exact Frame.refl ..
  | some tree =>
    rcases l.ensureHandler_cases sc tree with ⟨he, _⟩ | ⟨hnone, owner, factory, ho, hfactory, he⟩
    · simp only [prepare, Option.elim_some, he]
      exact Frame.refl ..
    · simp only [prepare, Option.elim_some, he]
      have hinst (t : NodeId) : (prepare sc (some tree) l).session.instance? t =
          if t = tree then some l.session.nextSerial else l.session.instance? t := by
        simp only [prepare, Option.elim_some, he, Session.instance?, Table.get?_insert]
        split <;> rfl
      simp only [prepare, Option.elim_some, he] at hinst
      constructor
      case parked_eq => rfl
      case navigation_eq => rfl
      case role_eq => rfl
      case serial_le => exact Nat.le_succ _
      case kept =>
        intro t i hi
        rw [hinst]
        split
        · rename_i ht
          subst ht
          rw [hnone] at hi
          cases hi
        · exact hi
      case made =>
        intro t i h₁ h₂
        rw [hinst] at h₂
        split at h₂
        · rename_i ht
          subst ht
          cases h₂
          exact ⟨rfl, ⟨owner, factory, ho, hfactory⟩, Nat.le_refl _, Nat.lt_succ_self _⟩
        · rw [h₁] at h₂
          cases h₂

theorem evaluate_frame {tree : Option NodeId} :
    Within (Frame sc fun t => tree = some t) (evaluate sc tree fault e) := by
  intro l r l' h
  obtain ⟨m, rfl⟩ := evaluate_ends h
  exact (frame_prepare sc tree l).trans (frame_conclude ..)

/-- The handler of a tree is alive once something has been evaluated there, even on a failure. -/
theorem evaluate_alive {r : Except FlowError α}
    (h : evaluate sc (some tree) fault e l = (r, l')) (hhost : sc.Hosts tree) :
    ∃ i, l'.session.instance? tree = some i := by
  obtain ⟨m, rfl⟩ := evaluate_ends h
  have hsame := instance?_absorb (prepare sc (some tree) l)
    (if ((some tree).bind ((prepare sc (some tree) l).session.activeHandler? sc)).isSome then some tree
      else none) m tree
  change ∃ i, (absorb _ _ m).session.instance? tree = some i
  rw [hsame]
  rcases l.ensureHandler_cases sc tree with ⟨he, halive⟩ | ⟨_, _, _, _, _, he⟩
  · simp only [prepare, Option.elim_some, he]
    exact halive hhost
  · refine ⟨l.session.nextSerial, ?_⟩
    simp only [prepare, Option.elim_some, he, Session.instance?, Table.get?_insert, if_true,
      Option.map_some]

theorem frame_imp {m : Run ω η α} (hPQ : ∀ tree, P tree → Q tree) (hm : Within (Frame sc P) m) :
    Within (Frame sc Q) m := by
  intro l r l' h
  exact (hm l r l' h).imp hPQ

theorem test_frame {tree : Option NodeId} {path : List NodeId} {node : NodeId}
    {e : Expression ω η} : Within (Frame sc fun t => tree = some t) (test sc event tree path node e) :=
  evaluate_frame

theorem frame_bind {β : Type} {m : Run ω η α} {f : α → Run ω η β} (hm : Within (Frame sc P) m)
    (hf : ∀ a, Within (Frame sc P) (f a)) : Within (Frame sc P) (m >>= f) :=
  within_bind Frame.trans hm hf

theorem frame_pure (a : α) : Within (Frame sc P) (pure a : Run ω η α) :=
  within_pure (Frame.refl sc P) a

theorem perform_frame {a : Action ω η} {name : String} {procedure : Procedure ω η} :
    Within (Frame sc fun t => some a.tree = some t) (perform sc event a name procedure) := by
  unfold perform
  refine frame_bind evaluate_frame ?_
  intro result
  cases result with
  | ok u => exact frame_pure u
  | error message => exact within_throw (Frame.refl sc _) _

end Run

/-- Whether running an action evaluates anything in its tree. -/
def Flow.Action.Evaluates (a : Action ω η) : Prop := a.guard.isSome = true ∨ a.deed ≠ .clearCache

namespace Run
variable {event : Event} {a : Action ω η} {actions : List (Action ω η)}

/-- What an action does when its guard allows it. -/
def doDeed (sc : Scenario ω η) (event : Event) (a : Action ω η) : Run ω η Unit :=
  match a.deed with
  | .invoke e => do
    let _ ← evaluate sc (some a.tree) (.evaluation (sc.graph.path a.node))
      (e.evaluate ⟨some event, sc.graph.pathTo a.node⟩)
  | .call name procedure => perform sc event a name procedure
  | .clearCache => modifySession fun s => { s with memos := s.memos.clear }

theorem act_eq (sc : Scenario ω η) (event : Event) (a : Action ω η) :
    act sc event a = match a.guard with
      | some guard => do
        let go ← test sc event (some a.tree) (sc.graph.pathTo a.node) a.node guard
        if !go then return () else doDeed sc event a
      | none => doDeed sc event a := by
  unfold act doDeed
  cases a.guard <;> cases a.deed <;> rfl

theorem doDeed_frame : Within (Frame sc fun t => a.Evaluates ∧ a.tree = t) (doDeed sc event a) := by
  have himp {m : Run ω η Unit} (hd : a.deed ≠ .clearCache)
      (hm : Within (Frame sc fun t => some a.tree = some t) m) :
      Within (Frame sc fun t => a.Evaluates ∧ a.tree = t) m :=
    frame_imp (fun _ ht => ⟨Or.inr hd, Option.some.inj ht⟩) hm
  unfold doDeed
  split
  · rename_i hd
    exact himp (by simp [hd]) (frame_bind evaluate_frame fun _ => frame_pure ())
  · rename_i hd
    exact himp (by simp [hd]) perform_frame
  · exact within_modifySession fun l => Frame.of_handlers rfl rfl rfl rfl fun _ => rfl

theorem act_frame : Within (Frame sc fun t => a.Evaluates ∧ a.tree = t) (act sc event a) := by
  rw [act_eq]
  cases hguard : a.guard with
  | none => exact doDeed_frame
  | some guard =>
    refine frame_bind (frame_imp ?_ test_frame) ?_
    · intro t ht
      exact ⟨Or.inl (by rw [hguard]; rfl), Option.some.inj ht⟩
    · intro go
      split
      · exact frame_pure ()
      · exact doDeed_frame

/-- Once an action has run, even in vain, the handler of its tree is alive. -/
theorem act_alive {r : Except FlowError Unit} (h : act sc event a l = (r, l')) (ha : a.Evaluates)
    (hhost : sc.Hosts a.tree) : ∃ i, l'.session.instance? a.tree = some i := by
  rw [act_eq] at h
  cases hguard : a.guard with
  | some guard =>
    rw [hguard] at h
    rcases bind_eq h with ⟨go, l₁, htest, h⟩ | ⟨e, htest, _⟩
    · obtain ⟨i, hi⟩ := evaluate_alive htest hhost
      split at h
      · cases h
        exact ⟨i, hi⟩
      · exact ⟨i, (doDeed_frame l₁ r l' h).kept hi⟩
    · exact evaluate_alive htest hhost
  | none =>
    rw [hguard] at h
    have hdeed : a.deed ≠ .clearCache := by
      rcases ha with hg | hd
      · rw [hguard] at hg
        cases hg
      · exact hd
    change doDeed sc event a l = (r, l') at h
    unfold doDeed at h
    cases hd : a.deed with
    | invoke e =>
      rw [hd] at h
      rcases bind_eq h with ⟨v, l₁, heval, h⟩ | ⟨e, heval, _⟩
      · cases h
        exact evaluate_alive heval hhost
      · exact evaluate_alive heval hhost
    | call name procedure =>
      rw [hd] at h
      rcases bind_eq h with ⟨result, l₁, heval, h⟩ | ⟨e, heval, _⟩
      · obtain ⟨i, hi⟩ := evaluate_alive heval hhost
        cases result <;> cases h <;> exact ⟨i, hi⟩
      · exact evaluate_alive heval hhost
    | clearCache => exact absurd hd hdeed

/-- Runs an action, passing over its failure if told so. -/
def attempt (sc : Scenario ω η) (event : Event) (ignoreError : Bool) (a : Action ω η) :
    Run ω η Unit :=
  if ignoreError then tryCatch (act sc event a) fun _ => pure () else act sc event a

theorem attempt_frame {ignoreError : Bool} :
    Within (Frame sc fun t => a.Evaluates ∧ a.tree = t) (attempt sc event ignoreError a) := by
  unfold attempt
  split
  · exact within_tryCatch Frame.trans act_frame fun _ => frame_pure ()
  · exact act_frame

theorem attempt_alive {ignoreError : Bool} {r : Except FlowError Unit}
    (h : attempt sc event ignoreError a l = (r, l')) (ha : a.Evaluates) (hhost : sc.Hosts a.tree) :
    ∃ i, l'.session.instance? a.tree = some i := by
  unfold attempt at h
  split at h
  · rcases tryCatch_eq h with ⟨u, h₁, _⟩ | ⟨e, l₁, h₁, h₂⟩
    · exact act_alive h₁ ha hhost
    · cases h₂
      exact act_alive h₁ ha hhost
  · exact act_alive h ha hhost

theorem actAll_cons (sc : Scenario ω η) (event : Event) (ignoreError : Bool) (a : Action ω η)
    (actions : List (Action ω η)) :
    actAll sc event ignoreError (a :: actions) =
      attempt sc event ignoreError a >>= fun _ => actAll sc event ignoreError actions := rfl

theorem actAll_frame {ignoreError : Bool} :
    Within (Frame sc fun t => ∃ a ∈ actions, a.Evaluates ∧ a.tree = t)
      (actAll sc event ignoreError actions) := by
  induction actions with
  | nil => exact frame_pure ()
  | cons a rest ih =>
    rw [actAll_cons]
    refine frame_bind (frame_imp ?_ attempt_frame) fun _ =>
      frame_imp ?_ ih
    · intro t ht
      exact ⟨a, List.mem_cons_self, ht⟩
    · intro t ht
      obtain ⟨a', ha', ht⟩ := ht
      exact ⟨a', List.mem_cons_of_mem _ ha', ht⟩

/-- Once actions have all run, the handlers of their trees are alive. -/
theorem actAll_alive {ignoreError : Bool} (h : actAll sc event ignoreError actions l = (.ok (), l'))
    (hmem : a ∈ actions) (ha : a.Evaluates) (hhost : sc.Hosts a.tree) :
    ∃ i, l'.session.instance? a.tree = some i := by
  induction actions generalizing l with
  | nil => cases hmem
  | cons first rest ih =>
    rw [actAll_cons] at h
    obtain ⟨_, l₁, h₁, h₂⟩ := bind_eq_ok h
    rcases List.mem_cons.1 hmem with rfl | hmem
    · obtain ⟨i, hi⟩ := attempt_alive h₁ ha hhost
      exact ⟨i, (actAll_frame l₁ _ l' h₂).kept hi⟩
    · exact ih h₂ hmem

end Run
end ChatFlow
