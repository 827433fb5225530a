import ChatFlow.Proofs.Flow.Routes
import ChatFlow.Proofs.Session.Evaluation

/-! What running hops does to a session: its handlers are parked where trees are left, and made where
actions are run. -/
namespace ChatFlow
open Flow Expr
variable {ω η : Type} {sc : Scenario ω η} {P : NodeId → Prop} {l l₁ l₂ l' : Live ω η}
  {event : Event} {tree : NodeId} {i : Nat} {ids : List NodeId} {h : Hop ω η}
  {route : List (Hop ω η)} {n : Navigation} {landing : Option Landing}

namespace Live

/-- The trees that have been left with a handler so far, in order. -/
def left (l : Live ω η) : List NodeId := l.parked.map Prod.fst

/-- Serial numbers of the handlers that a tree has had so far: those parked, and the one alive. -/
def instances (l : Live ω η) (tree : NodeId) : List Nat :=
  (l.parked.filter fun e => e.1 = tree).map (fun e => e.2.serial) ++
    (l.session.instance? tree).toList

/-- A session goes on without moving: handlers are only added, in trees that host them, and each new
one is fresh. -/
structure Grows (sc : Scenario ω η) (l l' : Live ω η) : Prop where
  navigation_eq : l'.session.navigation = l.session.navigation
  role_eq : l'.session.role = l.session.role
  serial_le : l.session.nextSerial ≤ l'.session.nextSerial
  instances_grow : ∀ tree, ∃ new, l'.instances tree = l.instances tree ++ new ∧
    ∀ i ∈ new, sc.Hosts tree ∧ l.session.nextSerial ≤ i ∧ i < l'.session.nextSerial

theorem Grows.of_instances (hn : l'.session.navigation = l.session.navigation)
    (hr : l'.session.role = l.session.role)
    (hs : l'.session.nextSerial = l.session.nextSerial)
    (hi : ∀ tree, l'.instances tree = l.instances tree) : Grows sc l l' :=
  ⟨hn, hr, Nat.le_of_eq hs.symm, fun tree =>
    ⟨[], by rw [hi, List.append_nil], fun _ h => nomatch h⟩⟩

theorem Grows.trans (h₁ : Grows sc l l₁) (h₂ : Grows sc l₁ l₂) : Grows sc l l₂ := by
  refine ⟨h₂.navigation_eq.trans h₁.navigation_eq, h₂.role_eq.trans h₁.role_eq,
    Nat.le_trans h₁.serial_le h₂.serial_le, ?_⟩
  intro tree
  obtain ⟨new₁, he₁, hfresh₁⟩ := h₁.instances_grow tree
  obtain ⟨new₂, he₂, hfresh₂⟩ := h₂.instances_grow tree
  refine ⟨new₁ ++ new₂, by rw [he₂, he₁, List.append_assoc], ?_⟩
  intro i hi
  have hle₁ := h₁.serial_le
  have hle₂ := h₂.serial_le
  rcases List.mem_append.1 hi with hi | hi
  · obtain ⟨hhost, hle, hlt⟩ := hfresh₁ i hi
    exact ⟨hhost, hle, by omega⟩
  · obtain ⟨hhost, hle, hlt⟩ := hfresh₂ i hi
    exact ⟨hhost, by omega, hlt⟩

end Live

theorem Frame.grows (hf : Frame sc P l l') : Live.Grows sc l l' := by
  refine ⟨hf.navigation_eq, hf.role_eq, hf.serial_le, ?_⟩
  intro tree
  cases hold : l.session.instance? tree with
  | some i => exact ⟨[], by simp [Live.instances, hf.parked_eq, hold, hf.kept hold]⟩
  | none =>
    cases hnew : l'.session.instance? tree with
    | none => exact ⟨[], by simp [Live.instances, hf.parked_eq, hold, hnew]⟩
    | some i =>
      obtain ⟨_, hmade⟩ := hf.made hold hnew
      exact ⟨[i], by simp [Live.instances, hf.parked_eq, hold, hnew], by simpa using hmade⟩

namespace Run

/-- What leaving trees does: their handlers are set aside. -/
structure Parks (ids : List NodeId) (l l' : Live ω η) : Prop where
  navigation_eq : l'.session.navigation = l.session.navigation
  role_eq : l'.session.role = l.session.role
  serial_eq : l'.session.nextSerial = l.session.nextSerial
  instance_eq : ∀ tree,
    l'.session.instance? tree = if tree ∈ ids then none else l.session.instance? tree
  instances_eq : ∀ tree, l'.instances tree = l.instances tree

theorem park_parks {id : NodeId} {r : Except FlowError Unit} (h : park id l = (r, l')) :
    r = .ok () ∧ Parks [id] l l' := by
  cases hget : l.session.handlers.get? id with
  | none =>
    have hl : park id l = (.ok (), l) := by
      rw [park, modify_eq, hget]
    rw [hl] at h
    cases h
    have hnone : l.session.instance? id = none := by simp [Session.instance?, hget]
    refine ⟨rfl, rfl, rfl, rfl, ?_, fun _ => rfl⟩
    intro tree
    by_cases ht : tree = id
    · subst ht
      simp [hnone]
    · simp [ht]
  | some handler =>
    have hl : park id l = (.ok (), { l with
        session := { l.session with handlers := l.session.handlers.erase id }
        parked := l.parked ++ [(id, handler)] }) := by
      rw [park, modify_eq, hget]
    rw [hl] at h
    cases h
    refine ⟨rfl, rfl, rfl, rfl, ?_, ?_⟩
    · intro tree
      simp only [Session.instance?, Table.get?_erase, List.mem_singleton]
      split <;> rfl
    · intro tree
      by_cases ht : tree = id
      · subst ht
        simp [Live.instances, Session.instance?, Table.get?_erase, hget]
      · simp [Live.instances, Session.instance?, Table.get?_erase, ht, Ne.symm ht]

theorem parkAll_parks {r : Except FlowError Unit} (h : ids.forM park l = (r, l')) :
    r = .ok () ∧ Parks ids l l' := by
  induction ids generalizing l with
  | nil =>
    cases h
    exact ⟨rfl, rfl, rfl, rfl, fun _ => by simp, fun _ => rfl⟩
  | cons id rest ih =>
    rcases bind_eq (m := park id) (f := fun _ => rest.forM park) h with ⟨_, l₁, h₁, h⟩ | ⟨e, h₁, _⟩
    · obtain ⟨_, hp₁⟩ := park_parks h₁
      obtain ⟨hr, hp⟩ := ih h
      refine ⟨hr, hp.navigation_eq.trans hp₁.navigation_eq, hp.role_eq.trans hp₁.role_eq,
        hp.serial_eq.trans hp₁.serial_eq, ?_, ?_⟩
      · intro tree
        rw [hp.instance_eq, hp₁.instance_eq]
        by_cases ht : tree ∈ rest <;> simp [ht]
      · intro tree
        rw [hp.instances_eq, hp₁.instances_eq]
    · cases (park_parks h₁).1

theorem Parks.grows (hp : Parks ids l l') : Live.Grows sc l l' :=
  .of_instances hp.navigation_eq hp.role_eq hp.serial_eq hp.instances_eq

/-- The trees that a hop leaves. -/
def treesLeft (sc : Scenario ω η) (h : Hop ω η) : List NodeId :=
  h.exits.filter fun id => (sc.graph.node id).isTree

theorem hop_eq {r : Except FlowError Unit} (hh : hop sc event h l = (r, l')) :
    ∃ ignoreError, (∃ e, r = .error e ∧ actAll sc event ignoreError
        (h.exitActions sc.graph ++ h.transitionActions sc.graph) l = (r, l')) ∨
      ∃ l₁ l₂, actAll sc event ignoreError (h.exitActions sc.graph ++ h.transitionActions sc.graph)
          l = (.ok (), l₁) ∧ Parks (treesLeft sc h) l₁ l₂ ∧
        actAll sc event ignoreError (h.entryActions sc.graph) l₂ = (r, l') := by
  unfold hop at hh
  refine ⟨h.via.any fun t => t.options.ignoreError, ?_⟩
  rcases bind_eq hh with ⟨_, l₁, h₁, hh⟩ | ⟨e, h₁, rfl⟩
  · rcases bind_eq hh with ⟨_, l₂, h₂, hh⟩ | ⟨e, h₂, _⟩
    · exact Or.inr ⟨l₁, l₂, h₁, (parkAll_parks h₂).2, hh⟩
    · cases (parkAll_parks h₂).1
  · exact Or.inl ⟨e, rfl, h₁⟩

theorem hop_grows : Within (Live.Grows sc) (hop sc event h) := by
  intro l r l' hh
  obtain ⟨_, ⟨e, _, h₁⟩ | ⟨l₁, l₂, h₁, hp, h₂⟩⟩ := hop_eq hh
  · exact (actAll_frame _ _ l' h₁).grows
  · exact ((actAll_frame _ _ l₁ h₁).grows.trans hp.grows).trans (actAll_frame _ _ l' h₂).grows

/-- Where a handler that is alive after a hop comes from: it was alive before in a tree that is not
left, or an action of the hop has made it. -/
theorem alive_of_hop (hh : hop sc event h l = (.ok (), l'))
    (hi : l'.session.instance? tree = some i) :
    (tree ∉ treesLeft sc h ∧ ((∃ j, l.session.instance? tree = some j) ∨
      ∃ a ∈ h.exitActions sc.graph ++ h.transitionActions sc.graph, a.Evaluates ∧ a.tree = tree)) ∨
    ∃ a ∈ h.entryActions sc.graph, a.tree = tree := by
  obtain ⟨_, ⟨e, he, _⟩ | ⟨l₁, l₂, h₁, hp, h₂⟩⟩ := hop_eq hh
  · cases he
  · rcases (actAll_frame _ _ l' h₂).alive hi with hi | ⟨_, ⟨a, ha, _, ht⟩, _⟩
    · rw [hp.instance_eq] at hi
      split at hi
      · cases hi
      · rename_i hleft
        refine Or.inl ⟨hleft, ?_⟩
        rcases (actAll_frame _ _ l₁ h₁).alive hi with hi | ⟨_, hmade, _⟩
        · exact Or.inl ⟨i, hi⟩
        · exact Or.inr hmade
    · exact Or.inr ⟨a, ha, ht⟩

/-- A handler that is alive before a hop or made by its transition stays unless its tree is left. -/
theorem hop_alive (hh : hop sc event h l = (.ok (), l')) (hleft : tree ∉ treesLeft sc h)
    (ha : (∃ i, l.session.instance? tree = some i) ∨ sc.Hosts tree ∧
      ∃ a ∈ h.transitionActions sc.graph, a.Evaluates ∧ a.tree = tree) :
    ∃ i, l'.session.instance? tree = some i := by
  obtain ⟨_, ⟨e, he, _⟩ | ⟨l₁, l₂, h₁, hp, h₂⟩⟩ := hop_eq hh
  · cases he
  · have hl₁ : ∃ i, l₁.session.instance? tree = some i := by
      rcases ha with ⟨i, hi⟩ | ⟨hhost, a, hmem, heval, rfl⟩
      · exact ⟨i, (actAll_frame _ _ l₁ h₁).kept hi⟩
      · exact actAll_alive h₁ (List.mem_append_right _ hmem) heval hhost
    obtain ⟨i, hi⟩ := hl₁
    refine ⟨i, (actAll_frame _ _ l' h₂).kept ?_⟩
    rw [hp.instance_eq, if_neg hleft]
    exact hi

/-- Hops run one after another until one fails. -/
theorem hops_cons_eq {rest : List (Hop ω η)} {r : Except FlowError (Navigation × Option Landing)}
    (hh : hops sc event n landing (h :: rest) l = (r, l')) :
    (∃ l₁, hop sc event h l = (.ok (), l₁) ∧
      hops sc event (n.advance sc.graph h) (some (land landing h)) rest l₁ = (r, l')) ∨
    ∃ e, hop sc event h l = (.error e, l') ∧ r = .error e := by
  unfold hops at hh
  rcases bind_eq hh with ⟨_, l₁, h₁, hh⟩ | h₁
  · exact Or.inl ⟨l₁, h₁, hh⟩
  · exact Or.inr h₁

theorem hops_grows : Within (Live.Grows sc) (hops sc event n landing route) := by
  intro l r l' hh
  induction route generalizing n landing l with
  | nil =>
    cases hh
    exact .of_instances rfl rfl rfl fun _ => rfl
  | cons h rest ih =>
    rcases hops_cons_eq hh with ⟨l₁, h₁, h₂⟩ | ⟨e, h₁, _⟩
    · exact (hop_grows l _ l₁ h₁).trans (ih _ h₂)
    · exact hop_grows l _ l' h₁

/-- The hops that begin when hops are run one after another: one that fails is the last. -/
def begun (sc : Scenario ω η) (event : Event) : Live ω η → List (Hop ω η) → List (Hop ω η)
  | _, [] => []
  | l, h :: rest =>
    h :: match hop sc event h l with
      | (.ok (), l') => begun sc event l' rest
      | (.error _, _) => []

theorem begun_isPrefix (l : Live ω η) (route : List (Hop ω η)) : begun sc event l route <+: route := by
  induction route generalizing l with
  | nil => exact List.nil_prefix
  | cons h rest ih =>
    refine List.cons_prefix_cons.2 ⟨rfl, ?_⟩
    split
    · exact ih _
    · exact List.nil_prefix

theorem begun_cons_ok {rest : List (Hop ω η)} (hh : hop sc event h l = (.ok (), l')) :
    begun sc event l (h :: rest) = h :: begun sc event l' rest := by
  rw [begun, hh]

theorem begun_cons_error {rest : List (Hop ω η)} {e : FlowError}
    (hh : hop sc event h l = (.error e, l')) : begun sc event l (h :: rest) = [h] := by
  rw [begun, hh]

/-- All hops begin when none fails. -/
theorem begun_of_hops {res : Navigation × Option Landing}
    (hh : hops sc event n landing route l = (.ok res, l')) : begun sc event l route = route := by
  induction route generalizing n landing l with
  | nil => rfl
  | cons h rest ih =>
    rcases hops_cons_eq hh with ⟨l₁, h₁, h₂⟩ | ⟨e, _, hr⟩
    · rw [begun_cons_ok h₁, ih h₂]
    · cases hr

/-- Hops that all run lead where their route leads. -/
theorem hops_follow {n' : Navigation} {landing' : Option Landing}
    (hh : hops sc event n landing route l = (.ok (n', landing'), l')) :
    n' = n.follow sc.graph route ∧ (landing' = none → landing = none ∧ route = []) := by
  induction route generalizing n landing l with
  | nil =>
    cases hh
    exact ⟨rfl, fun h => ⟨h, rfl⟩⟩
  | cons h rest ih =>
    rcases hops_cons_eq hh with ⟨l₁, h₁, h₂⟩ | ⟨e, _, hr⟩
    · obtain ⟨hn, hland⟩ := ih h₂
      refine ⟨hn, ?_⟩
      intro hnone
      cases (hland hnone).1
    · cases hr

theorem hops_alive {res : Navigation × Option Landing}
    (hh : hops sc event n landing route l = (.ok res, l'))
    (hi : ∃ i, l.session.instance? tree = some i) (hleft : ∀ h ∈ route, tree ∉ treesLeft sc h) :
    ∃ i, l'.session.instance? tree = some i := by
  induction route generalizing n landing l with
  | nil =>
    cases hh
    exact hi
  | cons h rest ih =>
    rcases hops_cons_eq hh with ⟨l₁, h₁, h₂⟩ | ⟨e, _, hr⟩
    · have hl₁ := hop_alive h₁ (hleft h List.mem_cons_self) (Or.inl hi)
      exact ih h₂ hl₁ fun h' hh' => hleft h' (List.mem_cons_of_mem _ hh')
    · cases hr

/-- An action of a transition leaves a handler behind in its tree, unless this tree is left then. -/
theorem hops_alive_of_action {res : Navigation × Option Landing} {before after : List (Hop ω η)}
    {a : Action ω η} (hh : hops sc event n landing (before ++ h :: after) l = (.ok res, l'))
    (ha : a ∈ h.transitionActions sc.graph) (heval : a.Evaluates) (hhost : sc.Hosts a.tree)
    (hleft : ∀ h' ∈ h :: after, a.tree ∉ treesLeft sc h') :
    ∃ i, l'.session.instance? a.tree = some i := by
  induction before generalizing n landing l with
  | nil =>
    rcases hops_cons_eq hh with ⟨l₁, h₁, h₂⟩ | ⟨e, _, hr⟩
    · have hl₁ := hop_alive h₁ (hleft h List.mem_cons_self) (Or.inr ⟨hhost, a, ha, heval, rfl⟩)
      exact hops_alive h₂ hl₁ fun h' hh' => hleft h' (List.mem_cons_of_mem _ hh')
    · cases hr
  | cons first before ih =>
    rcases hops_cons_eq hh with ⟨l₁, _, h₂⟩ | ⟨e, _, hr⟩
    · exact ih h₂
    · cases hr

/-- Where a handler that is alive after some hops comes from: it was alive before them, or actions of
one of them have made it, and its tree has not been left since. -/
theorem alive_of_hops {res : Navigation × Option Landing}
    (hh : hops sc event n landing route l = (.ok res, l'))
    (hi : ∃ i, l'.session.instance? tree = some i) :
    ((∃ i, l.session.instance? tree = some i) ∧ ∀ h ∈ route, tree ∉ treesLeft sc h) ∨
    ∃ before h after, route = before ++ h :: after ∧ (∀ h' ∈ after, tree ∉ treesLeft sc h') ∧
      ((tree ∉ treesLeft sc h ∧
        ∃ a ∈ h.exitActions sc.graph ++ h.transitionActions sc.graph, a.Evaluates ∧ a.tree = tree) ∨
      ∃ a ∈ h.entryActions sc.graph, a.tree = tree) := by
  induction route generalizing n landing l with
  | nil =>
    cases hh
    exact Or.inl ⟨hi, fun _ h => nomatch h⟩
  | cons h rest ih =>
    rcases hops_cons_eq hh with ⟨l₁, h₁, h₂⟩ | ⟨e, _, hr⟩
    · rcases ih h₂ with ⟨⟨i, hi⟩, hleft⟩ | ⟨before, h', after, rfl, hafter, hmade⟩
      · rcases alive_of_hop h₁ hi with ⟨hh, hold | hmade⟩ | hmade
        · refine Or.inl ⟨hold, ?_⟩
          intro h' hh'
          rcases List.mem_cons.1 hh' with rfl | hh'
          · exact hh
          · exact hleft h' hh'
        · exact Or.inr ⟨[], h, rest, rfl, hleft, Or.inl ⟨hh, hmade⟩⟩
        · exact Or.inr ⟨[], h, rest, rfl, hleft, Or.inr hmade⟩
      · exact Or.inr ⟨h :: before, h', after, rfl, hafter, hmade⟩
    · cases hr

end Run
end ChatFlow
