import ChatFlow.Proofs.Session.Handling

/-! Where an event takes a session, and what holds of every session that has come from a fresh one. -/
namespace ChatFlow
open Flow Expr
variable {ω η : Type} {sc : Scenario ω η} {l l' : Live ω η} {s : Session η} {world : ω}
  {event : Event} {tree : NodeId} {i : Nat} {route : List (Hop ω η)} {r : Except FlowError Outcome}

/-- What holds of every session of a loaded graph: it stands in the graph, and its handlers are in trees
that host them, with serial numbers that have been given out. -/
structure Session.Lawful (sc : Scenario ω η) (s : Session η) : Prop where
  within : s.navigation.Within sc.graph
  hosted : ∀ {tree i}, s.instance? tree = some i → sc.Hosts tree ∧ i < s.nextSerial

theorem Session.lawful_fresh (sc : Scenario ω η) (role : Option String) :
    (fresh role : Session η).Lawful sc :=
  ⟨Navigation.within_nowhere sc.graph, fun h => nomatch h⟩

namespace Run

theorem Leads.allowed (hg : sc.graph.Sound) (h : Leads sc s route) :
    Along sc.graph (Hop.Allowed sc.rules s.role) s.navigation route := by
  cases h with
  | enter htree hopen h =>
    refine Router.chain_allowed (r := router sc s) hg rfl ⟨rfl, Or.inr ?_⟩ h
    rename_i tree
    change sc.rules.Opens s.role (sc.graph.tree tree)
    rw [hg.wellFormed.tree_of_mem_trees htree]
    exact hopen
  | moveTo hid hanchor hbranch h =>
    refine Router.chain_allowed (r := router sc s) hg rfl ⟨rfl, Or.inl ⟨_, hid, ?_⟩⟩ h
    exact tree_of_mem_branches hg.wellFormed hanchor hbranch

theorem Leads.within (hg : sc.graph.Sound) (hn : s.navigation.Within sc.graph)
    (h : Leads sc s route) : Along sc.graph (Hop.Within sc.graph) s.navigation route := by
  cases h with
  | enter htree hopen h =>
    refine Router.chain_within (r := router sc s) hg ⟨hn, ?_, fun _ h => absurd h List.not_mem_nil⟩ h
    exact Graph.lt_size_of_mem_trees htree
  | moveTo hid hanchor hbranch h =>
    refine Router.chain_within (r := router sc s) hg ⟨hn, ?_, fun _ h => absurd h List.not_mem_nil⟩ h
    exact Graph.lt_size_of_parent (hg.wellFormed.parent_branch hbranch)

/-- Where an event takes a session: its hops are the first ones of a route that it leads to, and when
it moves, it moves to their end. -/
structure Travels (sc : Scenario ω η) (s : Session η) (ran : List (Hop ω η))
    (r : Except FlowError Outcome) (l' : Live ω η) : Prop where
  ran_isPrefix : ran = [] ∨ ∃ route, Leads sc s route ∧ ran <+: route
  navigation_eq : l'.session.navigation = s.navigation ∨ (∃ outcome, r = .ok outcome) ∧
    l'.session.navigation = s.navigation.follow sc.graph ran

theorem handle_travels (hg : sc.graph.Sound) (hh : handle sc event (.start s world) = (r, l')) :
    Travels sc s (taken sc event (.start s world)) r l' := by
  obtain ⟨ran, rfl, hends⟩ := handle_ends rfl hh
  generalize taken sc event (.start s world) = ran at hends ⊢
  cases hends with
  | stay hp _ => exact ⟨Or.inl rfl, Or.inl (plan_planned hg hp).frame.navigation_eq⟩
  | halt hp => exact ⟨Or.inl rfl, Or.inl (frame_of_route hg hp).navigation_eq⟩
  | @fail route runnable made l₁ l₂ l₃ e hp hx hrun =>
    have hf := frame_of_executable hg hp hx
    have hgrows : Live.Grows sc l₂ l₃ := hops_grows _ _ _ hrun
    refine ⟨Or.inr ⟨route, (plan_planned hg hp).leads route made rfl, ?_⟩, Or.inl ?_⟩
    · exact (begun_isPrefix l₂ runnable).trans (executable_isPrefix hx)
    · exact hgrows.navigation_eq.trans hf.navigation_eq
  | @move route runnable made l₁ l₂ l₃ n landing hp hx hne hrun =>
    have hf := frame_of_executable hg hp hx
    refine ⟨Or.inr ⟨route, (plan_planned hg hp).leads route made rfl, ?_⟩, Or.inr ⟨⟨_, rfl⟩, ?_⟩⟩
    · exact executable_isPrefix hx
    · change n = s.navigation.follow sc.graph ran
      rw [(hops_follow hrun).1, hf.navigation_eq]
      rfl

/-- No event changes the role of its session. -/
theorem role_of_handle (hg : sc.graph.Sound) (hh : handle sc event (.start s world) = (r, l')) :
    l'.session.role = s.role := by
  obtain ⟨runnable, _, hends⟩ := handle_ends rfl hh
  cases hends with
  | stay hp _ => exact (plan_planned hg hp).frame.role_eq
  | halt hp => exact (frame_of_route hg hp).role_eq
  | @fail route runnable made l₁ l₂ l₃ e hp hx hrun =>
    have hgrows : Live.Grows sc l₂ l₃ := hops_grows _ _ _ hrun
    exact hgrows.role_eq.trans (frame_of_executable hg hp hx).role_eq
  | @move route runnable made l₁ l₂ l₃ n landing hp hx hne hrun =>
    have hgrows : Live.Grows sc l₂ l₃ := hops_grows _ _ _ hrun
    exact hgrows.role_eq.trans (frame_of_executable hg hp hx).role_eq

/-- Until it is put back or moved on, a session only gets new handlers while it handles an event. -/
theorem handle_grows (hg : sc.graph.Sound) (hh : handle sc event (.start s world) = (r, l')) :
    ∃ l : Live ω η, Live.Grows sc (.start s world) l ∧
      l'.session.nextSerial = l.session.nextSerial ∧
      ∀ tree i, l'.session.instance? tree = some i → i ∈ l.instances tree := by
  have halive (l : Live ω η) (tree : NodeId) (i : Nat) (hi : l.session.instance? tree = some i) :
      i ∈ l.instances tree := List.mem_append_right _ (Option.mem_toList.2 hi)
  obtain ⟨runnable, _, hends⟩ := handle_ends rfl hh
  cases hends with
  | stay hp _ => exact ⟨l', (plan_planned hg hp).frame.grows, rfl, halive l'⟩
  | halt hp => exact ⟨_, (frame_of_route hg hp).grows, rfl, halive _⟩
  | @fail route runnable made l₁ l₂ l₃ e hp hx hrun =>
    have hf := frame_of_executable hg hp hx
    refine ⟨l₃, hf.grows.trans (hops_grows _ _ _ hrun), rfl, ?_⟩
    intro tree i hi
    rw [instance?_restore] at hi
    cases hlast : ((l₃.parked.filter fun e => e.1 = tree).map fun e => e.2.serial).getLast? with
    | some j =>
      rw [hlast] at hi
      cases hi
      exact List.mem_append_left _ (List.mem_of_getLast? hlast)
    | none =>
      rw [hlast] at hi
      by_cases hb : l₂.session.hasHandler tree = true
      · simp only [hb, if_true] at hi
        exact halive l₃ tree i hi
      · simp [hb] at hi
  | @move route runnable made l₁ l₂ l₃ n landing hp hx hne hrun =>
    have hf := frame_of_executable hg hp hx
    exact ⟨l₃, hf.grows.trans (hops_grows _ _ _ hrun), rfl, halive l₃⟩

end Run

namespace Session

theorem lawful_handle (hg : sc.graph.Sound) (hs : s.Lawful sc) (event : Event) (world : ω) :
    (handle sc event s world).2.1.Lawful sc := by
  rw [handle_eq]
  rcases hh : Run.handle sc event (.start s world) with ⟨r, l'⟩
  constructor
  · obtain ⟨hran, hnav | ⟨_, hnav⟩⟩ := Run.handle_travels hg hh
    · rw [hnav]
      exact hs.within
    · rw [hnav]
      rcases hran with hnil | ⟨route, hleads, hprefix⟩
      · rw [hnil]
        exact hs.within
      · have halong := (hleads.within hg hs.within).of_isPrefix hprefix
        exact halong.follow_within hg.wellFormed hs.within
  · intro tree i hi
    obtain ⟨l, hgrows, hserial, hmem⟩ := Run.handle_grows hg hh
    rw [hserial]
    obtain ⟨new, hnew, hfresh⟩ := hgrows.instances_grow tree
    have hi := hmem tree i hi
    rw [hnew] at hi
    rcases List.mem_append.1 hi with hi | hi
    · obtain ⟨hhost, hlt⟩ := hs.hosted (Option.mem_toList.1 hi)
      exact ⟨hhost, Nat.lt_of_lt_of_le hlt hgrows.serial_le⟩
    · obtain ⟨hhost, _, hlt⟩ := hfresh i hi
      exact ⟨hhost, hlt⟩

theorem lawful_step (hg : sc.graph.Sound) (hs : s.Lawful sc) (input : Input ω) :
    (step sc s input).Lawful sc := by
  cases input with
  | event event world => exact lawful_handle hg hs event world
  | role role => exact ⟨hs.within, hs.hosted⟩
  | reset => exact ⟨Navigation.within_nowhere sc.graph, fun h => nomatch h⟩

theorem lawful_run (hg : sc.graph.Sound) (role : Option String) (inputs : List (Input ω)) :
    (run sc (fresh role) inputs).Lawful sc :=
  run_induction (lawful_fresh sc role) (fun _ input hs => lawful_step hg hs input) inputs

end Session
end ChatFlow
