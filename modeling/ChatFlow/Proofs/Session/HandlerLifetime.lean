import ChatFlow.Proofs.Document.Loaded
import ChatFlow.Proofs.Flow.Stays
import ChatFlow.Proofs.Session.Reachable

/-! A handler outlives the stay in its tree only when an event makes it on the way to another tree. -/
namespace ChatFlow
open Flow Expr
variable {ω η : Type} {sc : Scenario ω η} {l l' : Live ω η} {s : Session η} {event : Event} {world : ω}
  {tree : NodeId} {route runnable : List (Hop ω η)} {n : Navigation}

/-- Whether handlers are alive in the current tree only. -/
def Session.Tidy (sc : Scenario ω η) (s : Session η) : Prop :=
  ∀ tree, s.hasHandler tree = true → s.navigation.StandsIn sc.graph tree

namespace Run

theorem Leads.sits (hg : sc.graph.Sound) (hn : s.navigation.Within sc.graph) (h : Leads sc s route) :
    Along sc.graph (Hop.Sits sc.graph) s.navigation route := by
  refine Along.sits ?_ (h.within hg hn)
  cases h with
  | enter _ _ h => exact (Router.Resolves.enterTree h : (router sc s).Resolves _ _).moves
  | moveTo _ _ _ h => exact (Router.Resolves.routeTo h : (router sc s).Resolves _ _).moves

/-- How an event may leave a handler behind in a tree in which it does not end. -/
inductive Strays (sc : Scenario ω η) (event : Event) (s : Session η) (world : ω) (tree : NodeId) :
    Prop where
  /-- No hop is carried out, and a guard of the route has been evaluated in the tree. -/
  | guard {route : List (Hop ω η)} {made : Option Landing → Outcome} {l : Live ω η}
    (hplan : plan sc event (.start s world) = (.ok (.go route made), l))
    (hguard : Examined sc event l route tree)
    (hstay : (∃ e, (handle sc event (.start s world)).1 = .error e) ∨
      taken sc event (.start s world) = [])
  /-- A hop fails, and the hops before it have left the tree with a handler. -/
  | left {e : FlowError} (herror : (handle sc event (.start s world)).1 = .error e)
    (hleft : tree ∈ (handle sc event (.start s world)).2.left)
  /-- The hops are carried out; an action of a transition has run in the tree, and no hop has left it
  since. -/
  | action {outcome : Outcome} {before after : List (Hop ω η)} {hop : Hop ω η} {a : Action ω η}
    (hok : (handle sc event (.start s world)).1 = .ok outcome)
    (htaken : taken sc event (.start s world) = before ++ hop :: after)
    (ha : a ∈ hop.transitionActions sc.graph) (heval : a.Evaluates) (htree : a.tree = tree)
    (hleft : ∀ h ∈ hop :: after, tree ∉ h.exits)

theorem mem_treesLeft_iff {h : Hop ω η} (hhost : sc.Hosts tree) :
    tree ∈ treesLeft sc h ↔ tree ∈ h.exits := by
  rw [treesLeft, List.mem_filter]
  exact and_iff_left hhost.isTree

/-- The tree of a guard that has been evaluated before hops run is one in which they arrive. -/
theorem standsIn_of_examined (hg : sc.graph.WellFormed) {l₁ l₂ : Live ω η}
    (ha : Along sc.graph (Hop.Sits sc.graph) n route)
    (hx : executable sc event route l₁ = (.ok runnable, l₂)) (hne : runnable ≠ [])
    (hguard : Examined sc event l₁ route tree) (hleft : ∀ h ∈ runnable, tree ∉ h.exits) :
    (n.follow sc.graph runnable).StandsIn sc.graph tree := by
  obtain ⟨before, h, after, rfl, hbefore, _, rfl⟩ := hguard
  have hsits : h.Sits sc.graph (n.follow sc.graph before) := ha.at_split rfl
  have halong := ha.of_isPrefix (executable_isPrefix hx)
  have hprefix := executable_isPrefix hx
  obtain ⟨rest, rfl⟩ := prefix_executable hx rfl hbefore
  have hrest := (along_append.1 halong).2
  have hstays : ∀ h' ∈ rest, sc.graph.tree h.guardNode ∉ h'.exits :=
    fun h' hh' => hleft h' (List.mem_append_right _ hh')
  rw [Navigation.follow_append]
  cases ho : (n.follow sc.graph before).current with
  | some o =>
    have hnode : h.guardNode = o := by rw [Hop.guardNode, hsits.moves.1, ho, Option.getD_some]
    rw [hnode] at hstays ⊢
    exact hrest.standsIn hg (by rw [Navigation.StandsIn, ho, Option.map_some]) hstays
  | none =>
    have hnode : h.guardNode = h.target := by rw [Hop.guardNode, hsits.moves.1, ho, Option.getD_none]
    rw [hnode] at hstays ⊢
    cases rest with
    | nil =>
      rw [List.append_nil] at hne
      obtain ⟨id, hid⟩ := Navigation.exists_current_of_follow before hne
      rw [hid] at ho
      cases ho
    | cons h' rest =>
      obtain ⟨rfl, _⟩ := List.cons_prefix_cons.1 ((List.prefix_append_right_inj before).1 hprefix)
      rw [Navigation.follow_cons]
      exact hrest.2.standsIn hg rfl fun h'' hh'' => hstays h'' (List.mem_cons_of_mem _ hh'')

/-- The hops that are carried out leave handlers behind only where actions of transitions run. -/
theorem standsIn_or_action (hg : sc.graph.Sound) {l₂ l₃ : Live ω η}
    {res : Navigation × Option Landing} {landing : Option Landing}
    (ha : Along sc.graph (Hop.Sits sc.graph) n runnable)
    (hh : hops sc event n landing runnable l₂ = (.ok res, l₃)) (hhost : sc.Hosts tree)
    (hi : ∃ i, l₃.session.instance? tree = some i) :
    ((∃ i, l₂.session.instance? tree = some i) ∧ ∀ h ∈ runnable, tree ∉ h.exits) ∨
    (n.follow sc.graph runnable).StandsIn sc.graph tree ∨
    ∃ before hop after, runnable = before ++ hop :: after ∧ (∀ h ∈ hop :: after, tree ∉ h.exits) ∧
      ∃ a ∈ hop.transitionActions sc.graph, a.Evaluates ∧ a.tree = tree := by
  rcases alive_of_hops hh hi with ⟨hold, hleft⟩ | ⟨before, hop, after, rfl, hafter, hmade⟩
  · exact Or.inl ⟨hold, fun h hh => fun hmem => hleft h hh ((mem_treesLeft_iff hhost).2 hmem)⟩
  · right
    have hafter : ∀ h ∈ after, tree ∉ h.exits :=
      fun h hh hmem => hafter h hh ((mem_treesLeft_iff hhost).2 hmem)
    obtain ⟨_, hsits, hrest⟩ := along_append.1 ha
    have harrive (ht : sc.graph.tree hop.target = tree) :
        (n.follow sc.graph (before ++ hop :: after)).StandsIn sc.graph tree := by
      rw [Navigation.follow_append, Navigation.follow_cons]
      exact hrest.standsIn hg.wellFormed (congrArg some ht) hafter
    rcases hmade with ⟨hhop, a, ha, heval, htree⟩ | ⟨a, ha, htree⟩
    · have hhop : tree ∉ hop.exits := fun hmem => hhop ((mem_treesLeft_iff hhost).2 hmem)
      rcases List.mem_append.1 ha with ha | ha
      · obtain ⟨o, ho, hao⟩ := Hop.tree_of_exitActions hg hsits.moves.2 ha
        have hlt := hsits.within.position.current_lt (hsits.moves.1.symm.trans ho)
        have hto : sc.graph.tree o = tree := hao.symm.trans htree
        refine Or.inl (harrive ?_)
        rw [hsits.moves.2.tree_target hg.wellFormed ho hlt (hto ▸ hhop), hto]
      · refine Or.inr ⟨before, hop, after, rfl, ?_, a, ha, heval, htree⟩
        intro h hh
        rcases List.mem_cons.1 hh with rfl | hh
        · exact hhop
        · exact hafter h hh
    · exact Or.inl (harrive ((Hop.tree_of_entryActions hg hsits.moves.2 ha).symm.trans htree))

/-- Until the hops of a route start, handlers are alive in the current tree and where guards have been
evaluated. -/
theorem examined_of_alive (hg : sc.graph.Sound) {made : Option Landing → Outcome} {l₁ l₂ : Live ω η}
    {x : Except FlowError (List (Hop ω η))} {i : Nat} (ht : s.Tidy sc)
    (hp : plan sc event (.start s world) = (.ok (.go route made), l₁))
    (hx : executable sc event route l₁ = (x, l₂)) (hi : l₂.session.instance? tree = some i) :
    s.navigation.StandsIn sc.graph tree ∨ Examined sc event l₁ route tree := by
  rcases (frame_of_executable hg hp hx).alive hi with hold | ⟨_, hmade, _⟩
  · exact Or.inl (ht tree (Session.hasHandler_iff.2 ⟨i, hold⟩))
  · exact hmade

/-- An event that leaves a handler behind in a tree in which it does not end strays there. -/
theorem strays_of_alive (hg : sc.graph.Sound) (hs : s.Lawful sc) (ht : s.Tidy sc)
    {r : Except FlowError Outcome} (hh : handle sc event (.start s world) = (r, l')) {i : Nat}
    (hhost : sc.Hosts tree) (hi : l'.session.instance? tree = some i)
    (haway : ¬ l'.session.navigation.StandsIn sc.graph tree) : Strays sc event s world tree := by
  obtain ⟨runnable, htaken, hends⟩ := handle_ends rfl hh
  cases hends with
  | stay hp _ =>
    have hf := (plan_planned hg hp).frame
    rw [hf.navigation_eq] at haway
    rcases hf.alive hi with hold | ⟨_, hcurrent, _⟩
    · exact absurd (ht tree (Session.hasHandler_iff.2 ⟨i, hold⟩)) haway
    · exact absurd hcurrent haway
  | @halt route made l₁ _ hp =>
    have hf := frame_of_route hg hp
    rw [hf.navigation_eq] at haway
    exact .guard hp ((examined_of_alive hg ht hp rfl hi).resolve_left haway) (Or.inr htaken)
  | @fail route runnable made l₁ l₂ l₃ e hp hx hrun =>
    have hf := frame_of_executable hg hp hx
    have hgrows : Live.Grows sc l₂ l₃ := hops_grows _ _ _ hrun
    have hnav : (restore l₂.session l₃).session.navigation = s.navigation :=
      hgrows.navigation_eq.trans hf.navigation_eq
    rw [hnav] at haway
    rcases alive_of_restore hi with hleft | hbefore
    · exact .left (e := e) (by rw [hh]) (by rw [hh]; exact hleft)
    · obtain ⟨j, hj⟩ := Session.hasHandler_iff.1 hbefore
      refine .guard hp ((examined_of_alive hg ht hp hx hj).resolve_left haway) (Or.inl ⟨e, ?_⟩)
      rw [hh]
  | @move route runnable made l₁ l₂ l₃ n landing hp hx hne hrun =>
    have hf := frame_of_executable hg hp hx
    have hroute := ((plan_planned hg hp).leads route made rfl).sits hg hs.within
    have hrunnable := hroute.of_isPrefix (executable_isPrefix hx)
    have hnav : l₂.session.navigation = s.navigation := hf.navigation_eq
    rw [hnav] at hrun
    have hi : l₃.session.instance? tree = some i := hi
    have haway : ¬ (s.navigation.follow sc.graph runnable).StandsIn sc.graph tree :=
      (hops_follow hrun).1 ▸ haway
    rcases standsIn_or_action hg hrunnable hrun hhost ⟨i, hi⟩ with
      ⟨⟨j, hj⟩, hleft⟩ | harrive | ⟨before, hop, after, hsplit, hleft, a, ha, heval, htree⟩
    · rcases examined_of_alive hg ht hp hx hj with hcurrent | hguard
      · exact absurd (hrunnable.standsIn hg.wellFormed hcurrent hleft) haway
      · exact absurd (standsIn_of_examined hg.wellFormed hroute hx hne hguard hleft) haway
    · exact absurd harrive haway
    · exact .action (by rw [hh]) (htaken.trans hsplit) ha heval htree hleft

/-- An event without hops strays only where guards are evaluated. -/
theorem Strays.examined (hstrays : Strays sc event s world tree) {P : NodeId → Prop}
    {r : Except FlowError Outcome} (hh : handle sc event (.start s world) = (r, l'))
    (hf : Frame sc P (.start s world) l') (hnil : taken sc event (.start s world) = []) : ∃ route made l,
      plan sc event (.start s world) = (.ok (.go route made), l) ∧ Examined sc event l route tree := by
  cases hstrays with
  | guard hplan hguard _ => exact ⟨_, _, _, hplan, hguard⟩
  | left _ hleft =>
    rw [hh, Live.left, hf.parked_eq] at hleft
    cases hleft
  | action _ htaken _ _ _ _ =>
    rw [hnil] at htaken
    exact absurd htaken.symm (List.append_ne_nil_of_right_ne_nil _ (List.cons_ne_nil _ _))

/-- An event that strays into a tree leaves a handler there. -/
theorem alive_of_strays (hg : sc.graph.Sound) {r : Except FlowError Outcome}
    (hh : handle sc event (.start s world) = (r, l')) (hhost : sc.Hosts tree)
    (hstrays : Strays sc event s world tree) : ∃ i, l'.session.instance? tree = some i := by
  obtain ⟨runnable, htaken, hends⟩ := handle_ends rfl hh
  cases hends with
  | @stay p _ _ hp hno =>
    obtain ⟨route, made, l, hplan, _⟩ := hstrays.examined hh (plan_planned hg hp).frame htaken
    rw [hp] at hplan
    cases hplan
    exact absurd rfl (hno route made)
  | @halt route made l₁ _ hp =>
    obtain ⟨route', made', l, hplan, hguard⟩ := hstrays.examined hh (frame_of_route hg hp) htaken
    rw [hp] at hplan
    cases hplan
    exact executable_alive hguard hhost
  | @fail route runnable made l₁ l₂ l₃ e hp hx hrun =>
    have hgrows : Live.Grows sc l₂ l₃ := hops_grows _ _ _ hrun
    cases hstrays with
    | guard hplan hguard _ =>
      rw [hp] at hplan
      cases hplan
      obtain ⟨i, hi⟩ := executable_alive hguard hhost
      rw [hx] at hi
      refine restore_alive (Or.inr ⟨Session.hasHandler_iff.2 ⟨i, hi⟩, ?_⟩)
      obtain ⟨new, hnew, _⟩ := hgrows.instances_grow tree
      have hmem : i ∈ l₂.instances tree := List.mem_append_right _ (Option.mem_toList.2 hi)
      rw [hnew]
      exact List.ne_nil_of_mem (List.mem_append_left _ hmem)
    | left _ hleft =>
      rw [hh] at hleft
      exact restore_alive (Or.inl hleft)
    | action hok _ _ _ _ _ =>
      rw [hh] at hok
      cases hok
  | @move route runnable made l₁ l₂ l₃ n landing hp hx hne hrun =>
    have hf := frame_of_executable hg hp hx
    cases hstrays with
    | guard _ _ hstay =>
      rw [hh] at hstay
      rcases hstay with ⟨e, he⟩ | hnil
      · cases he
      · exact absurd (htaken.symm.trans hnil) hne
    | left herror _ =>
      rw [hh] at herror
      cases herror
    | @action outcome before after hop a _ hsplit ha heval htree hleft =>
      have hsplit : runnable = before ++ hop :: after := htaken.symm.trans hsplit
      subst hsplit
      subst htree
      have halive : ∃ i, l₃.session.instance? a.tree = some i := by
        apply hops_alive_of_action hrun ha heval hhost
        intro h hmem
        rw [mem_treesLeft_iff hhost]
        exact hleft h hmem
      exact halive

end Run

namespace Session

theorem tidy_fresh (sc : Scenario ω η) (role : Option String) : (fresh role : Session η).Tidy sc :=
  fun _ h => nomatch h

/-- From a tidy session, an event leaves handlers behind in exactly the trees where it strays. -/
theorem tidy_handle_iff (hg : sc.graph.Sound) (hs : s.Lawful sc) (ht : s.Tidy sc) (event : Event)
    (world : ω) : (handle sc event s world).2.1.Tidy sc ↔
      ∀ tree, sc.Hosts tree → Run.Strays sc event s world tree →
        (handle sc event s world).2.1.navigation.StandsIn sc.graph tree := by
  have hlawful := lawful_handle hg hs event world
  rw [handle_eq] at hlawful ⊢
  rcases hh : Run.handle sc event (.start s world) with ⟨r, l'⟩
  rw [hh] at hlawful
  constructor
  · intro htidy tree hhost hstrays
    exact htidy tree (hasHandler_iff.2 (Run.alive_of_strays hg hh hhost hstrays))
  · intro hstands tree hhas
    obtain ⟨i, hi⟩ := hasHandler_iff.1 hhas
    by_contra haway
    have hhost := (hlawful.hosted hi).1
    exact haway (hstands tree hhost (Run.strays_of_alive hg hs ht hh hhost hi haway))

/-- Along a run from a fresh session, handlers are alive in the current tree only, exactly when each
event ends in every tree into which it strays. -/
theorem handlers_in_current_tree {library : Document.Library ω η} {text : String}
    (h : Document.load library text = .ok sc.graph) (role : Option String)
    (inputs : List (Input ω)) :
    (∀ past, past <+: inputs → (run sc (fresh role : Session η) past).Tidy sc) ↔
    ∀ past event world, past ++ [.event event world] <+: inputs →
      ∀ tree, sc.Hosts tree →
        Run.Strays sc event (run sc (fresh role : Session η) past) world tree →
        (run sc (fresh role : Session η) (past ++ [.event event world])).navigation.StandsIn
          sc.graph tree := by
  have hg := Document.load_sound h
  have hlawful := lawful_run (ω := ω) (η := η) hg role
  constructor
  · intro htidy past event world hpast
    have hafter := htidy _ hpast
    rw [run_append] at hafter ⊢
    have hbefore := htidy past ((List.prefix_append _ _).trans hpast)
    exact (tidy_handle_iff hg (hlawful past) hbefore event world).1 hafter
  · intro hstands past
    induction past using List.reverseRecOn with
    | nil => exact fun _ => tidy_fresh sc role
    | append_singleton past input ih =>
      intro hpast
      have htidy := ih ((List.prefix_append _ _).trans hpast)
      rw [run_append]
      cases input with
      | role role => exact htidy
      | reset => exact fun _ h => nomatch h
      | event event world =>
        have hevent := hstands past event world hpast
        rw [run_append] at hevent
        exact (tidy_handle_iff hg (hlawful past) htidy event world).2 hevent

/-- A flow whose tree is never entered, since its transition is never carried out. -/
def shutText : String := "(tree A :handler P :keys (a) (transition :target B :execute false)) (tree B)"

def shutLibrary : Document.Library Unit Unit :=
  ⟨Namespace.empty.registerHandler "P" (), ∅, .default⟩

def shut : Scenario Unit Unit :=
  ⟨(Document.load shutLibrary shutText).toOption.getD default, shutLibrary.members, .default⟩

/-- The session still stands nowhere, and has a handler of the tree. -/
theorem shut_leaves_handler :
    let s := run shut (fresh none : Session Unit) [.event ⟨1, 7, .text "a"⟩ ()]
    (Document.load shutLibrary shutText).isOk = true ∧ s.current = none ∧ s.hasHandler 0 = true := by
  decide +kernel

/-- The only event of this run strays, as the session is not tidy afterwards. -/
theorem shut_strays : ∃ tree,
    Run.Strays shut ⟨1, 7, .text "a"⟩ (fresh none : Session Unit) () tree := by
  have hload : Document.load shutLibrary shutText = .ok shut.graph :=
    eq_ok_of_isOk (by decide +kernel)
  by_contra hne
  have hall := (handlers_in_current_tree hload none [.event ⟨1, 7, .text "a"⟩ ()]).2 fun past event
      world hpast tree _ hstrays => by
    cases past with
    | nil =>
      cases (List.cons_prefix_cons.1 hpast).1
      exact absurd ⟨tree, hstrays⟩ hne
    | cons input rest =>
      have hnil := List.prefix_nil.1 (List.cons_prefix_cons.1 hpast).2
      exact absurd hnil (List.append_ne_nil_of_right_ne_nil rest (List.cons_ne_nil _ _))
  have hstands := hall _ List.prefix_rfl 0 (by decide +kernel)
  have hnowhere : (run shut (fresh none : Session Unit)
      [.event ⟨1, 7, .text "a"⟩ ()]).navigation.current = none := by decide +kernel
  rw [Navigation.StandsIn, hnowhere] at hstands
  cases hstands

end Session
end ChatFlow
