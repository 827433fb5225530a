import ChatFlow.Proofs.Document.Loaded
import ChatFlow.Proofs.Flow.Walks

/-! When gated routes fail: a role that is turned back again and again never comes to rest. -/
namespace ChatFlow.Flow
variable {ω η : Type} {rules : AccessRules ω η} {role : Option String} {r : Router ω η} {gate : Gate}
  {n : Navigation} {t : Transition ω η} {h first : Hop ω η} {left : Nat} {id a b target : NodeId}
  {e : FlowError}

namespace AccessRules

/-- Whether own transitions lead from a node to a tree that a role is denied, for which it is shown its
fallback instead. -/
inductive TurnsBack (rules : AccessRules ω η) (role : Option String) : NodeId → Prop where
  | denied {id target fallback : NodeId} (hleap : rules.graph.Leaps id target)
    (haway : rules.graph.tree target ≠ rules.graph.tree id)
    (hdenied : rules.check role (rules.graph.tree target) = .denied (some fallback)) : TurnsBack rules role id
  | passed {id target : NodeId} (hleap : rules.graph.Leaps id target)
    (hpass : rules.graph.tree target = rules.graph.tree id ∨
      rules.check role (rules.graph.tree target) = .granted)
    (hnext : TurnsBack rules role target) : TurnsBack rules role id

/-- Whether a role is turned back on its way from a node, and also from the fallback that it is shown
then. -/
def Traps (rules : AccessRules ω η) (role : Option String) (id : NodeId) : Prop :=
  rules.TurnsBack role id ∧
    ∃ fallback, (rules.grant? role).bind Grant.onDenied = some fallback ∧ rules.TurnsBack role fallback

end AccessRules

namespace AccessRules

/-- Past the gate, own transitions lead where they do by themselves, or the role is turned back. -/
theorem turnsBack_of_relays (hgate : r.gate = some gate) (hr : r.Relays a b) :
    let rules : AccessRules ω η := ⟨r.graph, gate.guestLevel⟩
    r.graph.Leaps a b ∧ (rules.TurnsBack gate.role b → rules.TurnsBack gate.role a) ∨
      rules.TurnsBack gate.role a ∧ (rules.grant? gate.role).bind Grant.onDenied = some b := by
  intro rules
  obtain ⟨target, hleap, hgated⟩ := hr
  by_cases hsame : r.graph.tree target = r.graph.tree a
  · rw [Router.gated_of_same rfl hsame.symm] at hgated
    cases hgated
    exact Or.inl ⟨hleap, fun hb => .passed hleap (Or.inl hsame) hb⟩
  · cases hcheck : rules.check gate.role (r.graph.tree target) with
    | granted =>
      rw [Router.gated_of_granted hgate hcheck] at hgated
      cases hgated
      exact Or.inl ⟨hleap, fun hb => .passed hleap (Or.inr hcheck) hb⟩
    | denied fallback =>
      rw [Router.gated_of_denied hgate hsame hcheck] at hgated
      cases hgated
      exact Or.inr ⟨.denied hleap hsame hcheck, onDenied_of_check hcheck⟩

/-- A role that is turned back again and again is always led on. -/
theorem Traps.relays (hgate : r.gate = some gate)
    (ht : Traps ⟨r.graph, gate.guestLevel⟩ gate.role a) :
    ∃ b, r.Relays a b ∧ Traps ⟨r.graph, gate.guestLevel⟩ gate.role b := by
  obtain ⟨hback, fallback, hfallback, hagain⟩ := ht
  cases hback with
  | denied hleap haway hdenied =>
    have hsame := onDenied_of_check hdenied
    cases hfallback.symm.trans hsame
    exact ⟨fallback, ⟨_, hleap, Router.gated_of_denied hgate haway hdenied⟩, hagain, fallback,
      hfallback, hagain⟩
  | @passed _ target hleap hpass hnext =>
    have hgated : r.gated (some a) target = some target := by
      rcases hpass with hsame | hgranted
      · exact Router.gated_of_same rfl hsame.symm
      · exact Router.gated_of_granted hgate hgranted
    exact ⟨target, ⟨target, hleap, hgated⟩, hnext, fallback, hfallback, hagain⟩

/-- Where a role is not turned back, past the gate own transitions lead where they do by themselves. -/
theorem leaps_of_not_turnsBack (hgate : r.gate = some gate) (hr : Relation.TransGen r.Relays a b)
    (hno : ¬ TurnsBack ⟨r.graph, gate.guestLevel⟩ gate.role a) :
    Relation.TransGen r.graph.Leaps a b ∧ ¬ TurnsBack ⟨r.graph, gate.guestLevel⟩ gate.role b := by
  have hstep {x y : NodeId} (hr : r.Relays x y)
      (hx : ¬ TurnsBack ⟨r.graph, gate.guestLevel⟩ gate.role x) :
      r.graph.Leaps x y ∧ ¬ TurnsBack ⟨r.graph, gate.guestLevel⟩ gate.role y := by
    rcases turnsBack_of_relays hgate hr with ⟨hleap, hback⟩ | ⟨hback, _⟩
    · exact ⟨hleap, fun hy => hx (hback hy)⟩
    · exact absurd hback hx
  induction hr with
  | single hr =>
    obtain ⟨hleap, hy⟩ := hstep hr hno
    exact ⟨.single hleap, hy⟩
  | tail _ hr ih =>
    obtain ⟨hleaps, hy⟩ := ih
    obtain ⟨hleap, hz⟩ := hstep hr hy
    exact ⟨hleaps.tail hleap, hz⟩

/-- A role that is not turned back from its fallback is turned back once at most. -/
theorem leaps_or_not_turnsBack (hgate : r.gate = some gate)
    (hno : ∀ fallback, (grant? ⟨r.graph, gate.guestLevel⟩ gate.role).bind Grant.onDenied = some fallback →
      ¬ TurnsBack ⟨r.graph, gate.guestLevel⟩ gate.role fallback)
    (hr : Relation.TransGen r.Relays a b) : Relation.TransGen r.graph.Leaps a b ∨
      ¬ TurnsBack ⟨r.graph, gate.guestLevel⟩ gate.role b := by
  induction hr with
  | single hr =>
    rcases turnsBack_of_relays hgate hr with ⟨hleap, _⟩ | ⟨_, hfallback⟩
    · exact Or.inl (.single hleap)
    · exact Or.inr (hno _ hfallback)
  | tail _ hr ih =>
    rcases ih with hleaps | hy
    · rcases turnsBack_of_relays hgate hr with ⟨hleap, _⟩ | ⟨_, hfallback⟩
      · exact Or.inl (hleaps.tail hleap)
      · exact Or.inr (hno _ hfallback)
    · exact Or.inr (leaps_of_not_turnsBack hgate (.single hr) hy).2

/-- From a node that does not trap the role, no session is led back to a node where it has been. -/
theorem not_transGen_of_not_traps (hacyclic : Acyclic r.graph.Leaps) (hgate : r.gate = some gate)
    (hno : ¬ Traps ⟨r.graph, gate.guestLevel⟩ gate.role a) (hreach : Relation.ReflTransGen r.Relays a b) :
    ¬ Relation.TransGen r.Relays b b := by
  intro hcycle
  have hturns : TurnsBack ⟨r.graph, gate.guestLevel⟩ gate.role b := by
    by_contra hb
    exact hacyclic b (leaps_of_not_turnsBack hgate hcycle hb).1
  by_cases ha : TurnsBack ⟨r.graph, gate.guestLevel⟩ gate.role a
  · have hfallback : ∀ fallback,
        (grant? ⟨r.graph, gate.guestLevel⟩ gate.role).bind Grant.onDenied = some fallback →
        ¬ TurnsBack ⟨r.graph, gate.guestLevel⟩ gate.role fallback :=
      fun fallback hf hagain => hno ⟨ha, fallback, hf, hagain⟩
    rcases leaps_or_not_turnsBack hgate hfallback hcycle with hleaps | hb
    · exact hacyclic b hleaps
    · exact hb hturns
  · rcases Relation.reflTransGen_iff_eq_or_transGen.1 hreach with rfl | hreach
    · exact ha hturns
    · exact (leaps_of_not_turnsBack hgate hreach ha).2 hturns

end AccessRules

namespace Router

/-- A transition that leads on past the gate fires a hop to where it leads. -/
theorem step_of_relays (hg : r.graph.Sound) (hid : n.current = some a) (hr : r.Relays a b)
    (hmove : ∀ t, r.graph.Declares t → t.move ≠ .caller) :
    ∃ t next, (r.graph.node a).transition? = some t ∧ r.step n t = some next ∧ next.target = b ∧
      next.resumes = [] := by
  obtain ⟨target, hleap, hgated⟩ := hr
  obtain ⟨t, ht, _⟩ := Option.bind_eq_some_iff.1 hleap
  have hmove := hmove t (Graph.declares_transition ht)
  have htarget := leaps_targetOf hg hid ht hmove
  cases hleap.symm.trans htarget
  have hs : ∃ next, r.step n t = some next ∧ next.target = b := by
    unfold step
    rw [hid, hgated]
    exact ⟨_, rfl, rfl⟩
  obtain ⟨next, hs, hnext⟩ := hs
  exact ⟨t, next, ht, hs, hnext, resumes_of_step hs hmove⟩

/-- From a node that traps the role a chain exceeds every limit. -/
theorem chain_of_traps (hg : r.graph.Sound) (hgate : r.gate = some gate)
    (hmove : ∀ t, r.graph.Declares t → t.move ≠ .caller) (hr : h.resumes = [])
    (ht : AccessRules.Traps ⟨r.graph, gate.guestLevel⟩ gate.role h.target) (left : Nat) :
    r.chain n h left = .error (.transitionChain r.limit) := by
  induction left generalizing n h with
  | zero =>
    obtain ⟨b, ⟨_, hleap, _⟩, _⟩ := ht.relays hgate
    obtain ⟨t, ht, _⟩ := Option.bind_eq_some_iff.1 hleap
    rw [chain, Hop.followUp?_of_resumes hr, ht]
  | succ left ih =>
    obtain ⟨b, hrelays, htraps⟩ := ht.relays hgate
    have hid : (n.advance r.graph h).current = some h.target := rfl
    obtain ⟨t, next, ht, hs, rfl, hnext⟩ := step_of_relays hg hid hrelays hmove
    rw [chain_succ, Hop.followUp?_of_resumes hr, ht, Option.bind_some, hs]
    dsimp only
    rw [ih hnext htraps]
    rfl

/-- From any other node a chain ends within a limit of at least the number of nodes. -/
theorem chain_of_not_traps (hg : r.graph.Sound) (hacyclic : Acyclic r.graph.Leaps)
    (hgate : r.gate = some gate) (hmove : ∀ t, r.graph.Declares t → t.move ≠ .caller)
    (hr : h.resumes = []) (hno : ¬ AccessRules.Traps ⟨r.graph, gate.guestLevel⟩ gate.role h.target)
    (hlimit : r.graph.size ≤ left) : ∃ hops, r.chain n h left = .ok hops := by
  cases hc : r.chain n h left with
  | ok hops => exact ⟨hops, rfl⟩
  | error e =>
    obtain ⟨_, hlength, hdue⟩ := walk_of_error hc
    have hchain := r.walk_isChain n h left
    obtain ⟨rest, hwalk⟩ := r.exists_walk_eq n h left
    rw [hwalk] at hlength hdue hchain
    obtain ⟨t, ht⟩ := hdue h List.mem_cons_self
    rw [Hop.followUp?_of_resumes hr] at ht
    have hle := length_le_of_follows hg hchain hr (Graph.lt_size_of_transition ht)
      (fun _ _ t _ => hmove t)
      fun b hreach => AccessRules.not_transGen_of_not_traps hacyclic hgate hno hreach
    omega

end Router
end ChatFlow.Flow

namespace ChatFlow.Document
open Flow
variable {ω η : Type} {l : Library ω η} {g : Flow.Graph ω η} {text : String}

/-- A gated route of a loaded graph whose transitions never return to a caller is resolved, within a
limit of at least the number of nodes, unless it leads to a node that traps the role. Then it exceeds
every limit. -/
theorem routes_resolve_unless_trapped (h : load l text = .ok g)
    (hmove : ∀ t, g.Declares t → t.move ≠ .caller) (guestLevel : UInt32) (role : Option String)
    {limit : Nat} (hlimit : g.size ≤ limit) (n : Navigation) (target : NodeId) :
    let r : Router ω η := ⟨g, limit, some ⟨guestLevel, role⟩⟩
    (¬ AccessRules.Traps ⟨g, guestLevel⟩ role target →
      (∃ hops, r.routeTo n target = .ok hops) ∧ ∃ hops, r.enterTree n target = .ok hops) ∧
    (AccessRules.Traps ⟨g, guestLevel⟩ role target →
      r.routeTo n target = .error (.transitionChain limit) ∧
      r.enterTree n target = .error (.transitionChain limit)) := by
  intro r
  obtain ⟨hg, _, hacyclic⟩ := load_loads h
  refine ⟨fun hno => ⟨?_, ?_⟩, fun htraps => ⟨?_, ?_⟩⟩
  · exact Router.chain_of_not_traps hg hacyclic rfl hmove rfl hno hlimit
  · exact Router.chain_of_not_traps hg hacyclic rfl hmove rfl hno hlimit
  · exact Router.chain_of_traps (r := r) hg rfl hmove rfl htraps limit
  · exact Router.chain_of_traps (r := r) hg rfl hmove rfl htraps limit

/-- A tree whose own transition leads where a role may not go, and which is shown to the role instead. -/
def lockoutText : String :=
  "(roles (role v :trees (F) :on-denied F))
(tree F :keys (f) (transition :target D))
(tree D)"

def lockoutLibrary : Library Unit Unit := ⟨.empty, ∅, .default⟩

def lockout : Flow.Graph Unit Unit := (load lockoutLibrary lockoutText).toOption.getD default

theorem load_lockout : load lockoutLibrary lockoutText = .ok lockout :=
  eq_ok_of_isOk (by decide +kernel)

theorem move_lockout (t : Transition Unit Unit) (ht : lockout.Declares t) : t.move ≠ .caller := by
  have hall : ∀ n ∈ lockout.nodes, ∀ t ∈ n.transitions, t.move ≠ .caller := by decide +kernel
  obtain ⟨n, hn, ht⟩ := ht.mem
  exact hall n hn t ht

/-- The limit is one more than the number of nodes, and is exceeded all the same. -/
theorem lockout_fails : load lockoutLibrary lockoutText = .ok lockout ∧
    (∀ t, lockout.Declares t → t.move ≠ .caller) ∧ lockout.size + 1 ≤ 3 ∧
    ((⟨lockout, 3, some ⟨0, some "v"⟩⟩ : Router Unit Unit).routeTo .nowhere 0).isOk = false ∧
    ((⟨lockout, 3, some ⟨0, some "v"⟩⟩ : Router Unit Unit).enterTree .nowhere 0).isOk = false :=
  ⟨load_lockout, move_lockout, by decide +kernel⟩

/-- The role is turned back from the second tree to the first for ever, and may be led to the second. -/
theorem lockout_traps : lockout.size = 2 ∧
    (⟨lockout, 2, some ⟨0, some "v"⟩⟩ : Router Unit Unit).routeTo .nowhere 0 =
      .error (.transitionChain 2) ∧
    ∃ hops, (⟨lockout, 2, some ⟨0, some "v"⟩⟩ : Router Unit Unit).routeTo .nowhere 1 = .ok hops := by
  obtain ⟨hsize, hleap, hnone, haway, hdenied, hfallback⟩ : lockout.size = 2 ∧
      lockout.automaticTarget? 0 = some 1 ∧ lockout.automaticTarget? 1 = none ∧
      lockout.tree 1 ≠ lockout.tree 0 ∧
      AccessRules.check ⟨lockout, 0⟩ (some "v") (lockout.tree 1) = .denied (some 0) ∧
      (AccessRules.grant? ⟨lockout, 0⟩ (some "v")).bind Grant.onDenied = some 0 := by
    decide +kernel
  have hback : AccessRules.TurnsBack ⟨lockout, 0⟩ (some "v") 0 := .denied hleap haway hdenied
  have hrest : ¬ AccessRules.TurnsBack ⟨lockout, 0⟩ (some "v") 1 := by
    intro hturns
    cases hturns with
    | denied hleap => exact nomatch hnone.symm.trans hleap
    | passed hleap => exact nomatch hnone.symm.trans hleap
  have hroutes := routes_resolve_unless_trapped load_lockout move_lockout 0 (some "v")
    (Nat.le_of_eq hsize) .nowhere
  exact ⟨hsize, ((hroutes 0).2 ⟨hback, 0, hfallback, hback⟩).1, ((hroutes 1).1 fun ht => hrest ht.1).1⟩

end ChatFlow.Document
