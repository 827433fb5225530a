import ChatFlow.Proofs.Flow.Sound

/-! Gated routes come into another tree only where the access rules let them. -/
namespace ChatFlow.Flow
variable {ω η : Type} {rules : AccessRules ω η} {role : Option String} {g : Graph ω η}
  {r : Router ω η} {n : Navigation} {t : Transition ω η} {h : Hop ω η} {hops : List (Hop ω η)}

namespace AccessRules

/-- Whether a role may be led into a tree: it is granted to the role, or is the role's fallback. -/
def Opens (rules : AccessRules ω η) (role : Option String) (tree : NodeId) : Prop :=
  rules.check role tree = .granted ∨ (rules.grant? role).bind Grant.onDenied = some tree

/-- A denied tree has no fallback but that of the role. -/
theorem onDenied_of_check {tree fallback : NodeId}
    (h : rules.check role tree = .denied (some fallback)) :
    (rules.grant? role).bind Grant.onDenied = some fallback := by
  unfold check at h
  split at h
  · cases h
  · exact (Option.filter_eq_some_iff.1 (Access.denied.inj h)).1

end AccessRules

namespace Router

/-- The gate lets a target through, or puts a fallback in its place. -/
theorem gated_eq_some {origin : Option NodeId} {target target' : NodeId}
    (h : r.gated origin target = some target') :
    (target' = target ∧ ((∃ o, origin = some o ∧ r.graph.tree target = r.graph.tree o) ∨
      ∀ gate, r.gate = some gate →
        AccessRules.check ⟨r.graph, gate.guestLevel⟩ gate.role (r.graph.tree target) = .granted)) ∨
    ∃ gate, r.gate = some gate ∧
      AccessRules.check ⟨r.graph, gate.guestLevel⟩ gate.role (r.graph.tree target) =
        .denied (some target') := by
  unfold gated at h
  cases hgate : r.gate with
  | none =>
    rw [hgate] at h
    cases h
    exact Or.inl ⟨rfl, Or.inr fun _ h => nomatch h⟩
  | some gate =>
    rw [hgate] at h
    dsimp only at h
    split at h
    · rename_i hsame
      cases h
      obtain ⟨o, ho, htree⟩ := (Option.any_eq_true _ _).1 hsame
      exact Or.inl ⟨rfl, Or.inl ⟨o, ho, (of_decide_eq_true htree).symm⟩⟩
    · cases hcheck : AccessRules.check ⟨r.graph, gate.guestLevel⟩ gate.role (r.graph.tree target) with
      | granted =>
        rw [hcheck] at h
        cases h
        refine Or.inl ⟨rfl, Or.inr ?_⟩
        intro gate' hgate'
        cases hgate'
        exact hcheck
      | denied fallback =>
        rw [hcheck] at h
        cases h
        exact Or.inr ⟨gate, rfl, hcheck⟩

theorem gated_of_same {origin : Option NodeId} {id target : NodeId} (horigin : origin = some id)
    (hsame : r.graph.tree id = r.graph.tree target) : r.gated origin target = some target := by
  unfold gated
  cases r.gate with
  | none => rfl
  | some gate => simp [horigin, hsame]

theorem gated_of_granted {origin : Option NodeId} {target : NodeId} {gate : Gate}
    (hgate : r.gate = some gate)
    (hcheck : AccessRules.check ⟨r.graph, gate.guestLevel⟩ gate.role (r.graph.tree target) = .granted) :
    r.gated origin target = some target := by
  unfold gated
  simp [hgate, hcheck]

theorem gated_of_denied {id target : NodeId} {gate : Gate} {fallback : Option NodeId}
    (hgate : r.gate = some gate) (haway : r.graph.tree target ≠ r.graph.tree id)
    (hcheck : AccessRules.check ⟨r.graph, gate.guestLevel⟩ gate.role (r.graph.tree target) =
      .denied fallback) : r.gated (some id) target = fallback := by
  unfold gated
  simp [hgate, hcheck, haway.symm]

/-- A transition fired at a position of a loaded graph stays in the graph, even when it is denied. -/
theorem step_within (hg : r.graph.Sound) (hn : n.Within r.graph) (ht : r.graph.Declares t)
    (hs : r.step n t = some h) : h.Within r.graph n := by
  refine ⟨hn, ?_, ?_⟩
  · rcases gated_eq_some (step_eq_some hs).1 with ⟨htarget, _⟩ | ⟨gate, _, hcheck⟩
    · rw [htarget]
      exact targetOf_lt hg hn ht
    · exact Graph.lt_size_of_mem_trees
        (hg.onDenied_mem_trees (AccessRules.onDenied_of_check hcheck))
  · rw [step_resumes hs]
    exact completedBy_declared n

theorem chain_within (hg : r.graph.Sound) {left : Nat} (hh : h.Within r.graph n)
    (hc : r.chain n h left = .ok hops) : Along r.graph (Hop.Within r.graph) n hops := by
  refine chain_along ?_ hh hc
  intro n h t h' hh ht hs
  exact step_within hg (hh.advance hg.wellFormed) (Hop.followUp?_declared hh.resumes ht) hs

end Router

/-- A hop that starts at a position and stays in its tree, or comes into one that is open to a role. -/
structure Hop.Allowed (rules : AccessRules ω η) (role : Option String) (n : Navigation)
    (h : Hop ω η) : Prop where
  origin_eq : h.origin = n.current
  tree_open : (∃ o, h.origin = some o ∧ rules.graph.tree h.target = rules.graph.tree o) ∨
    rules.Opens role (rules.graph.tree h.target)

namespace Router

theorem step_allowed (hg : r.graph.Sound) {gate : Gate} (hgate : r.gate = some gate)
    (hs : r.step n t = some h) : h.Allowed ⟨r.graph, gate.guestLevel⟩ gate.role n := by
  have horigin := step_origin hs
  refine ⟨horigin, ?_⟩
  rcases gated_eq_some (step_eq_some hs).1 with ⟨htarget, hsame | hgranted⟩ | ⟨gate', hgate', hcheck⟩
  · rw [horigin, htarget]
    exact Or.inl hsame
  · rw [htarget]
    exact Or.inr (Or.inl (hgranted gate hgate))
  · rw [hgate] at hgate'
    cases hgate'
    have hdenied := AccessRules.onDenied_of_check hcheck
    right
    rw [hg.wellFormed.tree_of_mem_trees (hg.onDenied_mem_trees hdenied)]
    exact Or.inr hdenied

theorem chain_allowed (hg : r.graph.Sound) {gate : Gate} (hgate : r.gate = some gate) {left : Nat}
    (hh : h.Allowed ⟨r.graph, gate.guestLevel⟩ gate.role n) (hc : r.chain n h left = .ok hops) :
    Along r.graph (Hop.Allowed ⟨r.graph, gate.guestLevel⟩ gate.role) n hops :=
  chain_along (fun _ _ _ _ _ _ hs => step_allowed hg hgate hs) hh hc

end Router

/-- Allowed hops end in the tree where they start, or in one that is open to the role. -/
theorem tree_open_of_allowed (rules : AccessRules ω η) {id : NodeId}
    (ha : Along rules.graph (Hop.Allowed rules role) n hops)
    (hid : (n.follow rules.graph hops).current = some id) :
    n.current.map rules.graph.tree = some (rules.graph.tree id) ∨
      rules.Opens role (rules.graph.tree id) := by
  induction hops generalizing n with
  | nil =>
    have hid : n.current = some id := hid
    exact Or.inl (by rw [hid, Option.map_some])
  | cons h rest ih =>
    obtain ⟨⟨horigin, hopen⟩, hrest⟩ := ha
    rcases ih hrest hid with htree | htree
    · rw [Navigation.advance_current, Option.map_some, Option.some.injEq] at htree
      rw [← htree]
      rcases hopen with ⟨o, ho, hsame⟩ | hopen
      · rw [← horigin, ho, Option.map_some, hsame]
        exact Or.inl rfl
      · exact Or.inr hopen
    · exact Or.inr htree

end ChatFlow.Flow
