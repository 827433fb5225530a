import ChatFlow.Proofs.Flow.Cycles
import ChatFlow.Proofs.Flow.Gates

/-! The hops of a chain up to its limit, and where they lead while no transition returns to a caller. -/
namespace ChatFlow.Flow
variable {ω η : Type} {g : Graph ω η} {r : Router ω η} {n : Navigation} {h h' : Hop ω η}
  {t : Transition ω η} {hops : List (Hop ω η)} {left : Nat} {id a b : NodeId} {e : FlowError}

theorem Graph.Leaps.target_lt (hg : g.Sound) (h : g.Leaps a b) : b < g.size := by
  obtain ⟨t, ht, htarget⟩ := Option.bind_eq_some_iff.1 h
  have hid := Graph.lt_size_of_transition ht
  split at htarget
  · rename_i target _ hsome
    cases htarget
    exact hg.target_lt (Graph.declares_transition ht) hsome
  · cases htarget
    cases hp : g.parent a with
    | none => exact hid
    | some p => exact Nat.lt_trans (hg.wellFormed.parent_lt hp) hid
  · cases htarget

namespace Router

/-- The hops that a chain takes until it ends or exceeds its limit. -/
def walk (r : Router ω η) (n : Navigation) (h : Hop ω η) : (left : Nat) → List (Hop ω η)
  | 0 => [h]
  | left + 1 =>
    let n := n.advance r.graph h
    match (h.followUp? r.graph).bind (r.step n) with
    | none => [h]
    | some next => h :: r.walk n next left

/-- Whether a hop is what the transition due after another hop fires. -/
def Follows (r : Router ω η) (h h' : Hop ω η) : Prop :=
  ∃ n t, n.current = some h.target ∧ h.followUp? r.graph = some t ∧ r.step n t = some h'

theorem exists_walk_eq (r : Router ω η) (n : Navigation) (h : Hop ω η) (left : Nat) :
    ∃ rest, r.walk n h left = h :: rest := by
  cases left with
  | zero => exact ⟨[], rfl⟩
  | succ left =>
    rw [walk]
    split
    · exact ⟨[], rfl⟩
    · exact ⟨_, rfl⟩

theorem walk_isChain (r : Router ω η) (n : Navigation) (h : Hop ω η) (left : Nat) :
    (r.walk n h left).IsChain r.Follows := by
  induction left generalizing n h with
  | zero => exact .singleton h
  | succ left ih =>
    rw [walk]
    split
    · exact .singleton h
    · rename_i next hnext
      obtain ⟨t, ht, hs⟩ := Option.bind_eq_some_iff.1 hnext
      have hfollows : r.Follows h next := ⟨n.advance r.graph h, t, rfl, ht, hs⟩
      have hrest := ih (n.advance r.graph h) next
      obtain ⟨rest, hwalk⟩ := r.exists_walk_eq (n.advance r.graph h) next left
      rw [hwalk] at hrest ⊢
      exact .cons_cons hfollows hrest

/-- A chain that ends has taken the hops of its walk. -/
theorem walk_of_chain (hc : r.chain n h left = .ok hops) : r.walk n h left = hops := by
  induction left generalizing n h hops with
  | zero =>
    obtain ⟨_, rfl⟩ := chain_zero_eq_ok.1 hc
    rfl
  | succ left ih =>
    rw [walk]
    rcases chain_succ_eq_ok.1 hc with ⟨hnone, rfl⟩ | ⟨next, rest, hnext, hrest, rfl⟩
    · rw [hnone]
    · rw [hnext]
      exact congrArg (h :: ·) (ih hrest)

/-- A chain fails in one way only: it has taken all hops that are allowed, and another transition is
due. -/
theorem walk_of_error (hc : r.chain n h left = .error e) : e = .transitionChain r.limit ∧
    (r.walk n h left).length = left + 1 ∧
    ∀ hop ∈ r.walk n h left, ∃ t, hop.followUp? r.graph = some t := by
  induction left generalizing n h with
  | zero =>
    obtain ⟨hdue, herror⟩ := chain_zero_eq_error.1 hc
    exact ⟨herror, rfl, List.forall_mem_singleton.2 hdue⟩
  | succ left ih =>
    obtain ⟨next, hnext, hrest⟩ := chain_succ_eq_error.1 hc
    obtain ⟨t, ht, _⟩ := Option.bind_eq_some_iff.1 hnext
    obtain ⟨herror, hlength, hdue⟩ := ih hrest
    rw [walk, hnext]
    exact ⟨herror, congrArg (· + 1) hlength, List.forall_mem_cons.2 ⟨⟨t, ht⟩, hdue⟩⟩

theorem follow_eq_error (hf : r.follow n t = .error e) :
    ∃ h, r.step n t = some h ∧ r.chain n h r.limit = .error e := by
  unfold follow at hf
  cases hs : r.step n t with
  | none =>
    rw [hs] at hf
    cases hf
  | some h =>
    rw [hs] at hf
    exact ⟨h, rfl, map_eq_error.1 hf⟩

/-- Whether the own transition of a node leads on to another one, past the gate. -/
def Relays (r : Router ω η) (a b : NodeId) : Prop :=
  ∃ target, r.graph.Leaps a target ∧ r.gated (some a) target = some b

theorem relays_iff_of_ungated (hgate : r.gate = none) : r.Relays a b ↔ r.graph.Leaps a b := by
  have hgated (target : NodeId) : r.gated (some a) target = some target := by
    unfold gated
    rw [hgate]
  constructor
  · rintro ⟨target, hleap, htarget⟩
    rw [hgated] at htarget
    cases htarget
    exact hleap
  · intro hleap
    exact ⟨b, hleap, hgated b⟩

/-- Unless it returns to a caller, the own transition of a node leads where it does by itself. -/
theorem leaps_targetOf (hg : r.graph.Sound) (hid : n.current = some id)
    (ht : (r.graph.node id).transition? = some t) (hmove : t.move ≠ .caller) :
    r.graph.Leaps id (r.targetOf t n) := by
  have hat := hg.own_at ht
  rw [Graph.Leaps, Graph.automaticTarget?, ht, Option.bind_eq_bind, Option.bind_some, targetOf]
  cases hm : t.move with
  | caller => exact absurd hm hmove
  | jump =>
    obtain ⟨target, htarget⟩ := hat.target_of_jump hm
    simp [htarget]
  | back =>
    cases htarget : t.target with
    | some target => simp
    | none => simp [hid]

theorem resumes_of_step (hs : r.step n t = some h) (hmove : t.move ≠ .caller) : h.resumes = [] := by
  rw [step_resumes hs, completedBy]
  cases hm : t.move with
  | caller => exact absurd hm hmove
  | jump => rfl
  | back => rfl

end Router

/-- After a hop that completes no jump the own transition of its target is due. -/
theorem Hop.followUp?_of_resumes (hr : h.resumes = []) :
    h.followUp? g = (g.node h.target).transition? := by
  rw [followUp?, hr]
  rfl

namespace Router

theorem Follows.relays (hg : r.graph.Sound) (hf : r.Follows h h') (hr : h.resumes = [])
    (hmove : ∀ t, h'.via = some t → r.graph.Declares t → t.move ≠ .caller) :
    r.Relays h.target h'.target ∧ h'.resumes = [] := by
  obtain ⟨n, t, hid, ht, hs⟩ := hf
  rw [Hop.followUp?_of_resumes hr] at ht
  have hmove := hmove t (step_via hs) (Graph.declares_transition ht)
  have hleap := leaps_targetOf hg hid ht hmove
  have hgated := (step_eq_some hs).1
  rw [hid] at hgated
  exact ⟨⟨_, hleap, hgated⟩, resumes_of_step hs hmove⟩

/-- While nothing returns to a caller, the targets of a walk follow the own transitions of the nodes. -/
theorem isChain_relays (hg : r.graph.Sound) (hc : (h :: hops).IsChain r.Follows) (hr : h.resumes = [])
    (hmove : ∀ hop ∈ hops, ∀ t, hop.via = some t → r.graph.Declares t → t.move ≠ .caller) :
    ((h :: hops).map Hop.target).IsChain r.Relays ∧ ∀ hop ∈ h :: hops, hop.resumes = [] := by
  induction hops generalizing h with
  | nil =>
    refine ⟨.singleton _, ?_⟩
    intro hop hhop
    cases List.mem_singleton.1 hhop
    exact hr
  | cons next rest ih =>
    obtain ⟨hfollows, hrest⟩ := List.isChain_cons_cons.1 hc
    obtain ⟨hrelays, hnext⟩ := hfollows.relays hg hr (hmove next List.mem_cons_self)
    obtain ⟨hchain, hresumes⟩ := ih hrest hnext fun hop hhop => hmove hop (List.mem_cons_of_mem _ hhop)
    exact ⟨.cons_cons hrelays hchain, List.forall_mem_cons.2 ⟨hr, hresumes⟩⟩

/-- Whatever is fired after a hop was due after the one before. -/
theorem exists_due_of_mem (hc : (h :: hops).IsChain r.Follows) {hop : Hop ω η} (hhop : hop ∈ hops) :
    ∃ before ∈ (h :: hops).dropLast, ∃ t, before.followUp? r.graph = some t ∧ hop.via = some t := by
  induction hops generalizing h with
  | nil => cases hhop
  | cons next rest ih =>
    obtain ⟨⟨n, t, _, ht, hs⟩, hrest⟩ := List.isChain_cons_cons.1 hc
    rw [List.dropLast_cons_cons]
    rcases List.mem_cons.1 hhop with rfl | hhop
    · exact ⟨h, List.mem_cons_self, t, ht, step_via hs⟩
    · obtain ⟨before, hbefore, hdue⟩ := ih hrest hhop
      exact ⟨before, List.mem_cons_of_mem _ hbefore, hdue⟩

theorem Relays.target_lt (hg : r.graph.Sound) (hr : r.Relays a b) : b < r.graph.size := by
  obtain ⟨target, hleap, hgated⟩ := hr
  rcases gated_eq_some hgated with ⟨rfl, _⟩ | ⟨gate, _, hcheck⟩
  · exact hleap.target_lt hg
  · exact Graph.lt_size_of_mem_trees (hg.onDenied_mem_trees (AccessRules.onDenied_of_check hcheck))

/-- While nothing returns to a caller, a walk visits every node once at most, unless it comes to a node
from which the session would be led back to it. -/
theorem length_le_of_follows (hg : r.graph.Sound) (hc : (h :: hops).IsChain r.Follows)
    (hr : h.resumes = []) (hlt : h.target < r.graph.size)
    (hmove : ∀ hop ∈ hops, ∀ t, hop.via = some t → r.graph.Declares t → t.move ≠ .caller)
    (hback : ∀ b, Relation.ReflTransGen r.Relays h.target b → ¬ Relation.TransGen r.Relays b b) :
    (h :: hops).length ≤ r.graph.size := by
  have hchain := (isChain_relays hg hc hr hmove).1
  have hnodup : ((h :: hops).map Hop.target).Nodup := nodup_of_isChain hback hchain
  have hbound : ∀ id ∈ (h :: hops).map Hop.target, id < r.graph.size :=
    hchain.induction _ _ (fun _ _ hrelays _ => hrelays.target_lt hg) fun _ => hlt
  have hle := Graph.length_le_size hnodup hbound
  rwa [List.length_map] at hle

end Router
end ChatFlow.Flow
