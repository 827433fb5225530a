import ChatFlow.Proofs.Document.Loaded
import ChatFlow.Proofs.Flow.Walks

/-! The check of a graph for cycles bounds its routes, as long as none of them returns to a caller. -/
namespace ChatFlow.Flow
variable {ω η : Type} {g : Graph ω η} {r : Router ω η} {n : Navigation} {first : Hop ω η}
  {a b id : NodeId} {left : Nat} {e : FlowError}

namespace Graph

/-- Where the own transition of a node leads: to the target of a jump or of a way back, or back to the
parent. -/
inductive Forwards (g : Graph ω η) (a b : NodeId) : Prop where
  | jump {t : Transition ω η} (ht : (g.node a).transition? = some t) (hmove : t.move = .jump)
    (htarget : t.target = some b)
  | back {t : Transition ω η} (ht : (g.node a).transition? = some t) (hmove : t.move = .back)
    (htarget : t.target = some b)
  | parent {t : Transition ω η} (ht : (g.node a).transition? = some t) (hmove : t.move = .back)
    (htarget : t.target = none) (hparent : g.parent a = some b)

/-- Whether no transition leads on from a node, or only a return to a caller. -/
def Halts (g : Graph ω η) (id : NodeId) : Prop :=
  ∀ t, (g.node id).transition? = some t → t.move = .caller

/-- The check for cycles follows the declared transitions. A way back without a target would lead from a
tree to itself, and is refused as a cycle. -/
theorem Leaps.forwards (hg : g.Sound) (hacyclic : Acyclic g.Leaps) (h : g.Leaps a b) :
    g.Forwards a b := by
  obtain ⟨t, ht, htarget⟩ := Option.bind_eq_some_iff.1 h
  have hat := hg.own_at ht
  split at htarget
  · rename_i target move hsome
    cases htarget
    cases hmove : t.move with
    | jump => exact .jump ht hmove hsome
    | back => exact .back ht hmove hsome
    | caller => exact nomatch (hat.target_of_caller hmove).symm.trans hsome
  · rename_i hnone hmove
    cases hp : g.parent a with
    | some p =>
      rw [hp] at htarget
      cases htarget
      exact .parent ht hmove hnone hp
    | none =>
      rw [hp] at htarget
      cases htarget
      exact absurd (.single h) (hacyclic a)
  · cases htarget

theorem halts_of_not_leaps (hg : g.Sound) (h : ∀ b, ¬ g.Leaps id b) : g.Halts id := by
  intro t ht
  have hat := hg.own_at ht
  cases hmove : t.move with
  | caller => rfl
  | jump =>
    obtain ⟨target, htarget⟩ := hat.target_of_jump hmove
    exact absurd (by simp [Leaps, automaticTarget?, ht, htarget]) (h target)
  | back =>
    cases htarget : t.target with
    | some target => exact absurd (by simp [Leaps, automaticTarget?, ht, htarget]) (h target)
    | none =>
      exact absurd (by simp [Leaps, automaticTarget?, ht, htarget, hmove]) (h ((g.parent id).getD id))

/-- Own transitions can be followed until none is left, or as far as one likes. -/
theorem exists_leaps (g : Graph ω η) (id : NodeId) (left : Nat) :
    ∃ path, (id :: path).IsChain g.Leaps ∧
      (path.length = left ∨ ∃ last, (id :: path).getLast? = some last ∧ ∀ b, ¬ g.Leaps last b) := by
  induction left generalizing id with
  | zero => exact ⟨[], .singleton id, Or.inl rfl⟩
  | succ left ih =>
    cases hnext : g.automaticTarget? id with
    | none =>
      refine ⟨[], .singleton id, Or.inr ⟨id, rfl, ?_⟩⟩
      intro b hb
      cases hnext.symm.trans hb
    | some next =>
      obtain ⟨path, hchain, hend⟩ := ih next
      refine ⟨next :: path, .cons_cons hnext hchain, ?_⟩
      rcases hend with hlength | ⟨last, hlast, hstop⟩
      · exact Or.inl (congrArg (· + 1) hlength)
      · exact Or.inr ⟨last, by rw [List.getLast?_cons_cons]; exact hlast, hstop⟩

theorem forwarding (hg : g.Sound) (hacyclic : Acyclic g.Leaps) (hid : id < g.size) :
    ∃ path : List NodeId, path.head? = some id ∧ path.IsChain g.Forwards ∧ path.Nodup ∧
      ∃ last, path.getLast? = some last ∧ g.Halts last := by
  obtain ⟨path, hchain, hend⟩ := g.exists_leaps id g.size
  have hnodup := hacyclic.nodup hchain
  have hbound : ∀ b ∈ id :: path, b < g.size :=
    hchain.induction _ _ (fun _ _ hleap _ => hleap.target_lt hg) fun _ => hid
  have hle := length_le_size hnodup hbound
  have hforwards := hchain.imp fun _ _ hleap => hleap.forwards hg hacyclic
  rcases hend with hlength | ⟨last, hlast, hstop⟩
  · rw [List.length_cons] at hle
    omega
  · exact ⟨id :: path, rfl, hforwards, hnodup, last, hlast, halts_of_not_leaps hg hstop⟩

end Graph

namespace Hop

/-- Whether a hop is fired by a return to a caller. -/
def ReturnsToCaller (h : Hop ω η) : Prop := ∃ t, h.via = some t ∧ t.move = .caller

/-- Whether a return to a caller is due after a hop. -/
def AwaitsReturn (g : Graph ω η) (h : Hop ω η) : Prop :=
  ∃ t, h.followUp? g = some t ∧ t.move = .caller

end Hop

namespace Router

theorem acyclic_relays (hgate : r.gate = none) (hacyclic : Acyclic r.graph.Leaps) :
    Acyclic r.Relays := by
  have hsame : r.Relays = r.graph.Leaps := by
    funext a b
    exact propext (relays_iff_of_ungated hgate)
  rwa [hsame]

theorem exists_follows (hgate : r.gate = none) {t : Transition ω η}
    (ht : first.followUp? r.graph = some t) : ∃ next, r.Follows first next := by
  have hstep : ∃ next, r.step (.standing first.target) t = some next := by
    unfold step gated
    rw [hgate]
    exact ⟨_, rfl⟩
  obtain ⟨next, hnext⟩ := hstep
  exact ⟨next, .standing first.target, t, rfl, ht, hnext⟩

/-- An ungated chain that fails within a limit of at least the number of nodes has fired a return to a
caller. -/
theorem returns_of_overlong (hg : r.graph.Sound) (hacyclic : Acyclic r.graph.Leaps)
    (hgate : r.gate = none) (hlimit : r.graph.size ≤ left) (hc : r.chain n first left = .error e)
    (hfirst : first.resumes = []) : ∃ hop ∈ r.walk n first left, hop.ReturnsToCaller := by
  by_contra hno
  obtain ⟨_, hlength, hdue⟩ := walk_of_error hc
  have hchain := r.walk_isChain n first left
  obtain ⟨rest, hwalk⟩ := r.exists_walk_eq n first left
  rw [hwalk] at hno hlength hdue hchain
  have hmove : ∀ hop ∈ rest, ∀ t, hop.via = some t → r.graph.Declares t → t.move ≠ .caller := by
    intro hop hhop t hvia _ hcaller
    exact hno ⟨hop, List.mem_cons_of_mem _ hhop, t, hvia, hcaller⟩
  obtain ⟨t, ht⟩ := hdue first List.mem_cons_self
  rw [Hop.followUp?_of_resumes hfirst] at ht
  have hle := length_le_of_follows hg hchain hfirst (Graph.lt_size_of_transition ht) hmove
    fun b _ => acyclic_relays hgate hacyclic b
  omega

/-- Whatever an overlong chain starts with, a return to a caller is due after one of its hops. The hop
that the last due transition would fire counts as well, since it has no place within the limit. -/
theorem awaits_of_overlong (hg : r.graph.Sound) (hacyclic : Acyclic r.graph.Leaps)
    (hgate : r.gate = none) (hlimit : r.graph.size ≤ left) (hc : r.chain n first left = .error e) :
    ∃ hop ∈ r.walk n first left, hop.AwaitsReturn r.graph := by
  by_contra hno
  obtain ⟨_, hlength, hdue⟩ := walk_of_error hc
  have hchain := r.walk_isChain n first left
  obtain ⟨rest, hwalk⟩ := r.exists_walk_eq n first left
  rw [hwalk] at hno hlength hdue hchain
  have hmove : ∀ hop ∈ first :: rest, ∀ t, hop.followUp? r.graph = some t → t.move ≠ .caller :=
    fun hop hhop t ht hcaller => hno ⟨hop, hhop, t, ht, hcaller⟩
  have hpos : 0 < r.graph.size := by
    obtain ⟨tree, htree⟩ := List.exists_mem_of_ne_nil _ hg.trees_ne_nil
    exact Nat.zero_lt_of_lt (Graph.lt_size_of_mem_trees htree)
  cases rest with
  | nil =>
    have hlength : 1 = left + 1 := hlength
    omega
  | cons second rest =>
    obtain ⟨⟨n, t, _, ht, hs⟩, htail⟩ := List.isChain_cons_cons.1 hchain
    have hresumes := resumes_of_step hs (hmove first List.mem_cons_self t ht)
    obtain ⟨t₂, ht₂⟩ := hdue second (List.mem_cons_of_mem _ List.mem_cons_self)
    rw [Hop.followUp?_of_resumes hresumes] at ht₂
    have hlt := Graph.lt_size_of_transition ht₂
    obtain ⟨last, hlast⟩ : ∃ last, (second :: rest).getLast? = some last := ⟨_, List.getLast?_cons⟩
    obtain ⟨t₃, ht₃⟩ := hdue last (List.mem_cons_of_mem _ (List.mem_of_getLast? hlast))
    obtain ⟨pending, hpending⟩ := exists_follows hgate ht₃
    have hlonger : (second :: (rest ++ [pending])).IsChain r.Follows := by
      refine htail.append (.singleton pending) ?_
      intro hop hhop next hnext
      cases hhop.symm.trans hlast
      cases hnext
      exact hpending
    have hvia : ∀ hop ∈ rest ++ [pending], ∀ t, hop.via = some t → r.graph.Declares t →
        t.move ≠ .caller := by
      intro hop hhop t hvia _
      obtain ⟨before, hbefore, t', ht', hvia'⟩ := exists_due_of_mem hlonger hhop
      cases hvia.symm.trans hvia'
      have hbefore : before ∈ second :: rest := by
        rwa [← List.cons_append, List.dropLast_concat] at hbefore
      exact hmove before (List.mem_cons_of_mem _ hbefore) t ht'
    have hle := length_le_of_follows hg hlonger hresumes hlt hvia
      fun b _ => acyclic_relays hgate hacyclic b
    simp only [List.length_cons, List.length_append, List.length_nil] at hle hlength
    omega

end Router
end ChatFlow.Flow

namespace ChatFlow.Document
open Flow
variable {ω η : Type} {l : Library ω η} {g : Flow.Graph ω η} {text : String}

/-- Own transitions of a loaded graph can be followed from every node, over pairwise distinct nodes, to a
node from which none leads on but perhaps a return to a caller. So an ungated route within a limit of at
least the number of nodes fails only by exceeding the limit, and only after a return to a caller has been
fired. When a transition is followed, which may be such a return itself, another one has come due. -/
theorem overlong_routes_return (h : load l text = .ok g) :
    (∀ id < g.size, ∃ path : List NodeId, path.head? = some id ∧ path.IsChain g.Forwards ∧ path.Nodup ∧
      ∃ last, path.getLast? = some last ∧ g.Halts last) ∧
    ∀ (limit : Nat) (n : Navigation), g.size ≤ limit →
      let r : Router ω η := ⟨g, limit, none⟩
      (∀ target e, r.routeTo n target = .error e → e = .transitionChain limit ∧
        ∃ hop ∈ r.walk n (r.jump n.current target none) limit, hop.ReturnsToCaller) ∧
      (∀ tree e, r.enterTree n tree = .error e → e = .transitionChain limit ∧
        ∃ hop ∈ r.walk n (.between g n.current tree none none []) limit, hop.ReturnsToCaller) ∧
      ∀ t e, r.follow n t = .error e → e = .transitionChain limit ∧ ∃ first, r.step n t = some first ∧
        (∃ hop ∈ r.walk n first limit, hop.ReturnsToCaller) ∧
        ∃ hop ∈ r.walk n first limit, hop.AwaitsReturn g := by
  obtain ⟨hg, _, hacyclic⟩ := load_loads h
  refine ⟨fun id hid => Graph.forwarding hg hacyclic hid, ?_⟩
  intro limit n hlimit r
  refine ⟨?_, ?_, ?_⟩
  · intro target e he
    exact ⟨(Router.walk_of_error he).1, Router.returns_of_overlong hg hacyclic rfl hlimit he rfl⟩
  · intro tree e he
    exact ⟨(Router.walk_of_error he).1, Router.returns_of_overlong hg hacyclic rfl hlimit he rfl⟩
  · intro t e he
    obtain ⟨first, hs, hc⟩ := Router.follow_eq_error he
    refine ⟨(Router.walk_of_error hc).1, first, hs, ?_,
      Router.awaits_of_overlong hg hacyclic rfl hlimit hc⟩
    by_cases hmove : t.move = .caller
    · obtain ⟨rest, hwalk⟩ := r.exists_walk_eq n first limit
      exact ⟨first, hwalk ▸ List.mem_cons_self, t, Router.step_via hs, hmove⟩
    · exact Router.returns_of_overlong hg hacyclic rfl hlimit hc (Router.resumes_of_step hs hmove)

/-- Two trees, of which the first jumps to the second and, after each return, comes back to itself. -/
def shuttleText : String :=
  "(tree A (transition :target B (transition :target A))) (tree B (transition :type caller))"

def shuttleLibrary : Library Unit Unit := ⟨.empty, ∅, .default⟩

def shuttle : Flow.Graph Unit Unit := (load shuttleLibrary shuttleText).toOption.getD default

/-- From nowhere into the first tree: the limit is the number of nodes, and is exceeded. -/
theorem shuttle_returns : shuttle.size = 2 ∧
    (⟨shuttle, 2, none⟩ : Router Unit Unit).routeTo .nowhere 0 = .error (.transitionChain 2) ∧
    ∃ hop ∈ (⟨shuttle, 2, none⟩ : Router Unit Unit).walk .nowhere
      (Router.jump ⟨shuttle, 2, none⟩ none 0 none) 2, hop.ReturnsToCaller := by
  have hload : load shuttleLibrary shuttleText = .ok shuttle := eq_ok_of_isOk (by decide +kernel)
  have hsize : shuttle.size = 2 := by decide +kernel
  have hfails : ((⟨shuttle, 2, none⟩ : Router Unit Unit).routeTo .nowhere 0).isOk = false := by
    decide +kernel
  obtain ⟨e, he⟩ := eq_error_of_isOk hfails
  have hle : shuttle.size ≤ 2 := Nat.le_of_eq hsize
  obtain ⟨hlimit, hreturns⟩ := ((overlong_routes_return hload).2 2 .nowhere hle).1 0 e he
  exact ⟨hsize, by rw [he, hlimit], hreturns⟩

end ChatFlow.Document
