import ChatFlow.Proofs.Flow.Gates
import ChatFlow.Proofs.Flow.Stays

/-! A jump is completed in the tree in which it is declared, until the access rules turn a return
away. -/
namespace ChatFlow.Flow
variable {ω η : Type} {g : Graph ω η} {rules : AccessRules ω η} {role : Option String}
  {r : Router ω η} {n : Navigation} {t t' : Transition ω η} {h h' : Hop ω η} {hops : List (Hop ω η)}
  {left k : Nat} {site : Site} {gate : Gate}

/-- The tree in which a transition is declared. -/
def Transition.home? (g : Graph ω η) (t : Transition ω η) : Option NodeId :=
  t.site.map fun site => g.tree site.node

/-- Whether each waiting tree is the one in which its jump is declared. -/
def Navigation.Awaits (g : Graph ω η) (n : Navigation) : Prop :=
  ∀ c ∈ n.callers, ∀ site, c.resume = some site → c.tree = g.tree site.node

namespace Hop

/-- Whether a jump that the hop completes is declared in the tree to which the hop leads. -/
def Returns (g : Graph ω η) (h : Hop ω η) : Prop :=
  ∀ t ∈ h.resumed?, t.home? g = some h.target

instance (g : Graph ω η) (h : Hop ω η) : Decidable (h.Returns g) :=
  inferInstanceAs (Decidable (∀ t ∈ h.resumed?, t.home? g = some h.target))

/-- Whether the hop completes a jump although the access rules have turned it away from the tree that
waits for the jump. -/
def Diverted (rules : AccessRules ω η) (role : Option String) (n : Navigation) (h : Hop ω η) : Prop :=
  h.resumed?.isSome = true ∧ ∃ c, n.callers.getLast? = some c ∧
    rules.check role c.tree = .denied (some h.target)

/-- How a router makes hops: the first one of a route is no transition's, and the others are fired where
the hops before them lead. -/
inductive Fired (r : Router ω η) (n : Navigation) (h : Hop ω η) : Prop where
  | plain (hvia : h.via = none) (hresumes : h.resumes = [])
  | step {t : Transition ω η} {id : NodeId} (hcurrent : n.current = some id) (hs : r.step n t = some h)

end Hop

/-- A tree is not its own fallback. -/
theorem AccessRules.ne_of_check {tree fallback : NodeId}
    (h : rules.check role tree = .denied (some fallback)) : fallback ≠ tree := by
  unfold check at h
  split at h
  · cases h
  · exact of_decide_eq_true (Option.filter_eq_some_iff.1 (Access.denied.inj h)).2

theorem Graph.Sound.site_of_transitionsFrom (hg : g.Sound) (ht : (g.transitionsFrom site)[k]? = some t) :
    t.site = some ⟨site.node, site.depth + k⟩ ∧ site.node < g.size := by
  unfold Graph.transitionsFrom at ht
  cases hn : g.nodes[site.node]? with
  | none => simp [hn] at ht
  | some n =>
    obtain ⟨hlt, _⟩ := List.getElem?_eq_some_iff.1 hn
    have hnode : g.node site.node = n := by simp [Graph.node, hn]
    simp only [hn, Option.map_some, Option.getD_some, List.getElem?_drop] at ht
    exact ⟨((hg.owns site.node).declared _ t (hnode ▸ ht)).site_eq, hlt⟩

theorem Graph.WellFormed.tree_tree (hg : g.WellFormed) {id : NodeId} (h : id < g.size) :
    g.tree (g.tree id) = g.tree id :=
  hg.tree_of_mem_trees (hg.tree_mem_ancestors h).2

namespace Router

/-- Only a return completes a jump: that of the last waiting tree. -/
theorem step_resumed (hg : r.graph.Sound) (hs : r.step n t = some h) (ht' : h.resumed? = some t') :
    t.move = .caller ∧ ∃ c site, n.callers.getLast? = some c ∧ c.resume = some site ∧
      r.targetOf t n = c.tree ∧ h.resumes = r.graph.transitionsFrom site ∧
      t'.site = some site ∧ site.node < r.graph.size := by
  have hresumes := step_resumes hs
  have hhead := ht'
  rw [Hop.resumed?, hresumes] at ht'
  cases hmove : t.move with
  | jump => simp [completedBy, hmove] at ht'
  | back => simp [completedBy, hmove] at ht'
  | caller =>
    simp only [completedBy, hmove] at ht' hresumes
    cases hc : n.callers.getLast? with
    | none => simp [hc] at ht'
    | some c =>
      cases hsite : c.resume with
      | none => simp [hc, hsite] at ht'
      | some site =>
        simp only [hc, hsite, Option.bind_some, Option.map_some, Option.getD_some] at hresumes
        rw [Hop.resumed?, hresumes, List.head?_eq_getElem?] at hhead
        refine ⟨rfl, c, site, rfl, hsite, by simp [targetOf, hmove, hc], hresumes, ?_⟩
        exact hg.site_of_transitionsFrom hhead

theorem resumed?_of_jump (hg : r.graph.Sound) (hs : r.step n t = some h) (hmove : t.move = .jump) :
    h.resumed? = none := by
  cases hr : h.resumed? with
  | none => rfl
  | some t' => exact absurd ((step_resumed hg hs hr).1.symm.trans hmove) nofun

end Router

namespace Hop

/-- A hop made where every waiting tree is that of its jump, by a transition of the current tree. -/
structure Settled (r : Router ω η) (n : Navigation) (h : Hop ω η) : Prop where
  fired : h.Fired r n
  awaits : n.Awaits r.graph
  home : ∀ t, h.via = some t → t.home? r.graph = n.current.map r.graph.tree

/-- From where it is settled, a return that completes a jump ends in the tree of this jump, unless it is
turned away. -/
theorem Settled.returns_iff (hg : r.graph.Sound) (hgate : r.gate = some gate) (hh : h.Settled r n) :
    h.Returns r.graph ↔ ¬ h.Diverted ⟨r.graph, gate.guestLevel⟩ gate.role n := by
  cases hr : h.resumed? with
  | none => simp [Returns, Diverted, hr]
  | some t' =>
    cases hh.fired with
    | plain _ hresumes => simp [resumed?, hresumes] at hr
    | step hcurrent hs =>
      obtain ⟨_, c, site, hc, hsite, htarget, _, hplace, hlt⟩ := Router.step_resumed hg hs hr
      have htree := hh.awaits c (List.mem_of_getLast? hc) site hsite
      have hhome : t'.home? r.graph = some c.tree := by
        rw [Transition.home?, hplace, Option.map_some, htree]
      have hreturns : h.Returns r.graph ↔ h.target = c.tree := by
        simp [Returns, hr, hhome, eq_comm]
      have hroot : r.graph.tree c.tree = c.tree := by rw [htree, hg.wellFormed.tree_tree hlt]
      rw [hreturns]
      rcases Router.gated_eq_some (Router.step_eq_some hs).1 with ⟨hsame, _⟩ | ⟨gate', hgate', hcheck⟩
      · refine iff_of_true (hsame.trans htarget) ?_
        rintro ⟨_, c', hc', hdenied⟩
        cases hc.symm.trans hc'
        exact AccessRules.ne_of_check hdenied (hsame.trans htarget)
      · cases hgate.symm.trans hgate'
        rw [htarget, hroot] at hcheck
        exact iff_of_false (AccessRules.ne_of_check hcheck)
          (not_not_intro ⟨by rw [hr]; rfl, c, hc, hcheck⟩)

theorem Settled.advance_awaits (hh : h.Settled r n) : (n.advance r.graph h).Awaits r.graph := by
  intro c hc site hsite
  have hmem := (List.takeWhile_sublist _).subset hc
  rcases Navigation.mem_callersAfter hmem with hold | ⟨t, id, hvia, hid, rfl⟩
  · exact hh.awaits c hold site hsite
  · have hhome := hh.home t hvia
    have hsite : t.site = some site := hsite
    rw [Transition.home?, hsite, hid] at hhome
    exact (Option.some.inj hhome).symm

/-- The transition that fires after a return that is not turned away is declared where the hop ends. -/
theorem Settled.followUp_home (hg : r.graph.Sound) (hh : h.Settled r n) (hr : h.Returns r.graph)
    (ht : h.followUp? r.graph = some t) : t.home? r.graph = some (r.graph.tree h.target) := by
  unfold followUp? at ht
  cases hnext : h.resumes[1]? with
  | none =>
    rw [hnext] at ht
    have hplace := (hg.own_at ht).site_eq
    rw [Transition.home?, hplace, Option.map_some]
  | some t₁ =>
    rw [hnext] at ht
    cases ht
    cases hh.fired with
    | plain _ hresumes => simp [hresumes] at hnext
    | step hcurrent hs =>
      obtain ⟨t', ht'⟩ : ∃ t', h.resumed? = some t' := by
        cases hl : h.resumes with
        | nil => simp [hl] at hnext
        | cons t' rest => exact ⟨t', by rw [resumed?, hl]; rfl⟩
      obtain ⟨_, c, site, hc, hsite, _, hresumes, hplace, hlt⟩ := Router.step_resumed hg hs ht'
      obtain ⟨hnextPlace, _⟩ := hg.site_of_transitionsFrom (hresumes ▸ hnext)
      have htarget := hr t' ht'
      rw [Transition.home?, hplace, Option.map_some, Option.some.injEq] at htarget
      rw [Transition.home?, hnextPlace, Option.map_some, ← htarget, hg.wellFormed.tree_tree hlt]

/-- The hop after a return that is not turned away is settled as well. -/
theorem Settled.next (hg : r.graph.Sound) (hh : h.Settled r n) (hr : h.Returns r.graph)
    (ht : h.followUp? r.graph = some t) (hs : r.step (n.advance r.graph h) t = some h') :
    h'.Settled r (n.advance r.graph h) := by
  refine ⟨.step rfl hs, hh.advance_awaits, ?_⟩
  intro t' ht'
  cases (Router.step_via hs).symm.trans ht'
  exact hh.followUp_home hg hr ht

end Hop

namespace Router

/-- Along a route all completed jumps return to their trees exactly when no return is turned away. -/
theorem chain_returns_iff (hg : r.graph.Sound) (hgate : r.gate = some gate) (hh : h.Settled r n)
    (hc : r.chain n h left = .ok hops) :
    (Along r.graph (fun _ hop => hop.Returns r.graph) n hops ↔
      Along r.graph (fun n hop => ¬ hop.Diverted ⟨r.graph, gate.guestLevel⟩ gate.role n) n hops) ∧
    (Along r.graph (fun _ hop => hop.Returns r.graph) n hops →
      Along r.graph (fun n hop => hop.Settled r n) n hops) := by
  have hsettled : Along r.graph (fun _ hop => hop.Returns r.graph) n hops →
      Along r.graph (fun n hop => hop.Settled r n) n hops :=
    chain_along_while (fun n h t h' hh hr ht hs => hh.next hg hr ht hs) hh hc
  refine ⟨⟨fun hr => ?_, fun hd => ?_⟩, hsettled⟩
  · exact (hsettled hr).imp₂ (fun n h hh hr => (hh.returns_iff hg hgate).1 hr) hr
  · have hsettled := chain_along_while (fun n h t h' hh hd ht hs =>
      hh.next hg ((hh.returns_iff hg hgate).2 hd) ht hs) hh hc hd
    exact hsettled.imp₂ (fun n h hh hd => (hh.returns_iff hg hgate).2 hd) hd

end Router

/-- After settled hops every waiting tree is that of its jump. -/
theorem Along.follow_awaits (hn : n.Awaits r.graph)
    (ha : Along r.graph (fun n hop => hop.Settled r n) n hops) :
    (n.follow r.graph hops).Awaits r.graph := by
  induction hops generalizing n with
  | nil => exact hn
  | cons h rest ih => exact ih ha.1.advance_awaits ha.2

end ChatFlow.Flow
