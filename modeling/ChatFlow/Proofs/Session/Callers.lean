import ChatFlow.Proofs.Flow.Callers
import ChatFlow.Proofs.Session.Reachable
import ChatFlow.Proofs.Session.Returns

/-! The waiting trees of a session whose role does not change. -/
namespace ChatFlow
open Flow Expr
variable {ω η : Type} {sc : Scenario ω η} {role : Option String} {s : Session η} {event : Event}
  {world : ω} {route : List (Hop ω η)}

/-- What holds of every session of a loaded graph that has always had the same role. -/
structure Session.Ordered (sc : Scenario ω η) (role : Option String) (s : Session η) : Prop where
  lawful : s.Lawful sc
  role_eq : s.role = role
  stacked : s.navigation.Stacked sc.rules role

theorem Session.ordered_fresh (sc : Scenario ω η) (role : Option String) :
    (fresh role : Session η).Ordered sc role :=
  ⟨lawful_fresh sc role, rfl, Navigation.stacked_nowhere sc.rules role⟩

namespace Run

/-- The gate of a session's routes. -/
def gate (sc : Scenario ω η) (s : Session η) : Gate := ⟨sc.settings.guestLevel, s.role⟩

/-- Every hop of a route is made where the waiting trees are as they should be. -/
theorem Leads.stacks (hg : sc.graph.Sound) (hs : s.Ordered sc role) (h : Leads sc s route) :
    Along sc.graph (Hop.Stacks (router sc s) (gate sc s)) s.navigation route := by
  obtain rfl := hs.role_eq
  obtain ⟨first, hvia, hresumes, hchain⟩ := h.chain
  have hallowed := h.allowed hg
  have hwithin := h.within hg hs.lawful.within
  obtain ⟨rest, rfl⟩ := Router.chain_head hchain
  have hsettled : first.Settled (router sc s) s.navigation :=
    ⟨.plain hvia hresumes, hs.stacked.awaits, fun t ht => nomatch hvia.symm.trans ht⟩
  have hfirst : first.Stacks (router sc s) (gate sc s) s.navigation :=
    ⟨hs.stacked, hsettled, (fun t ht => nomatch hvia.symm.trans ht), hwithin.1, hallowed.1⟩
  exact Router.chain_along (fun n h t h' hh ht hs => hh.next hg rfl ht hs) hfirst hchain

end Run

namespace Session

theorem ordered_handle (hg : sc.graph.Sound) (hs : s.Ordered sc role) (event : Event) (world : ω) :
    (handle sc event s world).2.1.Ordered sc role := by
  obtain rfl := hs.role_eq
  refine ⟨lawful_handle hg hs.lawful event world, ?_, ?_⟩
  · rw [handle_eq]
    exact Run.role_of_handle hg rfl
  · rcases Run.navigation_of_handle hg event s world with hstay | ⟨route, hops, hroute, hprefix, hmove⟩
    · rw [hstay]
      exact hs.stacked
    · rw [hmove]
      have hstacks := (Run.leads_of_route? hg hroute).stacks hg hs
      exact Along.follow_stacked (r := Run.router sc s) hg (Run.gate sc s) hs.stacked
        (hstacks.of_isPrefix hprefix)

theorem ordered_run (hg : sc.graph.Sound) {inputs : List (Input ω)}
    (hfixed : ∀ role', Input.role role' ∈ inputs → role' = role) :
    (run sc (fresh role : Session η) inputs).Ordered sc role := by
  induction inputs using List.reverseRecOn with
  | nil => exact ordered_fresh sc role
  | append_singleton past input ih =>
    have hbefore := ih fun role' hmem => hfixed role' (List.mem_append_left _ hmem)
    rw [run_append]
    cases input with
    | event event world => exact ordered_handle hg hbefore event world
    | role role' =>
      have hsame := hfixed role' (List.mem_append_right _ (List.mem_singleton.2 rfl))
      exact ⟨⟨hbefore.lawful.within, hbefore.lawful.hosted⟩, hsame, hbefore.stacked⟩
    | reset =>
      exact ⟨⟨Navigation.within_nowhere sc.graph, fun h => nomatch h⟩, hbefore.role_eq,
        Navigation.stacked_nowhere sc.rules role⟩

/-- However a session has come about from a fresh one, without a change of its role, the trees that wait
are different and none of them is the current one, so that fewer wait than there are. Each waits for a
jump that is declared in it and leads into another tree. -/
theorem callers_wait_for_jumps {library : Document.Library ω η} {text : String}
    (h : Document.load library text = .ok sc.graph) (role : Option String) {inputs : List (Input ω)}
    (hfixed : ∀ role', Input.role role' ∈ inputs → role' = role) :
    let n := (run sc (fresh role : Session η) inputs).navigation
    (n.callers.map Caller.tree).Nodup ∧
    (∀ id, n.current = some id → ∀ c ∈ n.callers, c.tree ≠ sc.graph.tree id) ∧
    n.callers.length < sc.graph.trees.length ∧
    ∀ c ∈ n.callers, ∃ site t target, c.resume = some site ∧ sc.graph.transitionAt? site = some t ∧
      t.move = .jump ∧ sc.graph.tree site.node = c.tree ∧ t.target = some target ∧
      sc.graph.tree target ≠ c.tree := by
  intro n
  have hg := Document.load_sound h
  have hs : (run sc (fresh role : Session η) inputs).Ordered sc role := ordered_run hg hfixed
  have hstacked := hs.stacked
  exact ⟨hstacked.nodup, hstacked.away, hstacked.length_lt hg hs.lawful.within, hstacked.jumped⟩

/-- A flow of three trees, each but the last with a jump into the next. -/
def cascadeText : String :=
  "(tree A :keys (a) (transition :target B)) (tree B (transition :target C)) (tree C)"

def cascadeLibrary : Document.Library Unit Unit := ⟨.empty, ∅, .default⟩

def cascade : Scenario Unit Unit :=
  ⟨(Document.load cascadeLibrary cascadeText).toOption.getD default, .empty, .default⟩

/-- The last tree is the current one, and the other two wait for their jumps. -/
theorem cascade_waits :
    let n := (run cascade (fresh none : Session Unit) [.event ⟨1, 7, .text "a"⟩ ()]).navigation
    n.current = some 2 ∧ n.callers = [⟨0, some ⟨0, 0⟩⟩, ⟨1, some ⟨1, 0⟩⟩] ∧
      (n.callers.map Caller.tree).Nodup ∧ ∀ c ∈ n.callers, c.Jumped cascade.graph := by
  have hload : Document.load cascadeLibrary cascadeText = .ok cascade.graph :=
    eq_ok_of_isOk (by decide +kernel)
  have hfixed : ∀ role', Input.role role' ∈ [Input.event ⟨1, 7, .text "a"⟩ ()] → role' = none := by
    intro role' hmem
    cases List.mem_singleton.1 hmem
  have hwaits := callers_wait_for_jumps (η := Unit) hload none hfixed
  refine ⟨?_, ?_, hwaits.1, hwaits.2.2.2⟩ <;> decide +kernel

end Session
end ChatFlow
