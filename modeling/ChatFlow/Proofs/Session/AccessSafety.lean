import ChatFlow.Proofs.Document.Loaded
import ChatFlow.Proofs.Session.Carried
import ChatFlow.Proofs.Session.Reachable

/-! No event takes a session into a tree that is closed to its role. -/
namespace ChatFlow.Session
open Flow Expr
variable {ω η : Type} {sc : Scenario ω η} {s : Session η} {event : Event} {world : ω}

/-- The hops of an event are allowed for the role in force, whatever becomes of them. -/
theorem allowed_of_handle (hg : sc.graph.Sound) (event : Event) (s : Session η) (world : ω) :
    Along sc.graph (Hop.Allowed sc.rules s.role) s.navigation
      (Run.taken sc event (.start s world)) := by
  rcases hh : Run.handle sc event (.start s world) with ⟨r, l'⟩
  obtain ⟨hnil | ⟨route, hleads, hprefix⟩, _⟩ := Run.handle_travels hg hh
  · rw [hnil]
    trivial
  · exact (hleads.allowed hg).of_isPrefix hprefix

/-- An event that changes the active tree changes it to one that is open to the role in force. -/
theorem open_of_handle (hg : sc.graph.Sound) {id : NodeId}
    (hid : (handle sc event s world).2.1.current = some id) :
    s.current.map sc.graph.tree = some (sc.graph.tree id) ∨
      sc.rules.Opens s.role (sc.graph.tree id) := by
  have hallowed := allowed_of_handle hg event s world
  rw [handle_eq] at hid
  rcases hh : Run.handle sc event (.start s world) with ⟨r, l'⟩
  rw [hh] at hid
  have hid : l'.session.navigation.current = some id := hid
  obtain ⟨_, hstay | ⟨_, hmove⟩⟩ := Run.handle_travels hg hh
  · rw [hstay] at hid
    exact Or.inl (by rw [current, hid, Option.map_some])
  · rw [hmove] at hid
    exact tree_open_of_allowed sc.rules hallowed hid

/-- However a session has come about from a fresh one, an event leaves behind what the hops that it begins
make of it. Each of them, carried out to the end or not, starts where the hops before it lead, and stays in
its tree or comes into one that is granted to the role in force or is the fallback of that role. So does the
event as a whole. -/
theorem hops_open {library : Document.Library ω η} {text : String}
    (h : Document.load library text = .ok sc.graph) (role : Option String)
    (inputs : List (Input ω)) (event : Event) (world : ω) :
    let s := run sc (fresh role : Session η) inputs
    let l := Live.start s world
    (Run.handle sc event l).2 = Run.travel sc event (Run.taken sc event l) (Run.survey sc event l) ∧
    (∀ before hop after, Run.taken sc event l = before ++ hop :: after →
      hop.Allowed sc.rules s.role (s.navigation.follow sc.graph before)) ∧
    ∀ id, (handle sc event s world).2.1.current = some id →
      s.current.map sc.graph.tree ≠ some (sc.graph.tree id) →
      sc.rules.Opens s.role (sc.graph.tree id) := by
  intro s l
  have hg := Document.load_sound h
  refine ⟨Run.handle_eq_travel rfl, ?_, ?_⟩
  · intro before hop after htaken
    exact (allowed_of_handle hg event s world).at_split htaken
  · intro id hid hne
    exact (open_of_handle hg hid).resolve_left hne

/-- A flow with a role that is granted nothing and has a fallback. -/
def lobbyText : String := "(roles (role v :trees () :on-denied A)) (tree A) (tree B :keys (b))"

def lobbyLibrary : Document.Library Unit Unit := ⟨.empty, ∅, .default⟩

def lobby : Scenario Unit Unit :=
  ⟨(Document.load lobbyLibrary lobbyText).toOption.getD default, .empty, .default⟩

/-- Asking for the second tree, the role is led to the first, which is open to it as its fallback. This is
the one hop of the event, and it is allowed where the session stands. -/
theorem lobby_opens_fallback :
    let l := Live.start (fresh (some "v") : Session Unit) ()
    (∃ hop, Run.taken lobby ⟨1, 7, .text "b"⟩ l = [hop] ∧ hop.target = 0 ∧
      hop.Allowed lobby.rules (some "v") .nowhere) ∧
    (handle lobby ⟨1, 7, .text "b"⟩ (fresh (some "v")) ()).2.1.current = some 0 ∧
      lobby.rules.Opens (some "v") (lobby.graph.tree 0) := by
  intro l
  have hload : Document.load lobbyLibrary lobbyText = .ok lobby.graph :=
    eq_ok_of_isOk (by decide +kernel)
  obtain ⟨_, hallowed, hopen⟩ := hops_open hload (some "v") [] ⟨1, 7, .text "b"⟩ ()
  have hcurrent : (handle lobby ⟨1, 7, .text "b"⟩ (fresh (some "v")) ()).2.1.current = some 0 := by
    decide +kernel
  refine ⟨?_, hcurrent, hopen 0 hcurrent nofun⟩
  have htargets : (Run.taken lobby ⟨1, 7, .text "b"⟩ l).map Hop.target = [0] := by decide +kernel
  obtain ⟨hop, hone, htarget⟩ := List.map_eq_singleton_iff.1 htargets
  exact ⟨hop, hone, htarget, hallowed [] hop [] hone⟩

end ChatFlow.Session
