import ChatFlow.Proofs.Document.Loaded
import ChatFlow.Proofs.Session.Reachable

/-! A failed event leaves a session where it stood, with the handlers that it had, but for trees that
were left more than once on the way. -/
namespace ChatFlow
open Flow Expr
variable {ω η : Type} {sc : Scenario ω η} {l l' : Live ω η} {s : Session η} {event : Event} {world : ω}
  {tree : NodeId} {i : Nat} {e : FlowError}

theorem Live.count_left (l : Live ω η) (tree : NodeId) : l.left.count tree =
    ((l.parked.filter fun e => e.1 = tree).map fun e => e.2.serial).length := by
  rw [left, List.count, List.countP_map, List.countP_eq_length_filter, List.length_map]
  rfl

namespace Run

/-- The handler that a failed run puts back is the first one of its tree when at most one was parked
there; a later one is fresh. -/
theorem restore_instance {before : Session η} (hb : before.instance? tree = some i)
    {new : List Nat} (hl : l.instances tree = i :: new) (hnew : i ∉ new) :
    (∃ j, (restore before l).session.instance? tree = some j) ∧
      ((restore before l).session.instance? tree = some i ↔ l.left.count tree ≤ 1) := by
  rw [instance?_restore, Live.count_left, if_pos (Session.hasHandler_iff.2 ⟨i, hb⟩)]
  rw [Live.instances] at hl
  generalize ((l.parked.filter fun e => e.1 = tree).map fun e => e.2.serial) = parked at hl ⊢
  rcases parked with _ | ⟨j, _ | ⟨k, rest⟩⟩
  · have hcurrent : l.session.instance? tree = some i := by
      cases hc : l.session.instance? tree with
      | none => simp [hc] at hl
      | some j => simp_all
    simp [hcurrent]
  · obtain ⟨rfl, _⟩ := List.cons_eq_cons.1 hl
    simp
  · obtain ⟨rfl, hrest⟩ := List.cons_eq_cons.1 hl
    obtain ⟨last, hlast⟩ : ∃ last, (k :: rest).getLast? = some last :=
      ⟨_, List.getLast?_eq_some_getLast (List.cons_ne_nil k rest)⟩
    have hmem : last ∈ new := by
      rw [← hrest]
      exact List.mem_append_left _ (List.mem_of_getLast? hlast)
    have hne : last ≠ j := fun h => hnew (h ▸ hmem)
    have hlast' : (j :: k :: rest).getLast? = some last := by
      rw [List.getLast?_cons_cons]
      exact hlast
    rw [hlast']
    simp [hne]

end Run

namespace Session

/-- What a failed event does to a position and to a handler that was alive before it. -/
theorem rollback_of_handle (hg : sc.graph.Sound) (hs : s.Lawful sc)
    (he : (handle sc event s world).1 = .error e) :
    (handle sc event s world).2.1.navigation = s.navigation ∧
    ∀ tree i, s.instance? tree = some i →
      (∃ j, (handle sc event s world).2.1.instance? tree = some j) ∧
      ((handle sc event s world).2.1.instance? tree = some i ↔
        (Run.handle sc event (.start s world)).2.left.count tree ≤ 1) := by
  rw [handle_eq] at he ⊢
  rcases hh : Run.handle sc event (.start s world) with ⟨r, l'⟩
  rw [hh] at he
  have he : r = .error e := he
  subst he
  have hkept {P : NodeId → Prop} {l : Live ω η} (hf : Frame sc P (.start s world) l) (tree : NodeId)
      (i : Nat) (hi : s.instance? tree = some i) : (∃ j, l.session.instance? tree = some j) ∧
        (l.session.instance? tree = some i ↔ l.left.count tree ≤ 1) := by
    have hleft : l.left = [] := congrArg (List.map Prod.fst) hf.parked_eq
    exact ⟨⟨i, hf.kept hi⟩, by simp [hf.kept hi, hleft]⟩
  constructor
  · obtain ⟨_, hnav | ⟨⟨_, hok⟩, _⟩⟩ := Run.handle_travels hg hh
    · exact hnav
    · cases hok
  · intro tree i hi
    obtain ⟨runnable, _, hends⟩ := Run.handle_ends rfl hh
    cases hends with
    | stay hp _ => exact hkept (Run.plan_planned hg hp).frame tree i hi
    | halt hp => exact hkept (Run.frame_of_route hg hp) tree i hi
    | @fail route runnable made l₁ l₂ l₃ e hp hx hrun =>
      have hf := Run.frame_of_executable hg hp hx
      have hgrows : Live.Grows sc l₂ l₃ := Run.hops_grows _ _ _ hrun
      obtain ⟨new, hnew, hfresh⟩ := hgrows.instances_grow tree
      have hl₂ : l₂.instances tree = [i] := by
        rw [Live.instances, hf.parked_eq, hf.kept hi]
        rfl
      rw [hl₂] at hnew
      apply Run.restore_instance (hf.kept hi) hnew
      intro hmem
      have hold : i < s.nextSerial := (hs.hosted hi).2
      have hle : s.nextSerial ≤ l₂.session.nextSerial := hf.serial_le
      have hnew : l₂.session.nextSerial ≤ i := (hfresh i hmem).2.1
      omega

/-- However a session has come about from a fresh one, an event that fails leaves it where it stood.
Each handler that was alive before is still alive afterwards if its tree was left at most once with a
handler; otherwise another handler has taken its place. -/
theorem handlers_after_failure {library : Document.Library ω η} {text : String}
    (h : Document.load library text = .ok sc.graph) (role : Option String)
    (inputs : List (Input ω)) (event : Event) (world : ω) {e : FlowError}
    (he : (handle sc event (run sc (fresh role : Session η) inputs) world).1 = .error e) :
    let s := run sc (fresh role : Session η) inputs
    let s' := (handle sc event s world).2.1
    s'.navigation = s.navigation ∧ ∀ tree i, s.instance? tree = some i →
      (∃ j, s'.instance? tree = some j) ∧
      (s'.instance? tree = some i ↔
        (Run.handle sc event (.start s world)).2.left.count tree ≤ 1) := by
  have hg := Document.load_sound h
  exact rollback_of_handle hg (lawful_run hg role inputs) he

/-- A flow of one tree whose action fails for one of the texts that select it. -/
def againText : String := "(tree A :handler P :keys (a b) (actions (call f)))"

def againLibrary : Document.Library Unit Unit :=
  ⟨Namespace.empty.registerHandler "P" (), .ofList [("f", fun situation =>
    if situation.event.any fun event => event.payload = .text "b" then throw "no" else pure ())],
    .default⟩

def again : Scenario Unit Unit :=
  ⟨(Document.load againLibrary againText).toOption.getD default, againLibrary.members, .default⟩

/-- Leaving the tree to enter it again fails, and the handler that was parked comes back. -/
theorem again_keeps_handler : (handle again ⟨2, 7, .text "b"⟩
    (run again (fresh none) [.event ⟨1, 7, .text "a"⟩ ()]) ()).2.1.instance? 0 = some 0 := by
  have hload : Document.load againLibrary againText = .ok again.graph :=
    eq_ok_of_isOk (by decide +kernel)
  obtain ⟨e, he⟩ := eq_error_of_isOk (x := (handle again ⟨2, 7, .text "b"⟩
    (run again (fresh none) [.event ⟨1, 7, .text "a"⟩ ()]) ()).1) (by decide +kernel)
  refine (((handlers_after_failure hload none _ _ () he).2 0 0 ?_).2).2 ?_
  · decide +kernel
  · decide +kernel

/-- A flow in which a jump returns to its tree, whose next jump fails. -/
def detourText : String :=
  "(tree A :handler P :keys (a) (actions (call v))
  (branch C :keys (c) (transition :target B (transition :target D :ignore-error false)))
  (branch M :keys (m) (on-reenter (call v))))
(tree B (transition :type caller))
(tree D (actions (call f)))"

def detourLibrary : Document.Library Unit Unit :=
  ⟨Namespace.empty.registerHandler "P" (),
    .ofList [("v", fun _ => pure ()), ("f", fun _ => throw "no")], .default⟩

def detour : Scenario Unit Unit :=
  ⟨(Document.load detourLibrary detourText).toOption.getD default, detourLibrary.members, .default⟩

/-- The tree is left twice before the failure, and the handler of its second visit stays. -/
theorem detour_replaces_handler :
    let s := run detour (fresh none : Session Unit) [.event ⟨1, 7, .text "a"⟩ (),
      .event ⟨2, 7, .text "m"⟩ (), .event ⟨3, 7, .text "m"⟩ ()]
    (Document.load detourLibrary detourText).isOk = true ∧
      (handle detour ⟨4, 7, .text "c"⟩ s ()).1.isOk = false ∧ s.instance? 0 = some 0 ∧
      (handle detour ⟨4, 7, .text "c"⟩ s ()).2.1.instance? 0 = some 1 := by
  decide +kernel

end Session
end ChatFlow
