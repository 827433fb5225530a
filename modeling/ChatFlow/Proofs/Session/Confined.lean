import ChatFlow.Proofs.Flow.Confined
import ChatFlow.Proofs.Session.Handling

/-! Handling an event has nothing to do with the world when all that the graph runs is confined, and handlers
are made afresh. -/
namespace ChatFlow
open Flow Expr
variable {ω η α : Type} {sc : Scenario ω η} {world : ω} {l : Live ω η} {event : Event} {tree : NodeId}
  {h : Hop ω η} {route : List (Hop ω η)}

/-- The same session in another world. -/
def Live.inWorld (world : ω) (l : Live ω η) : Live ω η := { l with world }

/-- A handler that is made afresh is the same in every world. -/
theorem Session.ensureHandler_fresh (hfresh : sc.members.MakesFresh) (s : Session η) (tree : NodeId)
    (world world' : ω) :
    s.ensureHandler sc tree world' = ((s.ensureHandler sc tree world).1, world') := by
  unfold ensureHandler
  split
  · rfl
  · split
    · rfl
    · split
      · rfl
      · next factory hfactory =>
        obtain ⟨state, hmake⟩ := hfresh _ factory hfactory
        rw [hmake, hmake]

theorem Live.ensureHandler_inWorld (hfresh : sc.members.MakesFresh) (tree : NodeId) (l : Live ω η) :
    (l.inWorld world).ensureHandler sc tree = (l.ensureHandler sc tree).inWorld world := by
  have hmade := l.session.ensureHandler_fresh hfresh tree l.world world
  unfold ensureHandler
  change Live.mk (l.session.ensureHandler sc tree world).1 (l.session.ensureHandler sc tree world).2
    l.parked = _
  rw [hmade]
  rfl

namespace Run
variable {Q : α → Prop} {fault : EvalError → FlowError} {e : Eval ω η α} {a : Action ω η}
  {actions : List (Action ω η)}

theorem ignores_session : Ignores (Live.inWorld world) (session : Run ω η (Session η)) fun _ => True :=
  ⟨fun _ => rfl, fun _ _ _ => trivial⟩

theorem ignores_resolved (r : Except FlowError α) (hr : ∀ a, r = .ok a → Q a) :
    Ignores (Live.inWorld world) (resolved r : Run ω η α) Q :=
  ⟨fun _ => rfl, fun _ => hr⟩

theorem ignores_forM {f : α → Run ω η Unit} {as : List α}
    (hf : ∀ a ∈ as, Ignores (Live.inWorld world) (f a) fun _ => True) :
    Ignores (Live.inWorld world) (as.forM f) fun _ => True := by
  induction as with
  | nil => exact .pure trivial
  | cons a as ih =>
    obtain ⟨ha, has⟩ := List.forall_mem_cons.1 hf
    exact ha.bind fun _ _ => ih has

theorem ignores_firstSelected {select : NodeId → Run ω η Bool} {ids : List NodeId}
    (hs : ∀ id, Ignores (Live.inWorld world) (select id) fun _ => True) :
    Ignores (Live.inWorld world) (firstSelected select ids) fun _ => True := by
  induction ids with
  | nil => exact .pure trivial
  | cons id ids ih =>
    refine (hs id).bind fun go _ => ?_
    split
    · exact .pure trivial
    · exact ih

theorem ignores_park : Ignores (Live.inWorld world) (park tree : Run ω η Unit) fun _ => True := by
  refine .modify fun l => ?_
  cases hget : l.session.handlers.get? tree <;> simp [Live.inWorld, hget]

section
variable (hfresh : sc.members.MakesFresh)
include hfresh

theorem prepare_inWorld (tree : Option NodeId) (l : Live ω η) :
    prepare sc tree (l.inWorld world) = (prepare sc tree l).inWorld world := by
  cases tree with
  | none => rfl
  | some tree => exact Live.ensureHandler_inWorld hfresh tree l

theorem ignores_evaluate {tree : Option NodeId} (he : Ignores (Memory.inWorld world) e Q) :
    Ignores (Live.inWorld world) (evaluate sc tree fault e) Q := by
  constructor
  · intro l
    rw [evaluate_eq, evaluate_eq, prepare_inWorld hfresh]
    generalize prepare sc tree l = l
    have hmemory : memoryIn sc tree (l.inWorld world) = (memoryIn sc tree l).inWorld world := rfl
    dsimp only
    rw [hmemory, he.same]
    rfl
  · intro l a ha
    rw [evaluate_eq] at ha
    exact he.yields _ a (mapError_eq_ok.1 ha)

theorem ignores_test {tree : Option NodeId} {path : List NodeId} {node : NodeId} {e : Expression ω η}
    (he : e.IsConfined) : Ignores (Live.inWorld world) (test sc event tree path node e) fun _ => True :=
  ignores_evaluate hfresh (Expression.ignores_test he _)

theorem ignores_perform {name : String} {procedure : Procedure ω η}
    (hp : ∀ s, Effect.Confined (procedure s) fun _ => True) :
    Ignores (Live.inWorld world) (perform sc event a name procedure) fun _ => True := by
  unfold perform
  dsimp only
  refine (ignores_evaluate hfresh (Q := fun _ => True) ⟨fun m => ?_, fun _ _ _ => trivial⟩).bind ?_
  · have hsame := (hp ⟨some event, sc.graph.pathTo a.node⟩).perform_inWorld world m.store
    have hstore : (m.inWorld world).store = m.store.inWorld world := rfl
    rw [hstore, hsame]
    rfl
  · intro result _
    cases result with
    | ok u => exact .pure trivial
    | error message => exact .throw _

theorem ignores_doDeed (ha : a.IsConfined) :
    Ignores (Live.inWorld world) (doDeed sc event a) fun _ => True := by
  unfold doDeed
  split
  · next e hdeed =>
    have he := ha.expressions e (by simp [Action.expressions, hdeed])
    exact (ignores_evaluate hfresh (Expression.ignores_evaluate he _)).bind fun _ _ => .pure trivial
  · next name procedure hdeed => exact ignores_perform hfresh (ha.procedure name procedure hdeed)
  · exact .modify fun _ => rfl

theorem ignores_act (ha : a.IsConfined) :
    Ignores (Live.inWorld world) (act sc event a) fun _ => True := by
  rw [act_eq]
  split
  · next guard hguard =>
    have hguard := ha.expressions guard (by simp [Action.expressions, hguard])
    refine (ignores_test hfresh hguard).bind fun go _ => ?_
    split
    · exact .pure trivial
    · exact ignores_doDeed hfresh ha
  · exact ignores_doDeed hfresh ha

theorem ignores_actAll {ignoreError : Bool} (ha : ∀ a ∈ actions, a.IsConfined) :
    Ignores (Live.inWorld world) (actAll sc event ignoreError actions) fun _ => True := by
  refine ignores_forM fun a hmem => ?_
  split
  · exact (ignores_act hfresh (ha a hmem)).tryCatch fun _ => .pure trivial
  · exact ignores_act hfresh (ha a hmem)

theorem ignores_hop (hh : h.IsConfined sc.graph) :
    Ignores (Live.inWorld world) (hop sc event h) fun _ => True := by
  have hactions := List.forall_mem_append.1 hh.actions
  unfold hop
  refine (ignores_actAll hfresh hactions.1).bind fun _ _ => ?_
  refine (ignores_forM fun _ _ => ignores_park).bind fun _ _ => ?_
  exact ignores_actAll hfresh hactions.2

theorem ignores_hops (hr : ∀ h ∈ route, h.IsConfined sc.graph) {n : Navigation}
    {landing : Option Landing} :
    Ignores (Live.inWorld world) (hops sc event n landing route) fun _ => True := by
  induction route generalizing n landing with
  | nil => exact .pure trivial
  | cons h rest ih =>
    obtain ⟨hh, hrest⟩ := List.forall_mem_cons.1 hr
    exact (ignores_hop hfresh hh).bind fun _ _ => ih hrest

theorem ignores_commit (hr : ∀ h ∈ route, h.IsConfined sc.graph) :
    Ignores (Live.inWorld world) (commit sc event route) fun _ => True := by
  unfold commit
  refine ignores_session.bind fun before _ => ?_
  refine Ignores.bind (.modify fun _ => rfl) fun _ _ => ?_
  refine Ignores.tryCatch ((ignores_hops hfresh hr).bind ?_) fun e => ?_
  · rintro ⟨n, landing⟩ _
    cases landing with
    | none => exact .pure trivial
    | some landing => exact Ignores.bind (.modify fun _ => rfl) fun _ _ => .pure trivial
  · exact Ignores.bind (.modify fun _ => rfl) fun _ _ => .throw e

theorem ignores_passes (hh : h.IsConfined sc.graph) :
    Ignores (Live.inWorld world) (passes sc event h) fun _ => True := by
  unfold passes
  split
  · exact .pure trivial
  · next guard hguard => exact ignores_test hfresh (hh.guard guard hguard)

/-- The hops that can be run are of the route. -/
theorem ignores_executable (hr : ∀ h ∈ route, h.IsConfined sc.graph) :
    Ignores (Live.inWorld world) (executable sc event route)
      fun runnable => ∀ h ∈ runnable, h.IsConfined sc.graph := by
  induction route with
  | nil =>
    rw [executable]
    exact .pure (List.forall_mem_nil _)
  | cons h rest ih =>
    obtain ⟨hh, hrest⟩ := List.forall_mem_cons.1 hr
    rw [executable_cons]
    refine (ignores_passes hfresh hh).bind fun go _ => ?_
    split
    · exact (ih hrest).bind fun _ hrunnable => .pure (List.forall_mem_cons.2 ⟨hh, hrunnable⟩)
    · exact .pure (List.forall_mem_nil _)

theorem ignores_execute (hr : ∀ h ∈ route, h.IsConfined sc.graph) :
    Ignores (Live.inWorld world) (execute sc event route) fun _ => True := by
  unfold execute
  refine (ignores_executable hfresh hr).bind fun runnable hrunnable => ?_
  split
  · exact .pure trivial
  · exact ignores_commit hfresh hrunnable

/-- Whether a route that is to be carried out is confined. -/
def Plan.IsConfined (sc : Scenario ω η) : Plan ω η → Prop
  | .stay _ => True
  | .go route _ => ∀ h ∈ route, h.IsConfined sc.graph

section
variable (hg : sc.graph.IsConfined)
include hg

theorem ignores_selectsTree : Ignores (Live.inWorld world) (selectsTree sc event tree) fun _ => True := by
  unfold selectsTree
  split
  · exact .pure trivial
  · next spec hspec =>
    split
    · exact .pure trivial
    · split
      · exact .pure trivial
      · next e he => exact ignores_session.bind fun _ _ => ignores_test hfresh (hg.predicate hspec he)

theorem ignores_selectsBranch {isDefault : Bool} {branch : NodeId} :
    Ignores (Live.inWorld world) (selectsBranch sc event isDefault branch) fun _ => True := by
  unfold selectsBranch
  split
  · exact .pure trivial
  · next spec hspec =>
    split
    · exact .pure trivial
    · split
      · exact .pure trivial
      · next e he => exact ignores_session.bind fun _ _ => ignores_test hfresh (hg.guard hspec he)

omit hfresh in
theorem ignores_enter : Ignores (Live.inWorld world) (enter sc tree) (Plan.IsConfined sc) := by
  have hresolved (s : Session η) (tree : NodeId) : Ignores (Live.inWorld world)
      (resolved ((router sc s).enterTree s.navigation tree) : Run ω η (List (Hop ω η)))
      fun route => ∀ h ∈ route, h.IsConfined sc.graph :=
    ignores_resolved _ fun _ => Router.confined_of_enterTree hg
  unfold enter
  refine ignores_session.bind fun s _ => ?_
  split
  · exact (hresolved s _).bind fun route hroute => .pure hroute
  · exact .pure trivial
  · exact (hresolved s _).bind fun route hroute => .pure hroute

omit hfresh in
theorem ignores_moveTo {made : Landing → Outcome} {branch : NodeId} :
    Ignores (Live.inWorld world) (moveTo sc made branch) (Plan.IsConfined sc) := by
  have hresolved (s : Session η) : Ignores (Live.inWorld world)
      (resolved ((router sc s).routeTo s.navigation branch) : Run ω η (List (Hop ω η)))
      fun route => ∀ h ∈ route, h.IsConfined sc.graph :=
    ignores_resolved _ fun _ => Router.confined_of_routeTo hg
  unfold moveTo
  exact ignores_session.bind fun s _ => (hresolved s).bind fun route hroute => .pure hroute

theorem ignores_planBranch {anchor : NodeId} :
    Ignores (Live.inWorld world) (planBranch sc event anchor) (Plan.IsConfined sc) := by
  refine (ignores_firstSelected fun _ => ignores_selectsBranch hfresh hg).bind fun selected _ => ?_
  cases selected with
  | some branch => exact ignores_moveTo hg
  | none =>
    refine (ignores_firstSelected fun _ => ignores_selectsBranch hfresh hg).bind fun selected _ => ?_
    cases selected with
    | some branch => exact ignores_moveTo hg
    | none => exact .pure trivial

theorem ignores_plan : Ignores (Live.inWorld world) (plan sc event) (Plan.IsConfined sc) := by
  refine (ignores_firstSelected fun _ => ignores_selectsTree hfresh hg).bind fun selected _ => ?_
  cases selected with
  | some tree => exact ignores_enter hg
  | none =>
    refine ignores_session.bind fun s _ => ?_
    cases anchor? sc s with
    | none => exact .pure trivial
    | some anchor => exact ignores_planBranch hfresh hg

theorem ignores_handle : Ignores (Live.inWorld world) (handle sc event) fun _ => True := by
  unfold handle
  refine (ignores_plan hfresh hg).bind fun p hp => ?_
  cases p with
  | stay outcome => exact .pure trivial
  | go route made => exact (ignores_execute hfresh hp).bind fun _ _ => .pure trivial

end
end
end Run

namespace Session

/-- What an event does in a session is the same in every world, and it leaves the world alone. -/
theorem handle_confined (hfresh : sc.members.MakesFresh) (hg : sc.graph.IsConfined) (event : Event) (s : Session η) (world world' : ω) :
    handle sc event s world' = ((handle sc event s world).1, (handle sc event s world).2.1, world') := by
  have hignores : Ignores (Live.inWorld world') (Run.handle sc event) fun _ => True :=
    Run.ignores_handle hfresh hg
  rw [handle_eq, handle_eq]
  have hsame := hignores.same (.start s world)
  change Run.handle sc event (.start s world') = _ at hsame
  rw [hsame]
  rfl

end Session
end ChatFlow
