import ChatFlow.Document.Load
import ChatFlow.Proofs.Session.Carried

/-! What the outcome of an event says is what has become of the session. -/
namespace ChatFlow
open Flow Expr
variable {ω η : Type} {sc : Scenario ω η} {P : NodeId → Prop} {l l' : Live ω η} {s s' : Session η}
  {event : Event} {world : ω} {route runnable : List (Hop ω η)} {landing : Option Landing}

/-- The edit directive of a hop. -/
def Flow.Hop.edit? (h : Hop ω η) : Option (EditTarget × Option EditSource) :=
  h.via.bind fun t => t.options.edit.map fun e => (e, t.options.editSource)

namespace Run

/-- The guards of hops hold when they are evaluated one after another. -/
inductive Pass (sc : Scenario ω η) (event : Event) : Live ω η → List (Hop ω η) → Live ω η → Prop where
  | nil (l : Live ω η) : Pass sc event l [] l
  | cons {l l₁ l₂ : Live ω η} {h : Hop ω η} {rest : List (Hop ω η)}
    (hp : passes sc event h l = (.ok true, l₁)) (hrest : Pass sc event l₁ rest l₂) :
    Pass sc event l (h :: rest) l₂

/-- Whether hops are those of a route before the first one whose guard is false, or all of them when
every guard holds. -/
def CutsTo (sc : Scenario ω η) (event : Event) (l : Live ω η) (route runnable : List (Hop ω η)) :
    Prop :=
  ∃ rest l', route = runnable ++ rest ∧ Pass sc event l runnable l' ∧
    ∀ h ∈ rest.head?, (passes sc event h l').1 = .ok false

theorem executable_cutsTo (hx : executable sc event route l = (.ok runnable, l')) :
    CutsTo sc event l route runnable := by
  induction route generalizing l runnable with
  | nil =>
    cases hx
    exact ⟨[], _, rfl, .nil _, fun _ h => nomatch h⟩
  | cons h route ih =>
    rcases executable_cons_eq hx with ⟨l₁, r, hp, hrest, hr⟩ | ⟨hp, hr⟩ | ⟨e, _, hr⟩
    · cases r with
      | error e => cases hr
      | ok runnable =>
        cases hr
        obtain ⟨rest, l₂, rfl, hpass, hstop⟩ := ih hrest
        exact ⟨rest, l₂, rfl, .cons hp hpass, hstop⟩
    · cases hr
      refine ⟨h :: route, l, rfl, .nil l, ?_⟩
      intro first hfirst
      cases hfirst
      rw [hp]
    · cases hr

/-- The landing of some hops that run after a landing. -/
def landAll (landing : Option Landing) (hops : List (Hop ω η)) : Option Landing :=
  hops.foldl (fun previous h => some (land previous h)) landing

theorem landAll_snoc (landing : Option Landing) (hops : List (Hop ω η)) (h : Hop ω η) :
    landAll landing (hops ++ [h]) = some (land (landAll landing hops) h) := List.foldl_append

theorem hops_landAll {n n' : Navigation} {landing' : Option Landing}
    (hh : hops sc event n landing route l = (.ok (n', landing'), l')) :
    landing' = landAll landing route := by
  induction route generalizing n landing l with
  | nil =>
    cases hh
    rfl
  | cons h rest ih =>
    rcases hops_cons_eq hh with ⟨l₁, _, h₂⟩ | ⟨e, _, hr⟩
    · exact ih h₂
    · cases hr

theorem land_eq (previous : Option Landing) (h : Hop ω η) :
    land previous h = match h.edit? with
      | some edit => ⟨h.target, some edit.1, edit.2⟩
      | none => ⟨h.target, previous.bind Landing.edit, previous.bind Landing.editSource⟩ := by
  rw [land, Hop.edit?]
  cases h.via.bind fun t => t.options.edit.map fun e => (e, t.options.editSource) <;> rfl

/-- Hops land on the last target, with the last of their edit directives. -/
theorem landAll_eq (hops : List (Hop ω η)) :
    (landAll none hops).map Landing.place = hops.getLast?.map Hop.target ∧
    (landAll none hops).bind Landing.edit = (hops.filterMap Hop.edit?).getLast?.map Prod.fst ∧
    (landAll none hops).bind Landing.editSource =
      (hops.filterMap Hop.edit?).getLast?.bind Prod.snd := by
  induction hops using List.reverseRecOn with
  | nil => exact ⟨rfl, rfl, rfl⟩
  | append_singleton hops h ih =>
    obtain ⟨_, hedit, hsource⟩ := ih
    rw [landAll_snoc, land_eq, List.filterMap_append]
    cases he : h.edit? with
    | none => simp [he, hedit, hsource]
    | some edit => simp [he]

end Run

namespace Session

/-- What a landing tells: some hops of a route have run, up to the first false guard, each from where the
hops before it lead, and the session stands where they lead, with their last edit directive. -/
structure Arrived (sc : Scenario ω η) (event : Event) (s s' : Session η) (planned : Live ω η)
    (route ran : List (Hop ω η)) (landing : Landing) : Prop where
  ran_ne_nil : ran ≠ []
  cutsTo : Run.CutsTo sc event planned route ran
  navigation_eq : s'.navigation = s.navigation.follow sc.graph ran
  current_eq : s'.current = some landing.place
  edit_eq : landing.edit = (ran.filterMap Hop.edit?).getLast?.map Prod.fst
  editSource_eq : landing.editSource = (ran.filterMap Hop.edit?).getLast?.bind Prod.snd
  origin_eq : ∀ before hop after, ran = before ++ hop :: after →
    hop.origin = (s.navigation.follow sc.graph before).current

/-- To look at an event moves no session. -/
theorem navigation_survey {p : Run.Plan ω η} {l₁ : Live ω η}
    (hp : Run.plan sc event (.start s world) = (.ok p, l₁)) :
    (Run.survey sc event (.start s world)).session.navigation = s.navigation := by
  have hplan := (Run.plan_proposed hp).frame.navigation_eq
  rw [Run.survey, hp]
  cases p with
  | stay outcome => exact hplan
  | go route made =>
    have hguards : Frame sc (Run.Examined sc event l₁ route) l₁ (Run.executable sc event route l₁).2 :=
      Run.executable_frame
    exact hguards.navigation_eq.trans hplan

/-- Once all hops have run that can be, a session has arrived. -/
theorem arrived_of_hops {made : Option Landing → Outcome} {l₁ l₂ l₃ : Live ω η} {n : Navigation}
    {landing : Landing} (hp : Run.plan sc event (.start s world) = (.ok (.go route made), l₁))
    (hx : Run.executable sc event route l₁ = (.ok runnable, l₂)) (hne : runnable ≠ [])
    (hrun : Run.hops sc event l₂.session.navigation none runnable l₂ = (.ok (n, some landing), l₃)) :
    Arrived sc event s (Run.arrive n l₃).session l₁ route runnable landing := by
  have hsurvey : Run.survey sc event (.start s world) = l₂ := by simp only [Run.survey, hp, hx]
  have hstart : l₂.session.navigation = s.navigation := hsurvey ▸ navigation_survey hp
  have hn : n = s.navigation.follow sc.graph runnable := hstart ▸ (Run.hops_follow hrun).1
  obtain ⟨hplace, hedit, hsource⟩ := Run.landAll_eq runnable
  rw [← Run.hops_landAll hrun] at hplace hedit hsource
  have hmoves := (Run.plan_proposed hp).proposes.resolves.moves.of_isPrefix (Run.executable_isPrefix hx)
  refine ⟨hne, Run.executable_cutsTo hx, hn, ?_, hedit, hsource, ?_⟩
  · change n.current = some landing.place
    rw [hn, Navigation.current_follow _ _ hne, ← hplace]
    rfl
  · intro before hop after hsplit
    exact (hmoves.at_split hsplit).1

/-- However a session has come about, an event that succeeds either leaves it where it stood, with no hop begun
and nothing done but to look at the event; or its outcome is that of the landing of a route that the event asks
for. What is done then, once the event has been looked at, is to carry out the tasks of the hops that have run,
which are to run their actions and to leave their trees, all of them, in order. -/
theorem outcome_tells_position (sc : Scenario ω η) (event : Event) (s : Session η) (world : ω)
    {outcome : Outcome} (hok : (handle sc event s world).1 = .ok outcome) :
    let s' := (handle sc event s world).2.1
    let l := Live.start s world
    let l' := (Run.handle sc event l).2
    let ran := Run.taken sc event l
    (outcome.landing? = none →
      s'.navigation = s.navigation ∧ ran = [] ∧ l' = Run.survey sc event l) ∧
    ∀ landing, outcome.landing? = some landing → ∃ route made planned,
      Run.plan sc event l = (.ok (.go route made), planned) ∧
      Run.Proposes sc s (.go route made) ∧ outcome = made (some landing) ∧
      Arrived sc event s s' planned route ran landing ∧
      ∃ done, Run.carryAll sc event ran (Run.survey sc event l) = (.ok (), done) ∧
        l' = Run.arrive s'.navigation done := by
  rw [handle_eq] at hok ⊢
  rcases hh : Run.handle sc event (.start s world) with ⟨r, l'⟩
  rw [hh] at hok
  have hok : r = .ok outcome := hok
  subst hok
  obtain ⟨ran, htaken, hends⟩ := Run.handle_ends rfl hh
  have htravel : (Run.handle sc event (.start s world)).2 = _ := Run.handle_eq_travel rfl
  rw [hh, htaken] at htravel
  dsimp only at htravel ⊢
  rw [hh, htaken]
  cases hends with
  | stay hp hno hr =>
    cases hr outcome rfl
    refine ⟨fun _ => ⟨htravel ▸ navigation_survey hp, rfl, htravel⟩, ?_⟩
    intro landing hlanding
    rw [(Run.plan_proposed hp).proposes.landing?_stay] at hlanding
    cases hlanding
  | halt hp hr =>
    cases hr outcome rfl
    refine ⟨fun _ => ⟨htravel ▸ navigation_survey hp, rfl, htravel⟩, ?_⟩
    intro landing hlanding
    rw [(Run.plan_proposed hp).proposes.landing?_go] at hlanding
    cases hlanding
  | @move route runnable made l₁ l₂ l₃ n landing hp hx hne hrun =>
    have hproposes := (Run.plan_proposed hp).proposes
    constructor
    · intro hnone
      rw [hproposes.landing?_go] at hnone
      cases hnone
    · intro landing' hlanding
      rw [hproposes.landing?_go] at hlanding
      cases hlanding
      refine ⟨route, made, l₁, hp, hproposes, rfl, arrived_of_hops hp hx hne hrun, l₃, ?_, rfl⟩
      have hsurvey : Run.survey sc event (.start s world) = l₂ := by simp only [Run.survey, hp, hx]
      rw [hsurvey, Run.carryAll_of_hops hrun]
      rfl

/-- A flow with a chain of three hops, of which the last one is never carried out. Every node says when it is
entered and left. -/
def relayText : String :=
  "(tree A :keys (a) (actions (call enter-a)) (on-exit (call leave-a))
  (branch C :keys (c) (actions (call enter-c)) (on-exit (call leave-c)) (transition :target B :edit first)))
(tree B (actions (call enter-b)) (on-exit (call leave-b)) (transition :target D :execute false))
(tree D (actions (call enter-d)))"

/-- Notes its own name. -/
def note (name : String) : String × Procedure (List String) Unit :=
  (name, fun _ => modify fun store => { store with world := store.world ++ [name] })

def relayLibrary : Document.Library (List String) Unit :=
  ⟨.empty, .ofList [note "enter-a", note "leave-a", note "enter-b", note "leave-b", note "enter-c",
    note "leave-c", note "enter-d"], .default⟩

def relay : Scenario (List String) Unit :=
  ⟨(Document.load relayLibrary relayText).toOption.getD default, .empty, .default⟩

/-- The branch is entered and the jump is carried out; the guard of the second tree stops the chain. The actions
of these two hops have run, and none of the third. -/
theorem relay_stops_midway :
    let s := run relay (fresh none : Session Unit) [.event ⟨1, 7, .text "a"⟩ []]
    let event : Event := ⟨2, 7, .text "c"⟩
    let l := Live.start s []
    (Document.load relayLibrary relayText).isOk = true ∧
    (handle relay event s []).1 = .ok (.branched 1 ⟨2, some .first, none⟩) ∧
    ∃ route planned done,
      Arrived relay event s (handle relay event s []).2.1 planned route (Run.taken relay event l)
        ⟨2, some .first, none⟩ ∧
      Run.carryAll relay event (Run.taken relay event l) (Run.survey relay event l) = (.ok (), done) ∧
      done.world = ["enter-c", "leave-c", "leave-a", "enter-b"] := by
  intro s event l
  obtain ⟨hload, hok, hworld⟩ : (Document.load relayLibrary relayText).isOk = true ∧
      (handle relay event s []).1 = .ok (.branched 1 ⟨2, some .first, none⟩) ∧
      (Run.handle relay event l).2.world = ["enter-c", "leave-c", "leave-a", "enter-b"] := by
    decide +kernel
  obtain ⟨route, _, planned, _, _, _, harrived, done, hdone, hend⟩ :=
    (outcome_tells_position relay event s [] hok).2 _ rfl
  have hdoneWorld : done.world = (Run.handle relay event l).2.world := by rw [hend, Run.arrive]
  exact ⟨hload, hok, route, planned, done, harrived, hdone, hdoneWorld.trans hworld⟩

end Session
end ChatFlow
