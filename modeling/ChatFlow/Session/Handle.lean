import ChatFlow.Session.Basic

/-!
Handling one event: select a tree or a branch, resolve the route to it, evaluate the guards of the
route, and run its hops. The position changes only when all hops have run; when one fails, the
handlers that were alive before come back.
-/
namespace ChatFlow
open Flow Expr
variable {ω η : Type}

/-- A session while it handles an event, with the world around it. -/
structure Live (ω η : Type) where
  session : Session η
  world : ω
  /-- Handlers of the trees left so far, in the order in which they were left. -/
  parked : List (NodeId × Handler η)

/-- A session when an event arrives. -/
def Live.start (s : Session η) (world : ω) : Live ω η := ⟨s, world, []⟩

/-- Makes the handler of a tree if it has to be. -/
def Live.ensureHandler (l : Live ω η) (sc : Scenario ω η) (tree : NodeId) : Live ω η :=
  let (session, world) := l.session.ensureHandler sc tree l.world
  { l with session, world }

abbrev Run (ω η α : Type) := ExceptT FlowError (StateM (Live ω η)) α

namespace Run

def session : Run ω η (Session η) := Live.session <$> get

def modifySession (f : Session η → Session η) : Run ω η Unit :=
  modify fun l => { l with session := f l.session }

/-- What expressions and procedures see while an event is handled. -/
def memory (l : Live ω η) (handler : Option (Handler η)) : Memory ω η :=
  ⟨⟨l.session.bindings, handler.map Handler.state, l.world⟩, l.session.memos⟩

/-- Takes over what an evaluation changed; the handler of the tree keeps its identity. -/
def absorb (l : Live ω η) (tree : Option NodeId) (m : Memory ω η) : Live ω η :=
  let handlers := match tree with
    | none => l.session.handlers
    | some tree =>
      l.session.handlers.modify tree fun h => { h with state := m.store.handler.getD h.state }
  { l with
    session := { l.session with handlers, bindings := m.store.bindings, memos := m.memos }
    world := m.store.world }

/-- Evaluates in a tree, whose handler is active meanwhile. A failure is reported by `fault`. -/
def evaluateIn {α : Type} (sc : Scenario ω η) (tree : Option NodeId) (fault : EvalError → FlowError)
    (e : Eval ω η α) : Run ω η α := do
  let l ← get
  let handler := tree.bind (l.session.activeHandler? sc)
  let (result, m) := ExceptT.run e (memory l handler)
  set (absorb l (if handler.isSome then tree else none) m)
  match result with
  | .ok a => return a
  | .error e => throw (fault e)

/-- Evaluates in a tree, making the handler of the tree if it has to be. -/
def evaluate {α : Type} (sc : Scenario ω η) (tree : Option NodeId) (fault : EvalError → FlowError)
    (e : Eval ω η α) : Run ω η α := do
  if let some tree := tree then modify (·.ensureHandler sc tree)
  evaluateIn sc tree fault e

/-- Truth of an expression of a node. -/
def test (sc : Scenario ω η) (event : Event) (tree : Option NodeId) (path : List NodeId)
    (node : NodeId) (e : Expression ω η) : Run ω η Bool :=
  evaluate sc tree (.evaluation (sc.graph.path node)) (e.test ⟨some event, path⟩)

/-- Runs a procedure in a tree; it leaves the remembered results alone. -/
def perform (sc : Scenario ω η) (event : Event) (a : Action ω η) (name : String)
    (procedure : Procedure ω η) : Run ω η Unit := do
  let situation : Situation := ⟨some event, sc.graph.pathTo a.node⟩
  let e : Eval ω η (Except String Unit) := fun m =>
    let (result, store) := Effect.perform (procedure situation) m.store
    (.ok result, { m with store })
  match ← evaluate sc (some a.tree) (.evaluation (sc.graph.path a.node)) e with
  | .ok () => return ()
  | .error message => throw (.action (sc.graph.path a.node) name message)

/-- Runs an action unless its guard is false. -/
def act (sc : Scenario ω η) (event : Event) (a : Action ω η) : Run ω η Unit := do
  let path := sc.graph.pathTo a.node
  if let some guard := a.guard then
    if !(← test sc event (some a.tree) path a.node guard) then return ()
  match a.deed with
  | .invoke e =>
    let _ ← evaluate sc (some a.tree) (.evaluation (sc.graph.path a.node))
      (e.evaluate ⟨some event, path⟩)
  | .call name procedure => perform sc event a name procedure
  | .clearCache => modifySession fun s => { s with memos := s.memos.clear }

/-- Runs actions in order, passing over failures if told so. -/
def actAll (sc : Scenario ω η) (event : Event) (ignoreError : Bool) (actions : List (Action ω η)) :
    Run ω η Unit :=
  actions.forM fun a =>
    if ignoreError then tryCatch (act sc event a) fun _ => pure () else act sc event a

/-- Parks the handler of a tree that is left. -/
def park (tree : NodeId) : Run ω η Unit :=
  modify fun l =>
    match l.session.handlers.get? tree with
    | none => l
    | some h =>
      { l with
        session := { l.session with handlers := l.session.handlers.erase tree }
        parked := l.parked ++ [(tree, h)] }

/-- Where a hop lands; edit directives stay in force until another transition has one. -/
def land (previous : Option Landing) (h : Hop ω η) : Landing :=
  let edits := match h.via.bind fun t => t.options.edit.map fun e => (e, t.options.editSource) with
    | some (edit, source) => (some edit, source)
    | none => ((previous.bind Landing.edit), (previous.bind Landing.editSource))
  ⟨h.target, edits.1, edits.2⟩

/-- Runs one hop: actions of nodes left and of the transition, parking, actions of nodes entered. -/
def hop (sc : Scenario ω η) (event : Event) (h : Hop ω η) : Run ω η Unit := do
  let ignoreError := h.via.any fun t => t.options.ignoreError
  actAll sc event ignoreError (h.exitActions sc.graph ++ h.transitionActions sc.graph)
  (h.exits.filter fun id => (sc.graph.node id).isTree).forM park
  actAll sc event ignoreError (h.entryActions sc.graph)

/-- Runs hops in order, from a position and a landing before them. -/
def hops (sc : Scenario ω η) (event : Event) :
    Navigation → Option Landing → List (Hop ω η) → Run ω η (Navigation × Option Landing)
  | n, landing, [] => return (n, landing)
  | n, landing, h :: rest => do
    hop sc event h
    hops sc event (n.advance sc.graph h) (some (land landing h)) rest

/-- Runs hops and moves the session. On a failure the session keeps its position, drops the
handlers made meanwhile, and gets back those that were parked. -/
def commit (sc : Scenario ω η) (event : Event) (route : List (Hop ω η)) :
    Run ω η (Option Landing) := do
  let before ← session
  modify fun l => { l with parked := [] }
  tryCatch
    (do
      let (navigation, landing) ← hops sc event before.navigation none route
      if landing.isSome then modifySession fun s => { s with navigation }
      return landing)
    fun e => do
      modify fun l =>
        let kept := l.session.handlers.restrict before.handlers.contains
        { l with session := { l.session with handlers := kept.insertAll l.parked } }
      throw e

/-- The hops before the first one whose guard is false. -/
def executable (sc : Scenario ω η) (event : Event) : List (Hop ω η) → Run ω η (List (Hop ω η))
  | [] => return []
  | h :: rest => do
    let go ← match h.guard? with
      | none => pure true
      | some guard =>
        let node := h.guardNode
        test sc event (some (sc.graph.tree node)) (sc.graph.pathTo node) node guard
    if go then return h :: (← executable sc event rest) else return []

/-- Carries out a route. Nothing runs when the guard of its first transition is false. -/
def execute (sc : Scenario ω η) (event : Event) (route : List (Hop ω η)) :
    Run ω η (Option Landing) := do
  let runnable ← executable sc event route
  if runnable.length < route.length ∧ runnable.all fun h => h.via.isNone then return none
  commit sc event runnable

/-- Whether an event selects a tree. -/
def selectsTree (sc : Scenario ω η) (event : Event) (tree : NodeId) : Run ω η Bool := do
  match (sc.graph.node tree).tree? with
  | none => return false
  | some spec =>
    if spec.triggers.selects event sc.settings.commandMark sc.settings.botName then return true
    match spec.predicate with
    | none => return false
    | some e => test sc event none ((← session).activePath sc.graph) tree e

/-- Whether an event selects a branch; without triggers and a guard, a default branch always is. -/
def selectsBranch (sc : Scenario ω η) (event : Event) (isDefault : Bool) (branch : NodeId) :
    Run ω η Bool := do
  match (sc.graph.node branch).branch? with
  | none => return false
  | some spec =>
    if spec.triggers.selects event sc.settings.commandMark sc.settings.botName then return true
    match spec.guard with
    | none => return isDefault
    | some e =>
      test sc event (some (sc.graph.tree branch)) ((← session).activePath sc.graph) branch e

/-- The first of some nodes that passes a test. -/
def firstSelected (select : NodeId → Run ω η Bool) : List NodeId → Run ω η (Option NodeId)
  | [] => return none
  | id :: ids => do if ← select id then return some id else firstSelected select ids

/-- Routes for the session's present role. -/
def router (sc : Scenario ω η) (s : Session η) : Router ω η :=
  ⟨sc.graph, sc.settings.chainLimit, some ⟨sc.settings.guestLevel, s.role⟩⟩

/-- A resolved route, or its failure. -/
def resolved {α : Type} (r : Except FlowError α) : Run ω η α := fun l => (r, l)

/-- What an event asks for. -/
inductive Plan (ω η : Type) where
  | stay (outcome : Outcome)
  /-- A route to carry out; the outcome depends on its landing. -/
  | go (route : List (Hop ω η)) (outcome : Option Landing → Outcome)

/-- The outcome of a landing; without one, the route was cancelled where the session stands. -/
def landed (s : Session η) (made : Landing → Outcome) : Option Landing → Outcome
  | some landing => made landing
  | none => .cancelled s.current

/-- Enters a tree, if the role may. -/
def enter (sc : Scenario ω η) (tree : NodeId) : Run ω η (Plan ω η) := do
  let s ← session
  match AccessRules.check ⟨sc.graph, sc.settings.guestLevel⟩ s.role tree with
  | .granted =>
    return .go (← resolved ((router sc s).enterTree s.navigation tree)) (landed s (.entered tree))
  | .denied none => return .stay (.denied tree none)
  | .denied (some fallback) =>
    return .go (← resolved ((router sc s).enterTree s.navigation fallback)) (.denied tree)

/-- Moves to a branch. -/
def moveTo (sc : Scenario ω η) (made : Landing → Outcome) (branch : NodeId) :
    Run ω η (Plan ω η) := do
  let s ← session
  return .go (← resolved ((router sc s).routeTo s.navigation branch)) (landed s made)

/-- The innermost active node that has branches. -/
def anchor? (sc : Scenario ω η) (s : Session η) : Option NodeId := do
  (sc.graph.ancestors (← s.current)).find? fun id => !(sc.graph.node id).branches.isEmpty

/-- Selects what an event asks for. Trees come first, in order; then the branches of the innermost
active node that has any, the default one last. -/
def plan (sc : Scenario ω η) (event : Event) : Run ω η (Plan ω η) := do
  if let some tree ← firstSelected (selectsTree sc event) sc.graph.trees then
    return ← enter sc tree
  match anchor? sc (← session) with
  | none => return .stay .ignored
  | some anchor =>
    let node := sc.graph.node anchor
    if let some branch ← firstSelected (selectsBranch sc event false) node.children then
      return ← moveTo sc (.branched branch) branch
    match ← firstSelected (selectsBranch sc event true) node.fallback.toList with
    | none => return .stay .ignored
    | some branch => moveTo sc (.defaulted branch) branch

/-- Handles one event. -/
def handle (sc : Scenario ω η) (event : Event) : Run ω η Outcome := do
  match ← plan sc event with
  | .stay outcome => return outcome
  | .go route outcome => return outcome (← execute sc event route)

end Run

/-- Handles an event in a session and the world. Both may have changed when handling fails. -/
def Session.handle (sc : Scenario ω η) (event : Event) (s : Session η) (world : ω) :
    Except FlowError Outcome × Session η × ω :=
  let (result, l) := ExceptT.run (Run.handle sc event) (.start s world)
  (result, l.session, l.world)

end ChatFlow
