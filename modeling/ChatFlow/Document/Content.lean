import ChatFlow.Document.Declare
import ChatFlow.Expr.Typing
import ChatFlow.Settings

/-!
Second pass over a document: the content of one node is read, its expressions are compiled, and the
targets of its transitions are looked up in the graph of the first pass.
-/
namespace ChatFlow.Document
open Flow Expr
variable {ω η : Type}

/-- What documents are read against. -/
structure Library (ω η : Type) where
  members : Namespace ω η
  procedures : Procedures ω η
  settings : Settings

/-- Reading of contents, over the number of slots handed out to calls. -/
abbrev Reading (α : Type) := StateT Nat (Except LoadError) α

/-- The node that content is read for. -/
structure Subject (ω η : Type) where
  library : Library ω η
  graph : Flow.Graph ω η
  id : NodeId

namespace Subject

def node (s : Subject ω η) : Node ω η := s.graph.node s.id

def path (s : Subject ω η) : String := s.node.path

def tree (s : Subject ω η) : NodeId := s.node.tree

/-- Owner of the handler in scope. -/
def scope (s : Subject ω η) : Option String := (s.graph.node s.tree).handler

/-- Whether the node is the default branch of its parent. -/
def isDefault (s : Subject ω η) : Bool :=
  s.node.parent.any fun p => (s.graph.node p).fallback == some s.id

/-- The expression of an attribute. A boolean may be written without quotes. -/
def expression (s : Subject ω η) (scope : Option String) (key : String) (expected : Kind)
    (f : Form) : Reading (Expression ω η) := do
  match f, expected with
  | .bool b, .bool => return .literal (.bool b) .bool
  | f, expected =>
    let text ← expectText s.path key f
    fun slots =>
      match (Typing.compileText s.library.members scope expected text).run slots with
      | (.ok e, slots) => .ok (e, slots)
      | (.error e, _) => .error (.expression s.path key e)

/-- One attribute of an action: its guard. -/
def actionGuard (s : Subject ω η) (attributes : List (String × Form)) :
    Reading (Option (Expression ω η)) :=
  attributes.foldlM (fun _ (key, value) => do
    match key with
    | "when" => return some (← s.expression s.scope key .bool value)
    | _ => invalid s.path key .unknownActionAttribute) none

/-- What an action does, from its head and its argument. -/
def deed (s : Subject ω η) (head : String) (argument : Option Form) : Reading (Deed ω η) := do
  match head, argument with
  | "invoke", some f => return .invoke (← s.expression s.scope "invoke" .unit f)
  | "call", some f =>
    let name ← expectText s.path "call" f
    match s.library.procedures.get? name with
    | some procedure => return .call name procedure
    | none => throw (.configuration (.unknownAction s.path name))
  | "clear-cache", none => return .clearCache
  | "invoke", none | "call", none => throw (.configuration (.missingAttribute s.path head))
  | _, _ => invalid s.path head .unknownActionHead

/-- Reads an action. Whatever follows its head and is no keyword is its argument. -/
def action (s : Subject ω η) (f : Form) : Reading (Action ω η) := do
  match f with
  | .list (.symbol head :: rest) =>
    let (argument, rest) := match rest with
      | [] => (none, [])
      | .keyword key :: rest => (none, .keyword key :: rest)
      | f :: rest => (some f, rest)
    let parts ← Parts.ofItems s.path rest
    let guard ← s.actionGuard parts.attributes
    let deed ← s.deed head argument
    return ⟨deed, guard, s.id, s.tree⟩
  | .list _ => invalid s.path "actions" .headlessAction
  | f => invalid s.path "actions" (.notAnAction f.render)

def actions (s : Subject ω η) (fs : List Form) : Reading (List (Action ω η)) := fs.mapM s.action

/-- What the attributes of a transition say. -/
structure Itinerary (ω η : Type) where
  move : Move
  target : Option String
  options : Options ω η

def moveNamed? : String → Option Move
  | "jump" => some .jump
  | "back" => some .back
  | "caller" => some .caller
  | _ => none

def editTarget : String → EditTarget
  | "first" => .first
  | name => .named name

/-- One attribute of a transition. -/
def transitionAttribute (s : Subject ω η) (t : Itinerary ω η) (key : String) (value : Form) :
    Reading (Itinerary ω η) := do
  match key with
  | "type" =>
    let name ← expectText s.path key value
    match moveNamed? name with
    | some move => return { t with move }
    | none => invalid s.path key (.unknownTransitionType name)
  | "target" => return { t with target := some (← expectText s.path key value) }
  | "execute" =>
    let guard ← s.expression s.scope key .bool value
    return { t with options := { t.options with execute := some guard } }
  | "edit" =>
    let name ← expectText s.path key value
    return { t with options := { t.options with edit := some (editTarget name) } }
  | "edit-source" =>
    match ← expectText s.path key value with
    | "last" => return { t with options := { t.options with editSource := some .last } }
    | "callback" => return { t with options := { t.options with editSource := some .callback } }
    | name => invalid s.path key (.unknownEditSource name)
  | "ignore-error" =>
    match value with
    | .bool b => return { t with options := { t.options with ignoreError := b } }
    | f => invalid s.path key (.notABoolean f.render)
  | _ => invalid s.path key .unknownTransitionAttribute

/-- The static target of a transition fired from a node. -/
def transitionTarget (s : Subject ω η) (origin : NodeId) (t : Itinerary ω η) :
    Except LoadError (Option NodeId) :=
  match t.move, t.target with
  | .caller, some _ => invalid s.path "target" .callerWithTarget
  | .jump, none => .error (.configuration (.missingAttribute s.path "target"))
  | .caller, none => .ok none
  | .back, none =>
    if (s.graph.parent origin).isNone then invalid s.path "type" .backFromTree else .ok none
  | move, some name =>
    match s.graph.lookup? (some origin) name with
    | none => .error (.configuration (.unknownTarget s.path name))
    | some target =>
      if move = .back ∧ ¬ s.graph.isAncestor target origin then
        invalid s.path "target" (.notAnAncestor name (s.graph.path origin))
      else .ok (some target)

/-- A transition at a depth below the node's own one, without its actions, from its attributes. -/
def transitionHead (s : Subject ω η) (origin : NodeId) (depth : Nat) (items : List Form) :
    Reading (Transition ω η) := do
  let parts ← Parts.ofItems s.path items
  let options := { Options.plain with ignoreError := s.library.settings.ignoreError }
  let t ← parts.attributes.foldlM (fun t (key, value) => s.transitionAttribute t key value)
    ⟨.jump, none, options⟩
  if t.options.editSource.isSome ∧ t.options.edit.isNone then
    invalid s.path "edit-source" .editSourceWithoutEdit
  let target ← s.transitionTarget origin t
  return ⟨t.move, target, t.options, [], some ⟨s.id, depth⟩⟩

/-- Whether a transition jumps out of the tree that it is declared in. -/
def leavesTree (s : Subject ω η) (t : Transition ω η) : Bool :=
  t.move = .jump ∧ t.target.any fun target => s.graph.tree target ≠ s.tree

mutual

/-- Reads a transition that is fired from a node, with its follow-ups, which are fired from the
tree. -/
def transitions (s : Subject ω η) (origin : NodeId) (depth : Nat) :
    Form → Reading (List (Transition ω η))
  | .list (_ :: items) => do
    let t ← s.transitionHead origin depth items
    let (actions, followUps) ← s.transitionBody (s.leavesTree t) depth [] [] items
    return { t with actions } :: followUps
  | _ => return []
termination_by structural f => f

/-- Reads the nested forms of a transition: its actions, and a follow-up if it leaves its tree. -/
def transitionBody (s : Subject ω η) (leaves : Bool) (depth : Nat) (actions : List (Action ω η))
    (followUps : List (Transition ω η)) :
    List Form → Reading (List (Action ω η) × List (Transition ω η))
  | [] => return (actions, followUps)
  | .keyword _ :: _ :: rest => s.transitionBody leaves depth actions followUps rest
  | .list (.symbol "actions" :: items) :: rest => do
    let more ← s.actions items
    s.transitionBody leaves depth (actions ++ more) followUps rest
  | .list (.symbol "transition" :: items) :: rest => do
    if !followUps.isEmpty then invalid s.path "transition" .secondFollowUp
    if !leaves then invalid s.path "transition" .followUpWithinTree
    let followUps ← s.transitions s.tree (depth + 1) (.list (.symbol "transition" :: items))
    s.transitionBody leaves depth actions followUps rest
  | .list _ :: _ => invalid s.path "transition" .unexpectedInTransition
  | _ :: rest => s.transitionBody leaves depth actions followUps rest
termination_by structural items => items

end

/-- What the forms of a node say. -/
structure Content (ω η : Type) where
  triggers : Triggers
  predicate : Option (Expression ω η)
  accessLevel : Option UInt32
  guard : Option (Expression ω η)
  actions : List (Action ω η)
  exitActions : List (Action ω η)
  reentryActions : List (Action ω η)
  transitions : List (Transition ω η)

def Content.empty : Content ω η := ⟨.none, none, none, none, [], [], [], []⟩

/-- One attribute of a node. A later one of the same name replaces an earlier one, but every
`invoke` adds an action. -/
def nodeAttribute (s : Subject ω η) (c : Content ω η) (key : String) (value : Form) :
    Reading (Content ω η) := do
  let texts := expectTexts s.path key value
  match key, s.node.isTree with
  | "handler", true => return c
  | "commands", true => return { c with triggers := { c.triggers with commands := ← texts } }
  | "keys", _ => return { c with triggers := { c.triggers with keys := ← texts } }
  | "callbacks", _ => return { c with triggers := { c.triggers with callbacks := ← texts } }
  | "predicate", true => return { c with predicate := some (← s.expression none key .bool value) }
  | "access-level", true => return { c with accessLevel := some (← expectLevel s.path key value) }
  | "when", false => return { c with guard := some (← s.expression s.scope key .bool value) }
  | "invoke", false =>
    let e ← s.expression s.scope key .unit value
    return { c with actions := c.actions ++ [⟨.invoke e, none, s.id, s.tree⟩] }
  | _, _ => invalid s.path key .unknownAttribute

/-- One nested form of a node. Branches were read in the first pass. -/
def nodeForm (s : Subject ω η) (c : Content ω η) (items : List Form) : Reading (Content ω η) := do
  match items with
  | .symbol head :: rest =>
    match head with
    | "branch" | "default" => return c
    | "actions" => return { c with actions := c.actions ++ (← s.actions rest) }
    | "on-exit" => return { c with exitActions := c.exitActions ++ (← s.actions rest) }
    | "on-reenter" => return { c with reentryActions := c.reentryActions ++ (← s.actions rest) }
    | "transition" =>
      if !c.transitions.isEmpty then invalid s.path "transition" .secondTransition
      return { c with transitions := ← s.transitions s.id 0 (.list items) }
    | head => invalid s.path head .unknownForm
  | _ => invalid s.path "form" .headlessForm

/-- Reads the content of a node from its parts. -/
def content (s : Subject ω η) (parts : Parts) : Reading (Content ω η) := do
  let c ← parts.attributes.foldlM (fun c (key, value) => s.nodeAttribute c key value) .empty
  let c ← parts.nested.foldlM s.nodeForm c
  if !c.transitions.isEmpty ∧ !s.node.children.isEmpty ∧ !s.node.isTree then
    invalid s.path "transition" .transitionBesideChildren
  if !s.node.isTree ∧ !s.isDefault ∧ c.guard.isNone ∧ c.triggers.isEmpty then
    throw (.configuration (.unreachableBranch s.path))
  return c

end Subject

/-- Puts content into a node. -/
def Subject.Content.fill (c : Subject.Content ω η) (n : Node ω η) : Node ω η :=
  { n with
    spec := match n.spec with
      | .tree spec =>
        .tree { spec with
          triggers := c.triggers, predicate := c.predicate, accessLevel := c.accessLevel }
      | .branch _ => .branch ⟨c.triggers, c.guard⟩
    actions := c.actions
    exitActions := c.exitActions
    reentryActions := c.reentryActions
    transitions := c.transitions }

end ChatFlow.Document
