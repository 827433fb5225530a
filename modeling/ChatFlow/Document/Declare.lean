import ChatFlow.Document.Parts

/-!
First pass over a document: every tree and branch is inserted into the graph, so that all names are
known before the contents of any node are read.
-/
namespace ChatFlow.Document
open Flow Expr
variable {ω η : Type}

/-- A graph of nodes without content, and the parts of each node that are still to be read. Parts
of branches come before those of the node above them. -/
structure Draft (ω η : Type) where
  graph : Flow.Graph ω η
  pending : List (NodeId × Parts)

/-- What a nested list declares below a node. -/
inductive BranchKind where
  | child
  | fallback
deriving DecidableEq

def BranchKind.ofItems? (items : List Form) : Option BranchKind :=
  if Form.isHeadedBy "branch" items then some .child
  else if Form.isHeadedBy "default" items then some .fallback
  else none

/-- Where a declared node goes: to the trees, or below a node. -/
inductive Place where
  | top
  | below (parent : NodeId) (kind : BranchKind)

namespace Place

def parent? : Place → Option NodeId
  | top => none
  | below parent _ => some parent

def isDefault : Place → Bool
  | below _ .fallback => true
  | _ => false

end Place

/-- Name of a declared node. A default branch without a name is named after its parent. -/
def declaredName (g : Flow.Graph ω η) (place : Place) (nameForm : Option Form) :
    Except LoadError String :=
  match nameForm.bind nameOf?, place with
  | some name, _ => .ok name
  | none, .below parent .fallback => .ok ((g.node parent).name ++ "Default")
  | none, .below parent .child =>
    .error (.configuration (.missingAttribute (g.path parent) "name"))
  | none, .top => .error (.configuration (.missingAttribute "<document>" "name"))

/-- Owner of the handler that a tree asks for. -/
def declaredHandler (ns : Namespace ω η) (path : String) (parts : Parts) :
    Except LoadError (Option String) :=
  match parts.attributes.find? fun a => a.1 == "handler" with
  | none => .ok none
  | some (key, value) => do
    let owner ← expectText path key value
    if ns.hasHandler owner then return some owner
    else .error (.configuration (.unknownHandler path owner))

/-- The node that a form declares, still without content, and its parts. -/
def declaredNode (ns : Namespace ω η) (g : Flow.Graph ω η) (place : Place) (items : List Form) :
    Except LoadError (Node ω η × Parts) := do
  let name ← declaredName g place items.head?
  let path := match place.parent? with
    | some parent => g.path parent ++ "/" ++ name
    | none => name
  let named := (items.head?.bind nameOf?).isSome
  let parts ← Parts.ofItems path (if named then items.tail else items)
  match place with
  | .top =>
    let handler ← declaredHandler ns path parts
    return (.fresh name (.tree ⟨.none, none, none, handler⟩), parts)
  | .below .. => return (.fresh name (.branch ⟨.none, none⟩), parts)

mutual

/-- Declares the node of a form and all branches below it. -/
def declare (ns : Namespace ω η) (d : Draft ω η) (place : Place) :
    Form → Except LoadError (Draft ω η)
  | .list (_ :: items) => do
    let id := d.graph.size
    let (node, parts) ← declaredNode ns d.graph place items
    let graph ← liftConfig (d.graph.insert node place.parent? place.isDefault)
    let d ← declareBelow ns { d with graph } id items
    return { d with pending := d.pending ++ [(id, parts)] }
  | _ => .ok d
termination_by structural f => f

/-- Declares the branches among the items of a node, skipping the values of attributes. -/
def declareBelow (ns : Namespace ω η) (d : Draft ω η) (parent : NodeId) :
    List Form → Except LoadError (Draft ω η)
  | [] => .ok d
  | .keyword _ :: _ :: rest => declareBelow ns d parent rest
  | .list items :: rest =>
    match BranchKind.ofItems? items with
    | some kind => do
      let d ← declare ns d (.below parent kind) (.list items)
      declareBelow ns d parent rest
    | none => declareBelow ns d parent rest
  | _ :: rest => declareBelow ns d parent rest
termination_by structural items => items

end

end ChatFlow.Document
