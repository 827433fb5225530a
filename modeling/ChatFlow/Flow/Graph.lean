import ChatFlow.Flow.Action
import ChatFlow.Flow.Fault
import ChatFlow.Flow.Trigger
import ChatFlow.Text.Split

/-!
The graph of a flow: trees with their branches, in the order in which they were inserted. A parent
is always inserted before its children, so following parents ends at a tree.
-/
namespace ChatFlow.Flow
open Expr
variable {ω η : Type}

/-- How a transition finds its target. -/
inductive Move where
  /-- To a given node. -/
  | jump
  /-- To an ancestor, the parent if none is given. -/
  | back
  /-- To the tree that jumped into the current one. -/
  | caller
deriving DecidableEq

/-- The message to edit where a new one would be sent. -/
inductive EditTarget where
  | first
  /-- The message of a named action. -/
  | named (name : String)
deriving DecidableEq

/-- Where the edited message comes from. -/
inductive EditSource where
  | last
  /-- The message with the pressed button. -/
  | callback
deriving DecidableEq

/-- How a transition is carried out. -/
structure Options (ω η : Type) where
  /-- A false guard cancels the transition. -/
  execute : Option (Expression ω η)
  edit : Option EditTarget
  editSource : Option EditSource
  /-- Whether failing actions are passed over. -/
  ignoreError : Bool

/-- Place of a declared transition: a node, and how deep below its own transition. -/
structure Site where
  node : NodeId
  depth : Nat
deriving DecidableEq

/-- A declared move to another node. -/
structure Transition (ω η : Type) where
  move : Move
  target : Option NodeId
  options : Options ω η
  /-- Run between leaving and entering nodes; a jump into another tree defers them until it is
  returned from. -/
  actions : List (Action ω η)
  /-- Where it is declared; a transition made by hand has no place. -/
  site : Option Site

def Options.plain : Options ω η := ⟨none, none, none, false⟩

/-- A top-level state. -/
structure TreeSpec (ω η : Type) where
  triggers : Triggers
  /-- Decides about entering the tree; evaluated without a handler. -/
  predicate : Option (Expression ω η)
  accessLevel : Option UInt32
  /-- Owner whose handler is active inside the tree. -/
  handler : Option String

/-- A state below another one. -/
structure BranchSpec (ω η : Type) where
  triggers : Triggers
  guard : Option (Expression ω η)

/-- Whether a branch can be selected at all. -/
def BranchSpec.isReachable (b : BranchSpec ω η) : Bool := b.guard.isSome || !b.triggers.isEmpty

inductive NodeSpec (ω η : Type) where
  | tree (spec : TreeSpec ω η)
  | branch (spec : BranchSpec ω η)

structure Node (ω η : Type) where
  name : String
  /-- Names from the tree down to the node, with slashes between them. -/
  path : String
  parent : Option NodeId
  /-- The tree that the node belongs to. -/
  tree : NodeId
  /-- Distance from the tree. -/
  depth : Nat
  /-- Branches below the node, in order, without the default one. -/
  children : List NodeId
  /-- The branch taken when no child is selected. -/
  fallback : Option NodeId
  spec : NodeSpec ω η
  /-- Run when the node is entered. -/
  actions : List (Action ω η)
  /-- Run when the node is left. -/
  exitActions : List (Action ω η)
  /-- Run when a move ends at the node without entering it. -/
  reentryActions : List (Action ω η)
  /-- The transition fired right after the node is entered, then its follow-ups, each fired when
  the jump before it has returned. -/
  transitions : List (Transition ω η)

namespace Node

/-- A node that is in no graph yet. -/
def fresh (name : String) (spec : NodeSpec ω η) : Node ω η :=
  ⟨name, name, none, 0, 0, [], none, spec, [], [], [], []⟩

instance : Inhabited (Node ω η) := ⟨fresh "" (.branch ⟨.none, none⟩)⟩

def isTree (n : Node ω η) : Bool :=
  match n.spec with
  | .tree _ => true
  | .branch _ => false

def tree? (n : Node ω η) : Option (TreeSpec ω η) :=
  match n.spec with
  | .tree spec => some spec
  | .branch _ => none

def branch? (n : Node ω η) : Option (BranchSpec ω η) :=
  match n.spec with
  | .tree _ => none
  | .branch spec => some spec

def triggers (n : Node ω η) : Triggers :=
  match n.spec with
  | .tree spec => spec.triggers
  | .branch spec => spec.triggers

def handler (n : Node ω η) : Option String := n.tree?.bind TreeSpec.handler

/-- The level needed to enter; zero unless a tree asks for more. -/
def accessLevel (n : Node ω η) : UInt32 := (n.tree?.bind TreeSpec.accessLevel).getD 0

/-- The node's own transition. -/
def transition? (n : Node ω η) : Option (Transition ω η) := n.transitions.head?

/-- Every branch below the node, the default one last. -/
def branches (n : Node ω η) : List NodeId := n.children ++ n.fallback.toList

end Node

/-- What a role may enter. -/
structure Grant where
  name : String
  /-- Every tree up to this level. -/
  level : Option UInt32
  /-- These trees, whatever their level. -/
  trees : Option (List NodeId)
  /-- The tree shown instead of a denied one. -/
  onDenied : Option NodeId
deriving DecidableEq

/-- Nodes by their identifiers, and the declared roles. -/
structure Graph (ω η : Type) where
  nodes : List (Node ω η)
  roles : Table String Grant

namespace Graph

def empty : Graph ω η := ⟨[], ∅⟩

instance : Inhabited (Graph ω η) := ⟨empty⟩

def size (g : Graph ω η) : Nat := g.nodes.length

def ids (g : Graph ω η) : List NodeId := List.range g.size

/-- The node with an identifier of this graph. -/
def node (g : Graph ω η) (id : NodeId) : Node ω η := g.nodes.getD id default

def parent (g : Graph ω η) (id : NodeId) : Option NodeId := (g.node id).parent

def tree (g : Graph ω η) (id : NodeId) : NodeId := (g.node id).tree

def path (g : Graph ω η) (id : NodeId) : String := (g.node id).path

/-- The trees in order. -/
def trees (g : Graph ω η) : List NodeId := g.ids.filter fun id => (g.parent id).isNone

def treeNamed? (g : Graph ω η) (name : String) : Option NodeId :=
  g.trees.find? fun id => (g.node id).name == name

/-- The branch of a tree with a name. -/
def branchNamed? (g : Graph ω η) (tree : NodeId) (name : String) : Option NodeId :=
  g.ids.find? fun id => (g.parent id).isSome && g.tree id == tree && (g.node id).name == name

def grant? (g : Graph ω η) (role : String) : Option Grant := g.roles.get? role

def modify (g : Graph ω η) (id : NodeId) (f : Node ω η → Node ω η) : Graph ω η :=
  { g with nodes := g.nodes.modify id f }

/-- Adds a tree; its name must be new among the trees. -/
def insertTree (g : Graph ω η) (n : Node ω η) : Except ConfigError (Graph ω η) :=
  if (g.treeNamed? n.name).isSome then .error (.duplicateName n.name n.name)
  else
    let n := { n with parent := none, tree := g.size, depth := 0, path := n.name }
    .ok { g with nodes := g.nodes ++ [n] }

/-- Adds a branch below a node; its name must be new in the tree. -/
def insertBranch (g : Graph ω η) (n : Node ω η) (parent : NodeId) (isDefault : Bool) :
    Except ConfigError (Graph ω η) :=
  let above := g.node parent
  let path := above.path ++ "/" ++ n.name
  if isDefault && above.fallback.isSome then
    .error (.invalidAttribute above.path "default" .secondDefault)
  else if (g.branchNamed? above.tree n.name).isSome || (g.node above.tree).name == n.name then
    .error (.duplicateName path n.name)
  else
    let n := { n with parent := some parent, tree := above.tree, depth := above.depth + 1, path }
    let id := g.size
    let link (p : Node ω η) : Node ω η :=
      if isDefault then { p with fallback := some id }
      else { p with children := p.children ++ [id] }
    .ok ({ g with nodes := g.nodes ++ [n] }.modify parent link)

/-- Adds a node as a tree, or below a parent. Its identifier is the size of the graph before. -/
def insert (g : Graph ω η) (n : Node ω η) (parent : Option NodeId) (isDefault : Bool) :
    Except ConfigError (Graph ω η) :=
  match parent with
  | none => g.insertTree n
  | some parent => g.insertBranch n parent isDefault

/-- Adds a grant; its name must be new among the roles. -/
def insertGrant (g : Graph ω η) (grant : Grant) : Except ConfigError (Graph ω η) :=
  if g.roles.contains grant.name then .error (.duplicateName "roles" grant.name)
  else .ok { g with roles := g.roles.insert grant.name grant }

/-- Declared transition at a place, with its follow-ups. -/
def transitionsFrom (g : Graph ω η) (site : Site) : List (Transition ω η) :=
  ((g.nodes[site.node]?).map fun n => n.transitions.drop site.depth).getD []

/-- The declared transition at a place. -/
def transitionAt? (g : Graph ω η) (site : Site) : Option (Transition ω η) :=
  (g.transitionsFrom site).head?

/-- A node, its parent, and so on up to the tree. -/
def ancestors (g : Graph ω η) (id : NodeId) : List NodeId :=
  id :: match g.parent id with
    | none => []
    | some p => if p < id then g.ancestors p else []
termination_by id

/-- The nodes from the tree down to a node. -/
def pathTo (g : Graph ω η) (id : NodeId) : List NodeId := (g.ancestors id).reverse

/-- Whether the first node is the second or one of its ancestors. -/
def isAncestor (g : Graph ω η) (ancestor id : NodeId) : Bool := (g.ancestors id).contains ancestor

/-- The deepest node that is an ancestor of both; none across trees. -/
def commonAncestor? (g : Graph ω η) (a b : NodeId) : Option NodeId :=
  if g.tree a = g.tree b then (g.ancestors b).find? (g.ancestors a).contains else none

/-- The parts of a path between its slashes. -/
def segments (path : String) : List String := (Text.split '/' path.toList).map String.ofList

/-- The branch below a node with a name, the default one included. -/
def branchBelow? (g : Graph ω η) (id : NodeId) (name : String) : Option NodeId :=
  (g.node id).branches.find? fun child => (g.node child).name == name

/-- Finds a node by its name as seen from another node: a branch of the same tree, else a tree. A
name with slashes is a path that starts at a tree. -/
def lookup? (g : Graph ω η) (scope : Option NodeId) (name : String) : Option NodeId :=
  match segments name with
  | first :: second :: rest => do
    (second :: rest).foldlM g.branchBelow? (← g.treeNamed? first)
  | _ => (scope.bind fun id => g.branchNamed? (g.tree id) name) <|> g.treeNamed? name

end Graph
end ChatFlow.Flow
