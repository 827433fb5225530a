import ChatFlow.Expr.Eval

/-!
Why a document cannot be loaded, and why an event cannot be handled. Messages name the path of the
node at fault.
-/
namespace ChatFlow.Flow

/-- What is wrong with an attribute or a nested form. -/
inductive Flaw where
  | missingValue
  | unexpectedItem (found : String)
  | notAString (found : String)
  | notAnInteger (found : String)
  | notABoolean (found : String)
  | levelOutOfRange (level : Int)
  | unknownAttribute
  | unknownActionAttribute
  | unknownTransitionAttribute
  | unknownRoleAttribute
  | headlessForm
  | unknownForm
  | secondDefault
  | secondTransition
  /-- A branch that has branches of its own is no place to move on from at once. -/
  | transitionBesideChildren
  | notAnAction (found : String)
  | headlessAction
  | unknownActionHead
  | unknownTransitionType (found : String)
  | unknownEditSource (found : String)
  | editSourceWithoutEdit
  | callerWithTarget
  | notAnAncestor (target node : String)
  | backFromTree
  | unexpectedInTransition
  | secondFollowUp
  /-- Only a jump that leaves its tree is returned from. -/
  | followUpWithinTree
deriving DecidableEq

def Flaw.message : Flaw → String
  | missingValue => "attribute is missing its value"
  | unexpectedItem found => s!"unexpected {found}"
  | notAString found => s!"expected string, found {found}"
  | notAnInteger found => s!"expected integer, found {found}"
  | notABoolean found => s!"expected true or false, found {found}"
  | levelOutOfRange level => s!"level {level} is out of range"
  | unknownAttribute => "unknown attribute"
  | unknownActionAttribute => "unknown action attribute"
  | unknownTransitionAttribute => "unknown transition attribute"
  | unknownRoleAttribute => "unknown role attribute"
  | headlessForm => "nested forms must start with a symbol"
  | unknownForm => "unknown form"
  | secondDefault => "only one default branch is allowed"
  | secondTransition => "only one transition is allowed"
  | transitionBesideChildren => "a branch with child branches cannot declare a transition"
  | notAnAction found => s!"expected an action form, found {found}"
  | headlessAction => "action forms must start with a symbol"
  | unknownActionHead => "unknown action"
  | unknownTransitionType found => s!"unknown transition type '{found}'"
  | unknownEditSource found => s!"expected last or callback, found '{found}'"
  | editSourceWithoutEdit => "'edit' must be set as well"
  | callerWithTarget => "caller transitions take no target"
  | notAnAncestor target node => s!"'{target}' is not an ancestor of {node}"
  | backFromTree => "back from a tree needs a target"
  | unexpectedInTransition => "expected (actions ...) or (transition ...)"
  | secondFollowUp => "only one follow-up transition is allowed"
  | followUpWithinTree => "only a jump into another tree can carry a follow-up transition"

/-- What is wrong with a role. -/
inductive RoleFlaw where
  | unnamed
  /-- It grants neither a level nor a list of trees. -/
  | grantsNothing
  | unknownTree (name : String)
deriving DecidableEq

def RoleFlaw.message : RoleFlaw → String
  | unnamed => "role requires a name"
  | grantsNothing => "either a level or a list of trees must be set"
  | unknownTree name => s!"unknown tree '{name}'"

/-- Why a well-formed document makes no flow; `node` is a path. -/
inductive ConfigError where
  | unknownTarget (node target : String)
  | malformedRole (role : String) (flaw : RoleFlaw)
  | missingAttribute (node key : String)
  | invalidAttribute (node key : String) (flaw : Flaw)
  | duplicateName (node name : String)
  | unknownHandler (node handler : String)
  | unknownAction (node action : String)
  | cyclicTransition (node : String)
  | unreachableBranch (node : String)
  | noTrees
deriving DecidableEq

def ConfigError.message : ConfigError → String
  | unknownTarget node target => s!"{node}: unable to find an element called '{target}'"
  | malformedRole role flaw => s!"role '{role}': {flaw.message}"
  | missingAttribute node key => s!"{node}: missing required attribute '{key}'"
  | invalidAttribute node key flaw =>
    s!"{node}: invalid attribute '{key}': {flaw.message}"
  | duplicateName node name => s!"{node}: name '{name}' is already used in this scope"
  | unknownHandler node handler => s!"{node}: no handler registered under '{handler}'"
  | unknownAction node action => s!"{node}: no action registered under '{action}'"
  | cyclicTransition node => s!"{node}: automatic transitions form a cycle"
  | unreachableBranch node =>
    s!"{node}: branch is unreachable, missing 'when', 'keys' or 'callbacks'"
  | noTrees => "document must declare at least one tree"

/-- Why an event could not be handled. -/
inductive FlowError where
  | evaluation (node : String) (error : Expr.EvalError)
  | action (node name message : String)
  /-- More automatic transitions followed each other than the limit allows. -/
  | transitionChain (limit : Nat)
  | configuration (error : ConfigError)
deriving DecidableEq

def FlowError.message : FlowError → String
  | evaluation node error => s!"{node}: {error.message}"
  | action node name message => s!"{node}: action '{name}' failed: {message}"
  | transitionChain limit => s!"transition chain exceeded {limit} hops"
  | configuration error => error.message

end ChatFlow.Flow
