import ChatFlow.Flow.Graph

/-!
Which trees a role may enter. A denied tree sends the user to the fallback tree of the role, if it
has one.
-/
namespace ChatFlow.Flow
variable {ω η : Type}

/-- A role as it is declared. -/
structure Role where
  name : String
  level : Option UInt32
  trees : Option (List String)
  onDenied : Option String
deriving DecidableEq

namespace Role

/-- A role must grant something. -/
def check (r : Role) : Except ConfigError Unit :=
  if r.level.isNone && r.trees.isNone then .error (.malformedRole r.name .grantsNothing) else .ok ()

/-- The tree that the role means by a name. -/
def resolveTree (r : Role) (g : Graph ω η) (name : String) : Except ConfigError NodeId :=
  match g.treeNamed? name with
  | some id => .ok id
  | none => .error (.malformedRole r.name (.unknownTree name))

/-- The grant of a role, its names looked up in a graph. -/
def resolve (r : Role) (g : Graph ω η) : Except ConfigError Grant := do
  r.check
  let trees ← r.trees.mapM fun names => names.mapM (r.resolveTree g)
  let onDenied ← r.onDenied.mapM (r.resolveTree g)
  return ⟨r.name, r.level, trees, onDenied⟩

end Role

/-- Whether a grant covers a tree of a level. A listed tree is covered whatever its level. -/
def Grant.allows (grant : Grant) (tree : NodeId) (level : UInt32) : Bool :=
  grant.trees.any (·.contains tree) || grant.level.any (level ≤ ·)

/-- Outcome of an access check. -/
inductive Access where
  | granted
  | denied (fallback : Option NodeId)
deriving DecidableEq

/-- Access rules of a graph, with the level of guests, who are users without a declared role. -/
structure AccessRules (ω η : Type) where
  graph : Graph ω η
  guestLevel : UInt32

namespace AccessRules

def grant? (rules : AccessRules ω η) (role : Option String) : Option Grant :=
  role.bind rules.graph.grant?

def isVisible (rules : AccessRules ω η) (role : Option String) (tree : NodeId) : Bool :=
  let level := (rules.graph.node tree).accessLevel
  match rules.grant? role with
  | some grant => grant.allows tree level
  | none => level ≤ rules.guestLevel

/-- The trees that a role may enter, in order. -/
def visibleTrees (rules : AccessRules ω η) (role : Option String) : List NodeId :=
  rules.graph.trees.filter (rules.isVisible role)

/-- Whether a role may enter a tree. The denied tree is not its own fallback. -/
def check (rules : AccessRules ω η) (role : Option String) (tree : NodeId) : Access :=
  if rules.isVisible role tree then .granted
  else .denied (((rules.grant? role).bind Grant.onDenied).filter (· ≠ tree))

end AccessRules
end ChatFlow.Flow
