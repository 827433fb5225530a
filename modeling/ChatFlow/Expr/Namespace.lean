import ChatFlow.Expr.Member

/-!
The members and handlers that an application registers, and which member a reference denotes.
-/
namespace ChatFlow.Expr
variable {ω η : Type}

/-- Owner of the members that every document may use. -/
def builtinOwner : String := "Builtins"

/-- How the handlers of an owner are made. -/
inductive Factory (ω η : Type) where
  /-- They all start in the same state. -/
  | fixed (initial : η)
  /-- Making one may look at the world outside of the session, and may change it. -/
  | custom (make : ω → η × ω)

/-- State of a new handler, and the world once it has been made. -/
def Factory.make : Factory ω η → ω → η × ω
  | fixed initial, world => (initial, world)
  | custom make, world => make world

/-- Registered members in order, and the factory of the handlers of each owner. -/
structure Namespace (ω η : Type) where
  members : List (Member ω η)
  factories : Table String (Factory ω η)

namespace Namespace

def empty : Namespace ω η := ⟨[], ∅⟩

instance : Inhabited (Namespace ω η) := ⟨empty⟩

def register (ns : Namespace ω η) (m : Member ω η) : Namespace ω η :=
  { ns with members := ns.members ++ [m] }

/-- Registers the factory of an owner; a later registration replaces an earlier one. -/
def registerFactory (ns : Namespace ω η) (owner : String) (factory : Factory ω η) : Namespace ω η :=
  { ns with factories := ns.factories.insert owner factory }

/-- Registers handlers that all start in the same state. -/
def registerHandler (ns : Namespace ω η) (owner : String) (initial : η) : Namespace ω η :=
  ns.registerFactory owner (.fixed initial)

def hasHandler (ns : Namespace ω η) (owner : String) : Bool := ns.factories.contains owner

def factory? (ns : Namespace ω η) (owner : String) : Option (Factory ω η) := ns.factories.get? owner

/-- State of a new handler where there is no world to look at: only handlers that all start in the same
state can be made there. -/
def instantiate? (ns : Namespace ω η) (owner : String) : Option η :=
  match ns.factory? owner with
  | some (.fixed initial) => some initial
  | _ => none

/-- Whether a reference can see a member. With an owner it sees the owner's members that need no
handler; without one, those of the handler in scope and the builtin ones. -/
def visible (scope owner : Option String) (m : Member ω η) : Bool :=
  match owner with
  | some owner => m.owner == owner && !m.ofInstance
  | none => if m.ofInstance then scope == some m.owner else m.owner == builtinOwner

/-- The visible members with a name, an arity and a form. -/
def candidates (ns : Namespace ω η) (scope owner : Option String) (name : String) (arity : Nat)
    (form : CallForm) : List (Member ω η) :=
  ns.members.filter fun m =>
    m.name == name && visible scope owner m && m.arity == arity && m.form == form

/-- The one member that a reference denotes. -/
def resolve (ns : Namespace ω η) (scope owner : Option String) (name : String) (arity : Nat)
    (form : CallForm) : Except ParseReason (Member ω η) :=
  match ns.candidates scope owner name arity form with
  | [m] => .ok m
  | [] => .error (.unknownReference (form.spell owner name) arity)
  | many => .error (.ambiguousReference (form.spell owner name) many.length)

end Namespace
end ChatFlow.Expr
