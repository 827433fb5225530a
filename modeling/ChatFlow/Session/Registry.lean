import ChatFlow.Session.Handle

/-!
Sessions of many users. A session is made, with the role of its user, when it is first needed.
-/
namespace ChatFlow
open Flow Expr
variable {ω η : Type}

structure Registry (ω η : Type) where
  scenario : Scenario ω η
  /-- Role of a user; none for guests. -/
  roleOf : Int64 → Option String
  sessions : Table Int64 (Session η)

namespace Registry

def fresh (scenario : Scenario ω η) (roleOf : Int64 → Option String) : Registry ω η :=
  ⟨scenario, roleOf, ∅⟩

def size (r : Registry ω η) : Nat := r.sessions.size

/-- The session of a user, and the registry that holds it. -/
def session (r : Registry ω η) (user : Int64) : Session η × Registry ω η :=
  match r.sessions.get? user with
  | some s => (s, r)
  | none =>
    let s := .fresh (r.roleOf user)
    (s, { r with sessions := r.sessions.insert user s })

/-- Handles an event in the session of its user. -/
def dispatch (r : Registry ω η) (event : Event) (world : ω) :
    Except FlowError Outcome × Registry ω η × ω :=
  let (s, r) := r.session event.user
  let (result, s, world) := Session.handle r.scenario event s world
  (result, { r with sessions := r.sessions.insert event.user s }, world)

/-- Forgets the session of a user; tells whether there was one. -/
def remove (r : Registry ω η) (user : Int64) : Bool × Registry ω η :=
  (r.sessions.contains user, { r with sessions := r.sessions.erase user })

end Registry
end ChatFlow
