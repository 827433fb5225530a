import ChatFlow.Proofs.Session.Callers
import ChatFlow.Proofs.Session.Carried
import ChatFlow.Proofs.Session.Course

/-! Members that run against a handler always find one that the factory of their owner has made. -/
namespace ChatFlow
open Flow Expr
variable {ω η α β : Type} {sc : Scenario ω η} {role : Option String} {s : Session η}
  {l l' : Live ω η} {event : Event} {tree : NodeId} {h : Hop ω η} {route : List (Hop ω η)}

/-- Whether a handler is an instance for the owner of a tree. -/
def Handler.Serves (sc : Scenario ω η) (tree : NodeId) (handler : Handler η) : Prop :=
  ∃ owner, (sc.graph.node tree).handler = some owner ∧ sc.Instance owner handler.state

/-- Whether every handler alive in a session is an instance for the owner of its tree. -/
def Session.Served (sc : Scenario ω η) (s : Session η) : Prop :=
  ∀ tree handler, s.handlers.get? tree = some handler → handler.Serves sc tree

/-- Whether this also holds of the handlers set aside. -/
structure Live.Served (sc : Scenario ω η) (l : Live ω η) : Prop where
  session : l.session.Served sc
  parked : ∀ e ∈ l.parked, e.2.Serves sc e.1

/-- Whether an evaluation has the handlers that the calls in its expression need. -/
def Evaluation.Attached (sc : Scenario ω η) (seen : Evaluation ω η) : Prop :=
  ∀ call ∈ seen.expression.term.calls, call.member.ofInstance = true →
    ∃ state, seen.memory.store.handler = some state ∧ sc.Instance call.member.owner state

/-- How a live session goes on: over evaluations that have the handlers that they need, to handlers that
are instances for the owners of their trees. -/
structure Attends (sc : Scenario ω η) (l l' : Live ω η) : Prop where
  served : l'.Served sc
  course : ∃ seen, Live.Course sc l seen l' ∧ ∀ e ∈ seen, e.Attached sc

theorem Attends.refl (hl : l.Served sc) : Attends sc l l := ⟨hl, [], .refl l, nofun⟩

theorem Attends.trans {l₁ l₂ l₃ : Live ω η} (h₁ : Attends sc l₁ l₂) (h₂ : Attends sc l₂ l₃) :
    Attends sc l₁ l₃ := by
  obtain ⟨seen, hcourse, hseen⟩ := h₁.course
  obtain ⟨seen', hcourse', hseen'⟩ := h₂.course
  exact ⟨h₂.served, seen ++ seen', hcourse.trans hcourse', List.forall_mem_append.2 ⟨hseen, hseen'⟩⟩

namespace Session

end Session

namespace Live

end Live

namespace Run

section
variable {m : Run ω η α} {f : α → Run ω η β}

end

section
variable (hhosted : sc.graph.Hosted sc.members) {fault : EvalError → FlowError} {e : Expression ω η}
  {x : Eval ω η α} {situation : Situation} {a : Action ω η} {actions : List (Action ω η)}
include hhosted

end

end Run

namespace Session

end Session
end ChatFlow
