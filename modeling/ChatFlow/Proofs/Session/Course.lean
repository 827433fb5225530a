import ChatFlow.Proofs.Flow.Scopes
import ChatFlow.Proofs.Session.Handling

/-! What a live session goes through, step by step, with the expressions that are evaluated on the way and the
memories that they are evaluated in. -/
namespace ChatFlow
open Flow Expr
variable {ω η α : Type} {sc : Scenario ω η} {l l₁ l₂ l₃ : Live ω η} {tree : NodeId} {owner : String}

/-- An expression, and the memory that it is evaluated in. -/
structure Evaluation (ω η : Type) where
  expression : Expression ω η
  memory : Memory ω η

namespace Live

/-- One step of a live session. Variables, handlers' states and the world change only where an expression of
the graph is evaluated, a procedure of it is run or a handler is made. -/
inductive Step (sc : Scenario ω η) : Live ω η → Option (Evaluation ω η) → Live ω η → Prop where
  /-- In a tree or outside of all, with the handler that is active there. -/
  | evaluate {l : Live ω η} {e : Expression ω η} (tree : Option NodeId) (situation : Situation)
    (he : e ∈ sc.graph.expressions) :
    Step sc l (some ⟨e, Run.memoryIn sc tree l⟩)
      (Run.conclude sc tree l (e.evaluate situation (Run.memoryIn sc tree l)).2)
  | perform {l : Live ω η} {a : Action ω η} {name : String} {procedure : Procedure ω η}
    (tree : Option NodeId) (situation : Situation) (ha : a ∈ sc.graph.actions)
    (hdeed : a.deed = .call name procedure) :
    Step sc l none (Run.conclude sc tree l
      { Run.memoryIn sc tree l with
        store := ((procedure situation).perform (Run.memoryIn sc tree l).store).2 })
  | make {l : Live ω η} (tree : NodeId) : Step sc l none (l.ensureHandler sc tree)
  /-- Remembered results are forgotten. -/
  | forget {l : Live ω η} :
    Step sc l none { l with session := { l.session with memos := l.session.memos.clear } }
  | park {l : Live ω η} (tree : NodeId) : Step sc l none (Run.park tree l).2
  | arrive {l : Live ω η} (n : Navigation) : Step sc l none (Run.arrive n l)
  /-- Hops have failed that began in a given session. -/
  | restore {l : Live ω η} (before : Session η) : Step sc l none (Run.restore before l)

/-- Steps one after another, with all evaluations among them in order. -/
inductive Course (sc : Scenario ω η) : Live ω η → List (Evaluation ω η) → Live ω η → Prop where
  | refl (l : Live ω η) : Course sc l [] l
  | step {l₁ l₂ l₃ : Live ω η} {e : Option (Evaluation ω η)} {rest : List (Evaluation ω η)}
    (h : Step sc l₁ e l₂) (hrest : Course sc l₂ rest l₃) : Course sc l₁ (e.toList ++ rest) l₃

namespace Course
variable {seen seen' : List (Evaluation ω η)}

theorem single {e : Option (Evaluation ω η)} (h : Step sc l₁ e l₂) : Course sc l₁ e.toList l₂ := by
  have hstep := step h (refl l₂)
  rwa [List.append_nil] at hstep

theorem trans (h₁ : Course sc l₁ seen l₂) (h₂ : Course sc l₂ seen' l₃) :
    Course sc l₁ (seen ++ seen') l₃ := by
  induction h₁ with
  | refl => exact h₂
  | step h _ ih =>
    rw [List.append_assoc]
    exact step h (ih h₂)

end Course
end Live

/-- States that instances of an owner's factory can have: those in which it makes them, and those in which
expressions and procedures of the graph leave them. -/
inductive Scenario.Instance (sc : Scenario ω η) (owner : String) : η → Prop where
  | made {factory : Factory ω η} (h : sc.members.factory? owner = some factory) (world : ω) :
    Instance sc owner (factory.make world).1
  | evaluated {e : Expression ω η} {situation : Situation} {m : Memory ω η} {state state' : η}
    (he : e ∈ sc.graph.expressions) (hstate : Instance sc owner state)
    (hm : m.store.handler = some state) (hleft : (e.evaluate situation m).2.store.handler = some state') :
    Instance sc owner state'
  | performed {a : Action ω η} {name : String} {procedure : Procedure ω η} {situation : Situation}
    {store : Store ω η} {state state' : η} (ha : a ∈ sc.graph.actions)
    (hdeed : a.deed = .call name procedure) (hstate : Instance sc owner state)
    (hstore : store.handler = some state)
    (hleft : ((procedure situation).perform store).2.handler = some state') : Instance sc owner state'

end ChatFlow
