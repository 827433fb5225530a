import ChatFlow.Flow.Event

/-!
Literal inputs that select a node.
-/
namespace ChatFlow.Flow

structure Triggers where
  /-- Names of commands, without their mark. -/
  commands : List String
  /-- Whole message texts. -/
  keys : List String
  /-- Whole callback data. -/
  callbacks : List String
deriving DecidableEq

namespace Triggers

def none : Triggers := ⟨[], [], []⟩

def isEmpty (t : Triggers) : Bool := t.commands.isEmpty && t.keys.isEmpty && t.callbacks.isEmpty

/-- Whether an event is one of the triggers. -/
def selects (t : Triggers) (e : Event) (mark : String) (bot : Option String) : Bool :=
  (e.command? mark bot).any (t.commands.contains ·) || e.text?.any (t.keys.contains ·) ||
  e.callback?.any (t.callbacks.contains ·)

end Triggers
end ChatFlow.Flow
