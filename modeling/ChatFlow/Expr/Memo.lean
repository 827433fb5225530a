import ChatFlow.Table
import ChatFlow.Value

/-!
Memory of results. A stored result serves again only while the same event is handled; results
stored without an event are kept but never served.
-/
namespace ChatFlow

/-- Place of a node in its graph. -/
abbrev NodeId := Nat

namespace Expr

/-- How long the result of a member may be served again. -/
inductive Caching where
  | never
  /-- While the same event is handled. -/
  | perEvent
deriving DecidableEq, Inhabited

/-- Circumstances under which a result was produced. -/
inductive Capture where
  | event (id : UInt64)
  /-- The active node, when no event is handled. -/
  | node (id : NodeId)
  | invalid
deriving DecidableEq, Inhabited

/-- Whether a result stored under the first circumstances may be served under the second. -/
def Capture.serves (stored : Capture) (current : Option Capture) : Bool :=
  match stored, current with
  | event a, some (event b) => a == b
  | _, _ => false

/-- The result remembered for one call. -/
structure Memo where
  caching : Caching
  stored : Option (Capture × Value)
deriving Inhabited

namespace Memo

def empty (caching : Caching) : Memo := ⟨caching, none⟩

def clear (m : Memo) : Memo := { m with stored := none }

def isEmpty (m : Memo) : Bool := m.stored.isNone

def capture? (m : Memo) : Option Capture := m.stored.map Prod.fst

/-- Remembers a result. A result without circumstances only erases the old one. -/
def write (m : Memo) (v : Value) (capture : Capture) : Memo :=
  match m.caching with
  | .never => m
  | .perEvent => if capture = .invalid then m.clear else { m with stored := some (capture, v) }

/-- The remembered result, if it may be served now. -/
def lookup (m : Memo) (current : Option Capture) : Option Value :=
  match m.caching, m.stored with
  | .perEvent, some (capture, v) => if capture.serves current then some v else none
  | _, _ => none

end Memo

/-- The memories of all calls of a session, by the slot of the call. -/
structure Memos where
  slots : Table Nat Memo
deriving Inhabited

namespace Memos

def empty : Memos := ⟨∅⟩

/-- The result of a slot. Nothing is found under another caching than it was stored with. -/
def lookup (m : Memos) (slot : Nat) (caching : Caching) (current : Option Capture) :
    Option Value := do
  let memo ← m.slots.get? slot
  if memo.caching = caching then memo.lookup current else none

/-- Remembers a result; the first write of a slot fixes its caching. -/
def write (m : Memos) (slot : Nat) (caching : Caching) (v : Value) (capture : Capture) : Memos :=
  match caching with
  | .never => m
  | .perEvent => ⟨m.slots.insert slot (((m.slots.get? slot).getD (.empty caching)).write v capture)⟩

def clear (_ : Memos) : Memos := empty

/-- Number of slots that hold a result. -/
def size (m : Memos) : Nat := (m.slots.values.filter fun c => !c.isEmpty).length

end Memos
end Expr
end ChatFlow
