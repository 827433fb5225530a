import ChatFlow.Form.Lexeme

/-!
From lexemes to forms: parentheses nest lists.
-/
namespace ChatFlow.Form

/-- A list that is not closed yet, its items last first. -/
structure OpenList where
  opened : Nat
  items : List Form

/-- Forms read so far, last first, and the open lists, the innermost first. -/
structure Nesting where
  finished : List Form
  lists : List OpenList

namespace Nesting

def empty : Nesting := ⟨[], []⟩

/-- Adds a form to the innermost open list, or to the finished forms. -/
def place (n : Nesting) (f : Form) : Nesting :=
  match n.lists with
  | [] => { n with finished := f :: n.finished }
  | l :: lists => { n with lists := { l with items := f :: l.items } :: lists }

def step (n : Nesting) (l : Lexeme) : Except ReadError Nesting :=
  match l.kind with
  | .atom f => .ok (n.place f)
  | .opening => .ok { n with lists := ⟨l.position, []⟩ :: n.lists }
  | .closing =>
    match n.lists with
    | [] => .error (.unbalancedClose l.position)
    | o :: lists => .ok ({ n with lists }.place (.list o.items.reverse))
  | .fault e => .error e

/-- The forms, once there are no more lexemes. -/
def finish (n : Nesting) : Except ReadError (List Form) :=
  match n.lists with
  | [] => .ok n.finished.reverse
  | l :: _ => .error (.unclosedList l.opened)

end Nesting

/-- The forms that a list of lexemes makes up. -/
def nest (lexemes : List Lexeme) : Except ReadError (List Form) := do
  (← lexemes.foldlM Nesting.step .empty).finish

/-- Reads the forms of a document. -/
def readAll (text : String) : Except ReadError (List Form) := nest (Lexeme.scan 0 text.toList)

end ChatFlow.Form
