import ChatFlow.Expr.Lexeme

/-!
From lexemes to tokens: the lexemes between a member's parentheses become its arguments. Only
literals and members may be arguments, and one comma stands between two of them.
-/
namespace ChatFlow.Expr

/-- What an open argument list waits for. -/
inductive Awaited where
  /-- An argument, or the end of an empty list. -/
  | firstArgument
  | argument
  /-- A comma, or the end of the list. -/
  | separator
deriving DecidableEq

/-- A member whose argument list has been opened and not yet closed. -/
structure OpenCall where
  form : CallForm
  owner : Option String
  name : String
  position : Nat
  /-- Offset of its parenthesis. -/
  openedAt : Nat
  /-- Arguments so far, the last one first. -/
  args : List Token
  awaited : Awaited

def OpenCall.close (c : OpenCall) : Token :=
  .mk (.call c.form c.owner c.name (some c.args.reverse)) c.position

/-- Tokens read so far: the finished ones, the last one first, and the open calls, the innermost
first. -/
structure Gathered where
  finished : List Token
  calls : List OpenCall

namespace Gathered

def empty : Gathered := ⟨[], []⟩

/-- Adds a token to the innermost open argument list, or to the finished tokens. -/
def place (g : Gathered) (t : Token) : Gathered :=
  match g.calls with
  | [] => { g with finished := t :: g.finished }
  | c :: calls => { g with calls := { c with args := t :: c.args, awaited := .separator } :: calls }

def openCall (g : Gathered) (c : OpenCall) : Gathered := { g with calls := c :: g.calls }

/-- The lexeme is not allowed inside an argument list. -/
def refuse (l : Lexeme) : Except LexError Gathered := .error ⟨.unknownSymbol l.first, l.position⟩

/-- A literal or a member, which may stand anywhere. -/
def stepArgument? (g : Gathered) (l : Lexeme) : Option Gathered :=
  match l.kind with
  | .literal v => some (g.place (.mk (.literal v) l.position))
  | .call form owner name none => some (g.place (.mk (.call form owner name none) l.position))
  | .call form owner name (some openedAt) =>
    some (g.openCall ⟨form, owner, name, l.position, openedAt, [], .firstArgument⟩)
  | _ => none

/-- A lexeme outside of every argument list. -/
def stepOutside (g : Gathered) (l : Lexeme) : Except LexError Gathered :=
  match l.kind with
  | .operator op => .ok (g.place (.mk (.operator op) l.position))
  | .opening => .ok (g.place (.mk .opening l.position))
  | .closing => .ok (g.place (.mk .closing l.position))
  | .keyword word => .ok (g.place (.mk (.keyword word) l.position))
  | .fault e => .error e
  | _ =>
    match g.stepArgument? l with
    | some g => .ok g
    | none => refuse l

/-- A lexeme inside the argument list of `c`, the other open calls being `calls`. -/
def stepInside (g : Gathered) (c : OpenCall) (calls : List OpenCall) (l : Lexeme) :
    Except LexError Gathered :=
  match c.awaited, l.kind with
  | .separator, .comma => .ok { g with calls := { c with awaited := .argument } :: calls }
  | .separator, .closing | .firstArgument, .closing => .ok ({ g with calls := calls }.place c.close)
  | .separator, _ => refuse l
  | _, .fault e => .error e
  | _, _ =>
    match g.stepArgument? l with
    | some g => .ok g
    | none => refuse l

def step (g : Gathered) (l : Lexeme) : Except LexError Gathered :=
  match g.calls with
  | [] => g.stepOutside l
  | c :: calls => g.stepInside c calls l

/-- The tokens, once there are no more lexemes. -/
def finish (g : Gathered) : Except LexError (List Token) :=
  match g.calls with
  | [] => .ok g.finished.reverse
  | c :: _ => .error ⟨.unterminatedArguments, c.openedAt⟩

end Gathered

/-- The tokens that a list of lexemes makes up. -/
def gather (lexemes : List Lexeme) : Except LexError (List Token) := do
  (← lexemes.foldlM Gathered.step .empty).finish

/-- Splits the text of an expression into tokens. -/
def tokenize (text : String) : Except LexError (List Token) :=
  gather (Lexeme.scan 0 text.toList)

end ChatFlow.Expr
