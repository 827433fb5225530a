import ChatFlow.Command.Listing
import ChatFlow.Document.Load
import ChatFlow.Flow.Outline
import ChatFlow.Session.Handle

/-!
What the commands print. Documents are read against the builtin members only; nothing is
registered that an application would add.
-/
namespace ChatFlow
open Flow Expr
variable {ω η : Type}

/-- A failure of a command, with what caused it, the outermost cause first. -/
structure Failure where
  message : String
  causes : List String
deriving DecidableEq

/-- Causes are numbered when there are several. -/
def Failure.render (f : Failure) : String :=
  let causes := match f.causes with
    | [] => ""
    | [cause] => s!"\n\nCaused by:\n    {cause}"
    | causes =>
      "\n\nCaused by:" ++
        String.join (causes.zipIdx.map fun (cause, i) => s!"\n    {i}: {cause}")
  "Error: " ++ f.message ++ causes ++ "\n"

/-- Output of a command, and the failure that ended it. -/
structure Report where
  output : String
  failure : Option Failure
deriving DecidableEq

namespace Report

/-- Tokens of an expression, one a line, and its kind if it is to be compiled. -/
def tokens (ns : Namespace ω η) (text : String) (compile : Bool) : Report :=
  match tokenize text with
  | .error e => ⟨"", some ⟨e.message, []⟩⟩
  | .ok ts =>
    let lines := String.join (ts.map Listing.tokenLine)
    if !compile then ⟨lines, none⟩
    else
      match (Typing.compileText ns none .any text).run 0 with
      | (.ok e, _) => ⟨lines ++ s!"type: {Listing.kind e.term.kind}\n", none⟩
      | (.error e, _) => ⟨lines, some ⟨e.message, []⟩⟩

def causesOf (e : Document.LoadError) : List String :=
  match e with
  | .unreadable _ | .unexpectedForm _ | .unexpectedRole _ => [e.message]
  | .expression _ _ cause => [e.message, cause.message]
  | .configuration cause => [e.message, cause.message]

/-- The graph of a document in a file. -/
def loadFile (ns : Namespace ω η) (settings : Settings) (file text : String) :
    Except Failure (Flow.Graph ω η) :=
  (Document.load ⟨ns, ∅, settings⟩ text).mapError fun e => ⟨s!"failed to load {file}", causesOf e⟩

def ofGraph (f : Flow.Graph ω η → String) : Except Failure (Flow.Graph ω η) → Report
  | .ok g => ⟨f g, none⟩
  | .error failure => ⟨"", some failure⟩

/-- How many trees and nodes a document declares. -/
def check (file : String) : Except Failure (Flow.Graph ω η) → Report :=
  ofGraph fun g => s!"{file}: {g.trees.length} trees, {g.size} nodes\n"

def outline : Except Failure (Flow.Graph ω η) → Report := ofGraph Flow.Graph.outline

end Report

/-- A session that is fed lines of text, and the identifier of the next event. -/
structure Replay (ω η : Type) where
  session : Session η
  world : ω
  next : UInt64

namespace Replay

def start (role : Option String) (world : ω) : Replay ω η := ⟨.fresh role, world, 0⟩

/-- A line without white space at its ends. -/
def trim (line : String) : String :=
  let rest := line.toList.dropWhile Text.isWhiteSpace
  String.ofList (rest.reverse.dropWhile Text.isWhiteSpace).reverse

/-- Handles one line, and tells what it led to. -/
def line (sc : Scenario ω η) (r : Replay ω η) (text : String) : String × Replay ω η :=
  let event : Event := ⟨r.next, 1, .text (trim text)⟩
  let (result, session, world) := r.session.handle sc event r.world
  let answer := match result with
    | .ok .ignored => "ignored"
    | .ok o =>
      Listing.outcome o ++ " -> " ++ ((session.current.map sc.graph.path).getD "<none>")
    | .error e => "error: " ++ e.message
  (answer ++ "\n", ⟨session, world, r.next + 1⟩)

end Replay
end ChatFlow
