import ChatFlow.Command.Basic
import ChatFlow.Command.Report
import ChatFlow.Expr.Builtin
import ChatFlow.Wire.SettingsFile

/-!
The program: files and standard input are read here, and results are printed.
-/
namespace ChatFlow.Program
open Flow Expr

/-- An application without handlers and without a world of its own. -/
abbrev Members := Namespace Unit Empty

def readFile? (file : String) : IO (Option ByteArray) := do
  try return some (← IO.FS.readBinFile file)
  catch _ => return none

/-- Variables of the process, as the system lists them. -/
def readEnvironment : IO (String → Option String) := do
  let text := ((← readFile? "/proc/self/environ").bind String.fromUTF8?).getD ""
  let entries := (Text.split '\x00' text.toList).map fun entry =>
    (String.ofList (entry.takeWhile (· ≠ '=')), String.ofList ((entry.dropWhile (· ≠ '=')).drop 1))
  return fun name => (entries.find? fun e => e.1 == name && name != "").map Prod.snd

def loadSettings (file : Option String) : IO (Except Failure Settings) := do
  match file with
  | none => return .ok .default
  | some file =>
    return (Wire.loadSettings (← readFile? file)).mapError fun e => ⟨e.message file, []⟩

def loadGraph (ns : Members) (settings : Settings) (file : String) :
    IO (Except Failure (Flow.Graph Unit Empty)) := do
  match (← readFile? file).bind String.fromUTF8? with
  | none => return .error ⟨s!"failed to read {file}", []⟩
  | some text => return Report.loadFile ns settings file text

def fail (f : Failure) : IO UInt32 := do
  IO.eprint f.render
  return 1

def print (r : Report) : IO UInt32 := do
  IO.print r.output
  match r.failure with
  | some f => fail f
  | none => return 0

/-- Answers the lines of standard input, one by one. -/
partial def replay (sc : Scenario Unit Empty) (r : Replay Unit Empty) : IO UInt32 := do
  let line ← (← IO.getStdin).getLine
  if line.isEmpty then return 0
  let (answer, r) := r.line sc line
  IO.print answer
  (← IO.getStdout).flush
  replay sc r

def run (request : Request) : IO UInt32 := do
  match ← loadSettings request.settingsFile with
  | .error f => fail f
  | .ok settings =>
    let ns : Members := .builtin (← readEnvironment)
    match request.command with
    | .tokens text compile => print (Report.tokens ns text compile)
    | .check file => print (Report.check file (← loadGraph ns settings file))
    | .outline file => print (Report.outline (← loadGraph ns settings file))
    | .replay file role =>
      match ← loadGraph ns settings file with
      | .error f => fail f
      | .ok graph => replay ⟨graph, ns, settings⟩ (.start role ())

end ChatFlow.Program

open ChatFlow in
def main (args : List String) : IO UInt32 := do
  if args.head? == some "--help" || args.head? == some "-h" then
    IO.print Command.usage
    return 0
  match Request.parse args with
  | .ok request => Program.run request
  | .error e =>
    IO.eprint s!"error: {e.message}\n\n{Command.usage}"
    return 2
