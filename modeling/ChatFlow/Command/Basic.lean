/-!
The command line: one of four commands with its arguments, after an optional settings file.
-/
namespace ChatFlow

/-- What the command line asks for. -/
inductive Command where
  /-- Lists the tokens of an expression, and its kind if it is to be compiled. -/
  | tokens (expression : String) (compile : Bool)
  /-- Loads a document and counts its nodes. -/
  | check (file : String)
  | outline (file : String)
  /-- Feeds lines of text to a session. -/
  | replay (file : String) (role : Option String)
deriving DecidableEq

structure Request where
  settingsFile : Option String
  command : Command
deriving DecidableEq

/-- Why a command line is refused. -/
inductive UsageError where
  | missingCommand
  | unknownCommand (name : String)
  | missingArgument (name : String)
  /-- An option stands at the end without its value. -/
  | missingValue (option : String)
  | unexpectedArgument (argument : String)
deriving DecidableEq

def UsageError.message : UsageError → String
  | missingCommand => "a command is required"
  | unknownCommand name => s!"unrecognized subcommand '{name}'"
  | missingArgument name => s!"the argument <{name}> is required"
  | missingValue option => s!"a value is required for '{option}'"
  | unexpectedArgument argument => s!"unexpected argument '{argument}' found"

namespace Command

/-- Summary of the command line. -/
def usage : String :=
  "Usage: chatflow [--config <FILE>] <COMMAND>\n\n" ++
  "Commands:\n" ++
  "  tokens <EXPRESSION> [--compile]\n" ++
  "  check <FILE>\n" ++
  "  outline <FILE>\n" ++
  "  replay <FILE> [--role <ROLE>]\n"

/-- Arguments after a command: operands in order, flags, and options with their values. -/
structure Arguments where
  operands : List String
  flags : List String
  options : List (String × String)

def Arguments.empty : Arguments := ⟨[], [], []⟩

/-- The value in an argument that joins an option and its value by an equals sign. -/
def joinedValue? (option argument : String) : Option String :=
  let mark := (option ++ "=").toList
  if mark.isPrefixOf argument.toList then some (String.ofList (argument.toList.drop mark.length))
  else none

/-- The option that an argument joins with its value, and the value. -/
def joined? (options : List String) (argument : String) : Option (String × String) :=
  options.findSome? fun o => (joinedValue? o argument).map fun v => (o, v)

/-- Whether an argument is written like an option. -/
def isDashed (argument : String) : Bool := argument.toList.head? == some '-' && argument != "-"

/-- Sorts the arguments of a command that has the given flags and options. After two dashes every
argument is an operand. -/
def readArguments (flags options : List String) : List String → Except UsageError Arguments
  | [] => .ok .empty
  | "--" :: rest => .ok { Arguments.empty with operands := rest }
  | [a] =>
    if options.contains a then .error (.missingValue a) else one a (.ok .empty)
  | a :: v :: rest =>
    if options.contains a then do
      let r ← readArguments flags options rest
      return { r with options := (a, v) :: r.options }
    else one a (readArguments flags options (v :: rest))
where
  /-- Adds an argument that takes no further one. -/
  one (a : String) (rest : Except UsageError Arguments) : Except UsageError Arguments := do
    if flags.contains a then
      let r ← rest
      return { r with flags := a :: r.flags }
    match joined? options a with
    | some o =>
      let r ← rest
      return { r with options := o :: r.options }
    | none =>
      if isDashed a then throw (.unexpectedArgument a)
      let r ← rest
      return { r with operands := a :: r.operands }

/-- The only operand of a command. -/
def Arguments.operand (a : Arguments) (name : String) : Except UsageError String :=
  match a.operands with
  | [] => .error (.missingArgument name)
  | [x] => .ok x
  | _ :: x :: _ => .error (.unexpectedArgument x)

def Arguments.option? (a : Arguments) (name : String) : Option String :=
  (a.options.find? fun o => o.1 == name).map Prod.snd

/-- A command from its name and its arguments. -/
def ofName (name : String) (args : List String) : Except UsageError Command := do
  match name with
  | "tokens" =>
    let a ← readArguments ["--compile"] [] args
    return .tokens (← a.operand "EXPRESSION") (a.flags.contains "--compile")
  | "check" => return .check (← (← readArguments [] [] args).operand "FILE")
  | "outline" => return .outline (← (← readArguments [] [] args).operand "FILE")
  | "replay" =>
    let a ← readArguments [] ["--role"] args
    return .replay (← a.operand "FILE") (a.option? "--role")
  | name => throw (.unknownCommand name)

end Command

/-- Reads a command line. The settings file comes before the command. -/
def Request.parse : List String → Except UsageError Request
  | [] => .error .missingCommand
  | "-c" :: file :: name :: args | "--config" :: file :: name :: args =>
    return ⟨some file, ← Command.ofName name args⟩
  | ["-c", _] | ["--config", _] => .error .missingCommand
  | ["-c"] | ["--config"] => .error (.missingValue "--config <FILE>")
  | first :: rest =>
    match Command.joined? ["--config", "-c"] first, rest with
    | some _, [] => .error .missingCommand
    | some (_, file), name :: args => return ⟨some file, ← Command.ofName name args⟩
    | none, args =>
      if Command.isDashed first then .error (.unexpectedArgument first)
      else return ⟨none, ← Command.ofName first args⟩

end ChatFlow
