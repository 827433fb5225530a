import ChatFlow.Text.Blank

/-!
What a user sends: a text message, which may be a command, or the press of a button.
-/
namespace ChatFlow.Flow

/-- Content of an event. -/
inductive Payload where
  | text (text : String)
  /-- Data carried by the pressed button. -/
  | callback (data : String)
deriving DecidableEq

/-- One update from a user. Its identifier also tells results of different updates apart. -/
structure Event where
  id : UInt64
  user : Int64
  payload : Payload
deriving DecidableEq

namespace Event

def text? (e : Event) : Option String :=
  match e.payload with
  | .text s => some s
  | .callback _ => none

def callback? (e : Event) : Option String :=
  match e.payload with
  | .callback s => some s
  | .text _ => none

/-- What follows a leading mark. -/
def stripMark? (mark word : List Char) : Option (List Char) :=
  if mark.isPrefixOf word then some (word.drop mark.length) else none

/-- Equality up to the case of ASCII letters. -/
def sameName (a b : List Char) : Bool := a.map Char.toLower == b.map Char.toLower

/-- Name of the command that a message starts with: its first word without the mark and without a
mention after an at sign. A mention must be of the bot, if the bot's name is known. -/
def command? (e : Event) (mark : String) (bot : Option String) : Option String := do
  let word := Text.firstWord (← e.text?).toList
  if word = [] then none
  let body ← stripMark? mark.toList word
  let name := body.takeWhile (· ≠ '@')
  let mention := body.dropWhile (· ≠ '@')
  if mention ≠ [] ∧ bot.any (fun b => !sameName (mention.drop 1) b.toList) then none
  if name = [] then none
  return String.ofList name

end Event
end ChatFlow.Flow
