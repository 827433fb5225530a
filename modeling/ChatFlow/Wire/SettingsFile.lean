import ChatFlow.Json.Read
import ChatFlow.Wire.Flow

/-!
Settings from the content of a file.
-/
namespace ChatFlow.Wire

/-- Why a settings file is refused. -/
inductive SettingsError where
  /-- There is no such file, or it is no UTF-8 text. -/
  | unreadable
  | malformed
  /-- Every message would be a command. -/
  | emptyMark
deriving DecidableEq

def SettingsError.message (path : String) : SettingsError → String
  | unreadable => s!"failed to read config {path}"
  | malformed => s!"failed to parse config {path}"
  | emptyMark => "command_prefix must not be empty"

/-- Settings from the text of a file. -/
def readSettings (text : String) : Except SettingsError Settings :=
  match (Json.read? text).bind (decodeSettings .start) with
  | none => .error .malformed
  | some s => if s.commandMark = "" then .error .emptyMark else .ok s

/-- Settings from the bytes of a file, if there is one. -/
def loadSettings (file : Option ByteArray) : Except SettingsError Settings :=
  match file.bind String.fromUTF8? with
  | none => .error .unreadable
  | some text => readSettings text

end ChatFlow.Wire
