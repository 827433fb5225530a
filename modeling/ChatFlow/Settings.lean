/-!
Settings that all sessions of a flow share.
-/
namespace ChatFlow

structure Settings where
  /-- Most automatic transitions per event. -/
  chainLimit : Nat
  /-- Whether transitions that do not say so pass over failing actions. -/
  ignoreError : Bool
  /-- Access level of users without a declared role. -/
  guestLevel : UInt32
  /-- What a message starts with that is a command. -/
  commandMark : String
  /-- Name that a command may mention after an at sign. -/
  botName : Option String
deriving DecidableEq

namespace Settings

def default : Settings := ⟨16, true, 0, "/", none⟩

instance : Inhabited Settings := ⟨default⟩

end Settings
end ChatFlow
