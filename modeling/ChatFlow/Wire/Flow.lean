import ChatFlow.Flow.Access
import ChatFlow.Settings
import ChatFlow.Wire.Value

/-!
Events, roles and settings as JSON.
-/
namespace ChatFlow.Wire
open Json (Mode Decoder)
open Flow

def encodePayload : Payload → Json
  | .text s => .record [("kind", .text "text"), ("data", .text s)]
  | .callback s => .record [("kind", .text "callback"), ("data", .text s)]

def decodePayload : Decoder Payload := fun m j => do
  let tagged ← Json.tagged? "kind" "data" ["text", "callback"] m j
  let (m, c) ← tagged.content
  let s ← Decoder.text m c
  return if tagged.variant = 0 then .text s else .callback s

def encodeEvent (e : Event) : Json :=
  .record [("update_id", .nat e.id.toNat), ("user", .int e.user.toInt),
    ("payload", encodePayload e.payload)]

def decodeEvent : Decoder Event := fun m j => do
  let (m, fields) ← Json.recordFields? ["update_id", "user", "payload"] false m j
  match fields with
  | [id, user, payload] =>
    return ⟨← Decoder.required Decoder.uint64 m id, ← Decoder.required Decoder.int64 m user,
      ← Decoder.required decodePayload m payload⟩
  | _ => none

def encodeLevel (level : UInt32) : Json := .nat level.toNat

def encodeRole (r : Role) : Json :=
  .record [("name", .text r.name), ("level", .optional encodeLevel r.level),
    ("trees", .optional (.list .text) r.trees), ("on_denied", .optional .text r.onDenied)]

def decodeRole : Decoder Role := fun m j => do
  let (m, fields) ← Json.recordFields? ["name", "level", "trees", "on_denied"] false m j
  match fields with
  | [name, level, trees, onDenied] =>
    return ⟨← Decoder.required Decoder.text m name, ← Decoder.optional Decoder.uint32 m level,
      ← Decoder.optional (Decoder.list Decoder.text) m trees,
      ← Decoder.optional Decoder.text m onDenied⟩
  | _ => none

def encodeSettings (s : Settings) : Json :=
  .record [("max_transition_chain", .nat s.chainLimit),
    ("default_ignore_error", .bool s.ignoreError), ("guest_level", encodeLevel s.guestLevel),
    ("command_prefix", .text s.commandMark), ("bot_username", .optional .text s.botName)]

/-- A field with a default value. -/
def withDefault {α : Type} (d : Decoder α) (m : Mode) (value : α) : Option Json → Option α
  | none => some value
  | some j => d m j

/-- Settings, in which every field may be missing. -/
def decodeSettings : Decoder Settings := fun m j => do
  let names := ["max_transition_chain", "default_ignore_error", "guest_level", "command_prefix",
    "bot_username"]
  let (m, fields) ← Json.recordFields? names true m j
  let base := Settings.default
  match fields with
  | [chainLimit, ignoreError, guestLevel, commandMark, botName] =>
    return ⟨← withDefault (Decoder.natBelow UInt64.size) m base.chainLimit chainLimit,
      ← withDefault Decoder.bool m base.ignoreError ignoreError,
      ← withDefault Decoder.uint32 m base.guestLevel guestLevel,
      ← withDefault Decoder.text m base.commandMark commandMark,
      ← Decoder.optional Decoder.text m botName⟩
  | _ => none

end ChatFlow.Wire
