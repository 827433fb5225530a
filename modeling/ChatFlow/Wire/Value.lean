import ChatFlow.Json.Decode
import ChatFlow.Value

/-!
Values as JSON: the name of the shape beside the content. Decoding recurses on the size of the
data, as the content of a list is found by searching the fields of its record.
-/
namespace ChatFlow.Wire

open Json (Mode Decoder)

/-- Names of the shapes of a value, in the order of their places. -/
def valueShapes : List String := ["Null", "Bool", "Int", "Float", "Str", "List"]

def shaped (shape : String) (content : Json) : Json :=
  .record [("type", .text shape), ("value", content)]

def encodeValue : Value → Json
  | .null => .record [("type", .text "Null")]
  | .bool b => shaped "Bool" (.bool b)
  | .int n => shaped "Int" (.int n.toInt)
  | .float x => shaped "Float" (.float x)
  | .str s => shaped "Str" (.text s)
  | .list items => shaped "List" (.array (encodeValues items))
where
  encodeValues : List Value → List Json
    | [] => []
    | v :: vs => encodeValue v :: encodeValues vs

/-- Decodes a value nested at most `bound` lists deep. -/
def decodeValueWithin : (bound : Nat) → Decoder Value
  | 0, _, _ => none
  | bound + 1, m, j => do
    let tagged ← Json.tagged? "type" "value" valueShapes m j
    match tagged.variant, tagged.content with
    | 0, none => return .null
    | 0, some (_, c) =>
      match c with
      | .null => return .null
      | _ => none
    | 1, some (m, c) => return .bool (← Decoder.bool m c)
    | 2, some (m, c) => return .int (← Decoder.int64 m c)
    | 3, some (m, c) => return .float (← Decoder.float m c)
    | 4, some (m, c) => return .str (← Decoder.text m c)
    | 5, some (m, c) => return .list (← Decoder.list (decodeValueWithin bound) m c)
    | _, _ => none

/-- Decodes a value. Two levels of JSON open for each level of lists, so 64 of these suffice. -/
def decodeValue : Decoder Value := decodeValueWithin 64

end ChatFlow.Wire
