import ChatFlow.Json.Basic

/-!
Writing JSON text on one line, without blanks.
-/
namespace ChatFlow.Json

def hexDigit (n : Nat) : Char := Nat.digitChar n

/-- A character inside a string: only quotes, backslashes and controls are escaped. -/
def escapeChar (c : Char) : List Char :=
  match c with
  | '"' => ['\\', '"']
  | '\\' => ['\\', '\\']
  | '\n' => ['\\', 'n']
  | '\r' => ['\\', 'r']
  | '\t' => ['\\', 't']
  | c =>
    if c.toNat < 0x20 then
      ['\\', 'u', '0', '0', hexDigit (c.toNat / 16), hexDigit (c.toNat % 16)]
    else [c]

def renderText (s : String) : String :=
  String.ofList ('"' :: s.toList.flatMap escapeChar ++ ['"'])

def Number.render (n : Number) : String :=
  let sign := if n.negative then "-" else ""
  let fraction := if n.fraction = [] then "" else "." ++ String.ofList n.fraction
  let exponent := match n.exponent with
    | none => ""
    | some e => "e" ++ toString e
  sign ++ String.ofList n.whole ++ fraction ++ exponent

/-- Text of a value. A string that denotes no text is written as an empty one. -/
def render : Json → String
  | null => "null"
  | bool b => if b then "true" else "false"
  | number n => n.render
  | string s => renderText (s.getD "")
  | array items => "[" ++ ",".intercalate (renderItems items) ++ "]"
  | object fields => "\x7b" ++ ",".intercalate (renderFields fields) ++ "\x7d"
where
  renderItems : List Json → List String
    | [] => []
    | v :: vs => render v :: renderItems vs
  renderFields : List (Option String × Json) → List String
    | [] => []
    | (k, v) :: fs => (renderText (k.getD "") ++ ":" ++ render v) :: renderFields fs

end ChatFlow.Json
