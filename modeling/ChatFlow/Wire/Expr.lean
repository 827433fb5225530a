import ChatFlow.Expr.Ast
import ChatFlow.Wire.Value

/-!
Tokens and untyped expressions as JSON.
-/
namespace ChatFlow.Wire

open Json (Mode Decoder)
open Expr

def operators : List (String × Operator) :=
  [("Sequence", .sequence), ("Or", .or), ("And", .and), ("Greater", .greater),
    ("GreaterOrEqual", .greaterOrEqual), ("Less", .less), ("LessOrEqual", .lessOrEqual),
    ("Equals", .equals), ("NotEquals", .notEquals), ("Chain", .chain)]

def keywords : List (String × Keyword) := [("If", .ifWord), ("Do", .doWord), ("Else", .elseWord)]

/-- Name of a plain variant. -/
def nameIn {α : Type} [DecidableEq α] (table : List (String × α)) (a : α) : String :=
  ((table.find? fun e => e.2 = a).map Prod.fst).getD ""

/-- A plain variant from its name. -/
def plain {α : Type} (table : List (String × α)) : Decoder α := fun m j => do
  let i ← Json.plainVariant? (table.map Prod.fst) m j
  (table[i]?).map Prod.snd

def encodeOperator (op : Operator) : Json := .text (nameIn operators op)

/-- An object with one field. -/
def single (name : String) (content : Json) : Json := .record [(name, content)]

def encodeCall (form : CallForm) (owner : Option String) (name : String) (args : Json) : Json :=
  single (if form = .reference then "Reference" else "Generator") (.record
    [("owner", .optional .text owner), ("name", .text name), ("args", args)])

mutual

def encodeToken : Token → Json
  | .mk kind position => .record [("kind", encodeKind kind), ("position", .nat position)]
termination_by structural t => t

def encodeKind : TokenKind → Json
  | .literal v => single "Literal" (encodeValue v)
  | .call form owner name none => encodeCall form owner name .null
  | .call form owner name (some args) => encodeCall form owner name (.array (encodeTokens args))
  | .operator op => single "Operator" (encodeOperator op)
  | .opening => single "Punctuation" (.text "Open")
  | .closing => single "Punctuation" (.text "Close")
  | .keyword word => single "Keyword" (.text (nameIn keywords word))
termination_by structural k => k

def encodeTokens : List Token → List Json
  | [] => []
  | t :: ts => encodeToken t :: encodeTokens ts
termination_by structural ts => ts

end

/-- Decodes a token whose arguments are nested at most `bound` deep. -/
def decodeTokenWithin : (bound : Nat) → Decoder Token
  | 0, _, _ => none
  | bound + 1, m, j => do
    let (m, fields) ← Json.recordFields? ["kind", "position"] false m j
    match fields with
    | [some (.object [(some variant, content)]), position] =>
      let position ← Decoder.required (Decoder.natBelow UInt64.size) m position
      let inner ← m.enter?
      let kind ← match variant with
        | "Literal" => (decodeValue inner content).map TokenKind.literal
        | "Reference" => decodeCall bound .reference inner content
        | "Generator" => decodeCall bound .generator inner content
        | "Operator" => (plain operators inner content).map TokenKind.operator
        | "Punctuation" =>
          plain [("Open", TokenKind.opening), ("Close", TokenKind.closing)] inner content
        | "Keyword" => (plain keywords inner content).map TokenKind.keyword
        | _ => none
      return .mk kind position
    | _ => none
where
  decodeCall (bound : Nat) (form : CallForm) : Decoder TokenKind := fun m j => do
    let (m, fields) ← Json.recordFields? ["owner", "name", "args"] false m j
    match fields with
    | [owner, name, args] =>
      return .call form (← Decoder.optional Decoder.text m owner)
        (← Decoder.required Decoder.text m name)
        (← Decoder.optional (Decoder.list (decodeTokenWithin bound)) m args)
    | _ => none

/-- Decodes a token. Every level of arguments opens several levels of JSON. -/
def decodeToken : Decoder Token := decodeTokenWithin 64

def encodeUse (form : CallForm) (owner : Option String) (name : String) (args : Json)
    (position : Nat) : Json :=
  .record [("type", .text "Reference"), ("owner", .optional .text owner), ("name", .text name),
    ("args", args), ("generator", .bool (form = .generator)), ("position", .nat position)]

def encodeConditional (branches : List Json) (otherwise : Json) (position : Nat) : Json :=
  .record [("type", .text "Conditional"), ("branches", .array branches), ("otherwise", otherwise),
    ("position", .nat position)]

mutual

def encodeAst : Ast → Json
  | .literal v position =>
    .record [("type", .text "Literal"), ("value", encodeValue v), ("position", .nat position)]
  | .call form owner name none position => encodeUse form owner name .null position
  | .call form owner name (some args) position =>
    encodeUse form owner name (.array (encodeAsts args)) position
  | .conditional branches none position =>
    encodeConditional (encodeBranches branches) .null position
  | .conditional branches (some last) position =>
    encodeConditional (encodeBranches branches) (encodeAst last) position
  | .operation op left right position =>
    .record [("type", .text "Operation"), ("op", encodeOperator op), ("left", encodeAst left),
      ("right", encodeAst right), ("position", .nat position)]
termination_by structural e => e

def encodeAsts : List Ast → List Json
  | [] => []
  | e :: es => encodeAst e :: encodeAsts es
termination_by structural es => es

def encodeBranches : List (Ast × Ast) → List Json
  | [] => []
  | (guard, body) :: bs => .array [encodeAst guard, encodeAst body] :: encodeBranches bs
termination_by structural bs => bs

end

/-- Names of the variants of an expression with the names of their fields, both in order. -/
def astVariants : List (String × List String) :=
  [("Literal", ["value", "position"]),
    ("Reference", ["owner", "name", "args", "generator", "position"]),
    ("Conditional", ["branches", "otherwise", "position"]),
    ("Operation", ["op", "left", "right", "position"])]

/-- The tag of an expression and the data without it. -/
def splitTag? (j : Json) : Option (Json × Json) := do
  match j with
  | .object fields =>
    match ← Json.namedFields? ["type"] fields with
    | [some tag] => return (tag, .object (fields.filter fun f => f.1 ≠ some "type"))
    | _ => none
  | .array (tag :: rest) => return (tag, .array rest)
  | _ => none

/-- A pair of two expressions. -/
def pair {α : Type} (d : Decoder α) : Decoder (α × α)
  | m, .array [a, b] => do return (← d m a, ← d m b)
  | _, _ => none

/-- Decodes an expression nested at most `bound` deep. The tag may stand anywhere, so all of it is
buffered. -/
def decodeAstWithin : (bound : Nat) → Decoder Ast
  | 0, _, _ => none
  | bound + 1, m, j => do
    let (tag, rest) ← splitTag? j
    let variant ← Json.variant? (astVariants.map Prod.fst) m tag
    let (_, names) ← astVariants[variant]?
    let m ← m.buffer? j
    let (m, fields) ← Json.recordFields? names false m rest
    let sub := decodeAstWithin bound
    let position := Decoder.required (Decoder.natBelow UInt64.size) m
    match variant, fields with
    | 0, [value, place] =>
      return .literal (← Decoder.required decodeValue m value) (← position place)
    | 1, [owner, name, args, generator, place] =>
      let generator ← Decoder.required Decoder.bool m generator
      return .call (if generator then .generator else .reference)
        (← Decoder.optional Decoder.text m owner) (← Decoder.required Decoder.text m name)
        (← Decoder.optional (Decoder.list sub) m args) (← position place)
    | 2, [branches, otherwise, place] =>
      return .conditional (← Decoder.required (Decoder.list (pair sub)) m branches)
        (← Decoder.optional sub m otherwise) (← position place)
    | 3, [op, left, right, place] =>
      return .operation (← Decoder.required (plain operators) m op) (← Decoder.required sub m left)
        (← Decoder.required sub m right) (← position place)
    | _, _ => none

/-- Decodes an expression. No more than 127 of its levels can be open at once. -/
def decodeAst : Decoder Ast := decodeAstWithin 128

end ChatFlow.Wire
