import ChatFlow.Flow.Access
import ChatFlow.Form.Read

/-!
The common shape of the forms of a document: attributes, which are keywords with a value, and
nested lists.
-/
namespace ChatFlow.Document
open Flow

/-- Why a document is refused. -/
inductive LoadError where
  | unreadable (error : Form.ReadError)
  /-- A top-level form that declares neither roles nor a tree. -/
  | unexpectedForm (found : String)
  | unexpectedRole (found : String)
  /-- An expression of a node is refused. -/
  | expression (node key : String) (error : Expr.ParseError)
  | configuration (error : ConfigError)
deriving DecidableEq

def LoadError.message : LoadError → String
  | unreadable error => s!"invalid document syntax: {error.message}"
  | unexpectedForm found =>
    s!"invalid document syntax: expected (roles ...) or (tree ...), found {found}"
  | unexpectedRole found => s!"invalid document syntax: expected (role ...), found {found}"
  | expression node key error => s!"{node}: attribute '{key}': {error.message}"
  | configuration error => s!"configuration error: {error.message}"

def invalid {α : Type} (path key : String) (flaw : Flaw) : Except LoadError α :=
  .error (.configuration (.invalidAttribute path key flaw))

def liftConfig {α : Type} (r : Except ConfigError α) : Except LoadError α :=
  r.mapError .configuration

/-- Attributes and nested lists of a form, each in order. -/
structure Parts where
  attributes : List (String × Form)
  nested : List (List Form)

/-- Splits the items of a form at the path of its node. -/
def Parts.ofItems (path : String) : List Form → Except LoadError Parts
  | [] => .ok ⟨[], []⟩
  | .keyword key :: .keyword _ :: _ => invalid path key .missingValue
  | .keyword key :: value :: rest => do
    let parts ← ofItems path rest
    return { parts with attributes := (key, value) :: parts.attributes }
  | [.keyword key] => invalid path key .missingValue
  | .list items :: rest => do
    let parts ← ofItems path rest
    return { parts with nested := items :: parts.nested }
  | item :: _ => invalid path "form" (.unexpectedItem item.render)

/-- A name is written as a symbol or as a string. -/
def nameOf? : Form → Option String
  | .symbol s | .string s => some s
  | _ => none

def expectText (path key : String) (f : Form) : Except LoadError String :=
  match nameOf? f with
  | some s => .ok s
  | none => invalid path key (.notAString f.render)

/-- A list of texts; one text stands for a list of its own. -/
def expectTexts (path key : String) (f : Form) : Except LoadError (List String) :=
  match f with
  | .list items => items.mapM (expectText path key)
  | f => do return [← expectText path key f]

def expectLevel (path key : String) (f : Form) : Except LoadError UInt32 :=
  match f with
  | .int n =>
    if 0 ≤ n.toInt ∧ n.toInt < UInt32.size then .ok (UInt32.ofNat n.toInt.toNat)
    else invalid path key (.levelOutOfRange n.toInt)
  | f => invalid path key (.notAnInteger f.render)

/-- One attribute of a role. -/
def roleAttribute (path : String) (r : Role) (key : String) (value : Form) :
    Except LoadError Role := do
  match key with
  | "level" => return { r with level := some (← expectLevel path key value) }
  | "trees" => return { r with trees := some (← expectTexts path key value) }
  | "on-denied" => return { r with onDenied := some (← expectText path key value) }
  | _ => invalid path key .unknownRoleAttribute

/-- Reads the declaration of a role. -/
def readRole (f : Form) : Except LoadError Role := do
  match f with
  | .list (.symbol "role" :: items) =>
    match items.head?.bind nameOf? with
    | none => .error (.configuration (.malformedRole "<unnamed>" .unnamed))
    | some name =>
      let path := "roles/" ++ name
      let parts ← Parts.ofItems path items.tail
      let role ← parts.attributes.foldlM (fun r (key, value) => roleAttribute path r key value)
        ⟨name, none, none, none⟩
      liftConfig role.check
      return role
  | f => .error (.unexpectedRole f.render)

end ChatFlow.Document
