import ChatFlow.Session.Basic
import ChatFlow.Text.Quoted
import ChatFlow.Wire.Expr

/-!
One line of text for a token or an outcome, as the command line lists them: the name of a variant
with its content in parentheses, or with its named fields in braces.
-/
namespace ChatFlow.Listing
open Flow Expr

def variant (name content : String) : String := s!"{name}({content})"

/-- A variant with named fields. -/
def withFields (name : String) (fields : List (String × String)) : String :=
  name ++ " \x7b " ++ ", ".intercalate (fields.map fun f => f.1 ++ ": " ++ f.2) ++ " \x7d"

def optional {α : Type} (f : α → String) : Option α → String
  | none => "None"
  | some a => variant "Some" (f a)

def items (l : List String) : String := "[" ++ ", ".intercalate l ++ "]"

def bool (b : Bool) : String := if b then "true" else "false"

/-- Digits with a point after the first one, and the exponent that this takes. -/
def scientific (d : Binary64.Decimal) : String :=
  let digits := (toString d.digits).toList
  let fraction := if digits.length ≤ 1 then [] else '.' :: digits.drop 1
  String.ofList (digits.take 1 ++ fraction) ++
    s!"e{d.exponent + (digits.length : Int) - 1}"

/-- Text of a positive finite number: with an exponent below 10^-4 and from 10^16 on, else with at
least one digit after the point. -/
def positiveFloat (x : Binary64) : String :=
  let d := x.shortest
  let order := d.exponent + ((toString d.digits).toList.length : Int) - 1
  if order < -4 ∨ 16 ≤ order then scientific d
  else if d.exponent < 0 then d.render
  else d.render ++ ".0"

def float (x : Binary64) : String :=
  if x.isNaN then "NaN"
  else
    (if x.isNegative then "-" else "") ++
      if x.isInfinite then "inf"
      else if x.magnitude = 0 then "0.0"
      else positiveFloat (.ofPattern false (x.bits.toNat % 1 <<< 63))

def value : Value → String
  | .null => "Null"
  | .bool b => variant "Bool" (bool b)
  | .int n => variant "Int" (toString n.toInt)
  | .float x => variant "Float" (float x)
  | .str s => variant "Str" (Text.quote s)
  | .list vs => variant "List" (items (values vs))
where
  values : List Value → List String
    | [] => []
    | v :: vs => value v :: values vs

def kind : Kind → String
  | .str => "Str"
  | k => k.name

/-- A use of a member, its arguments given as text. -/
def call (form : CallForm) (owner : Option String) (name : String) (args : Option (List String)) :
    String :=
  variant (if form = .reference then "Reference" else "Generator")
    (withFields "ReferenceToken" [("owner", optional Text.quote owner), ("name", Text.quote name),
      ("args", optional items args)])

mutual

def token : Token → String
  | .mk k position => withFields "Token" [("kind", tokenKind k), ("position", toString position)]
termination_by structural t => t

def tokenKind : TokenKind → String
  | .literal v => variant "Literal" (value v)
  | .call form owner name none => call form owner name none
  | .call form owner name (some args) => call form owner name (some (tokens args))
  | .operator op => variant "Operator" (Wire.nameIn Wire.operators op)
  | .opening => variant "Punctuation" "Open"
  | .closing => variant "Punctuation" "Close"
  | .keyword word => variant "Keyword" (Wire.nameIn Wire.keywords word)
termination_by structural k => k

def tokens : List Token → List String
  | [] => []
  | t :: ts => token t :: tokens ts
termination_by structural ts => ts

end

/-- One line of a list of tokens: the offset in four columns, then the kind. -/
def tokenLine (t : Token) : String :=
  let position := (toString t.position).toList
  String.ofList (List.replicate (4 - position.length) ' ' ++ position) ++ "  " ++
    tokenKind t.kind ++ "\n"

def node (id : NodeId) : String := variant "NodeId" (toString id)

def editTarget : EditTarget → String
  | .first => "First"
  | .named name => variant "Named" (Text.quote name)

def editSource : EditSource → String
  | .last => "Last"
  | .callback => "Callback"

def landing (l : Landing) : String :=
  withFields "Landing" [("at", node l.place), ("edit", optional editTarget l.edit),
    ("edit_source", optional editSource l.editSource)]

def outcome : Outcome → String
  | .ignored => "Ignored"
  | .entered tree l => withFields "Entered" [("tree", node tree), ("landing", landing l)]
  | .branched branch l => withFields "Branched" [("branch", node branch), ("landing", landing l)]
  | .defaulted branch l => withFields "Defaulted" [("branch", node branch), ("landing", landing l)]
  | .denied tree fallback =>
    withFields "Denied" [("tree", node tree), ("fallback", optional landing fallback)]
  | .cancelled place => withFields "Cancelled" [("at", optional node place)]

end ChatFlow.Listing
