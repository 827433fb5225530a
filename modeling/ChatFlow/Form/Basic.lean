import ChatFlow.Number.Decimal
import ChatFlow.Text.Quoted

/-!
Forms: the nested lists that documents are written in.
-/
namespace ChatFlow

inductive Form where
  | symbol (name : String)
  /-- A symbol marked by a colon, which names an attribute. -/
  | keyword (name : String)
  | string (text : String)
  | int (number : Int64)
  | float (number : Binary64)
  | bool (flag : Bool)
  | list (items : List Form)
deriving Inhabited

namespace Form

/-- Text of a form. -/
def render : Form → String
  | symbol name => name
  | keyword name => ":" ++ name
  | string s => Text.quote s
  | int n => toString n.toInt
  | float x => x.render
  | bool b => if b then "true" else "false"
  | list items => "(" ++ " ".intercalate (renderItems items) ++ ")"
where
  renderItems : List Form → List String
    | [] => []
    | f :: fs => render f :: renderItems fs

/-- Whether a list starts with the given symbol. -/
def isHeadedBy (head : String) : List Form → Bool
  | symbol name :: _ => name == head
  | _ => false

end Form
end ChatFlow
