import ChatFlow.Document.Content
import ChatFlow.Flow.Cycle

/-!
Loading a document: declare all nodes, read their contents, then the roles, and check the automatic
transitions last.
-/
namespace ChatFlow.Document
open Flow Expr
variable {ω η : Type}

/-- What the top-level forms declare. -/
structure Declarations (ω η : Type) where
  draft : Draft ω η
  roles : List Role

def Declarations.empty : Declarations ω η := ⟨⟨.empty, []⟩, []⟩

/-- One top-level form. -/
def declareForm (ns : Namespace ω η) (d : Declarations ω η) (f : Form) :
    Except LoadError (Declarations ω η) :=
  match f with
  | .list (.symbol "roles" :: items) => do
    return { d with roles := d.roles ++ (← items.mapM readRole) }
  | .list (.symbol "tree" :: _) => do return { d with draft := ← declare ns d.draft .top f }
  | f => .error (.unexpectedForm f.render)

/-- Reads the content of a pending node into the graph. Names are looked up in the graph of the
first pass, whose nodes differ from those of `g` in their contents only. -/
def populate (l : Library ω η) (bare g : Flow.Graph ω η) (id : NodeId) (parts : Parts) :
    Reading (Flow.Graph ω η) := do
  let content ← Subject.content ⟨l, bare, id⟩ parts
  return g.modify id content.fill

/-- The graph of a document given by its forms. -/
def loadForms (l : Library ω η) (forms : List Form) : Except LoadError (Flow.Graph ω η) := do
  let d ← forms.foldlM (declareForm l.members) .empty
  let bare := d.draft.graph
  if bare.trees.isEmpty then throw (.configuration .noTrees)
  let (g, _) ← (d.draft.pending.foldlM (fun g (id, parts) => populate l bare g id parts) bare).run 0
  let g ← d.roles.foldlM
    (fun g role => liftConfig do g.insertGrant (← role.resolve g)) g
  liftConfig g.checkCycles
  return g

/-- Loads the text of a document. -/
def load (l : Library ω η) (text : String) : Except LoadError (Flow.Graph ω η) :=
  match Form.readAll text with
  | .ok forms => loadForms l forms
  | .error e => .error (.unreadable e)

end ChatFlow.Document
