import ChatFlow.Document.Load
import ChatFlow.Proofs.Results

/-! Nested lists in the forms of roles and actions: a document says the same without them. -/
namespace ChatFlow.Document
open Flow Expr
variable {ω η : Type}

/-- Items without the lists among them. The values of attributes stay, also when they are lists. -/
def dropLists : List Form → List Form
  | [] => []
  | .keyword key :: value :: rest => .keyword key :: value :: dropLists rest
  | .list _ :: rest => dropLists rest
  | f :: rest => f :: dropLists rest

/-- A role without nested lists. -/
def pruneRole : Form → Form
  | .list (.symbol "role" :: name :: rest) => .list (.symbol "role" :: name :: dropLists rest)
  | f => f

/-- An action without nested lists. What follows its head and is no keyword is its argument, which may
be a list. -/
def pruneAction : Form → Form
  | .list (.symbol head :: .keyword key :: rest) =>
    .list (.symbol head :: dropLists (.keyword key :: rest))
  | .list (.symbol head :: argument :: rest) => .list (.symbol head :: argument :: dropLists rest)
  | f => f

/-- What the items of a nested list are. -/
inductive Makeup where
  | actions
  /-- Attributes and further nested lists. -/
  | forms

/-- What is in a nested list of a node or a transition, from its head. -/
def makeup? : String → Option Makeup
  | "actions" | "on-exit" | "on-reenter" => some .actions
  | "branch" | "default" | "transition" => some .forms
  | _ => none

mutual

/-- A nested list whose actions, at any depth, are without nested lists. -/
def pruneList : List Form → List Form
  | .symbol head :: items =>
    .symbol head ::
      match makeup? head with
      | some .actions => items.map pruneAction
      | some .forms => pruneItems items
      | none => items
  | items => items
termination_by structural items => items

def pruneNested : Form → Form
  | .list items => .list (pruneList items)
  | f => f
termination_by structural f => f

/-- The items of a node or a transition. The values of attributes hold no actions. -/
def pruneItems : List Form → List Form
  | [] => []
  | .keyword key :: value :: rest => .keyword key :: value :: pruneItems rest
  | f :: rest => pruneNested f :: pruneItems rest
termination_by structural items => items

end

/-- A top-level form whose roles and actions are without nested lists. -/
def pruneTop : Form → Form
  | .list (.symbol "roles" :: items) => .list (.symbol "roles" :: items.map pruneRole)
  | .list (.symbol "tree" :: items) => .list (.symbol "tree" :: pruneItems items)
  | f => f

/-! The parts of a form lose their nested lists, or keep them pruned, and nothing else changes. -/

theorem ofItems_dropLists (path : String) (items : List Form) :
    Parts.ofItems path (dropLists items) =
      (fun parts => { parts with nested := [] }) <$> Parts.ofItems path items := by
  fun_induction Parts.ofItems path items with
  | case1 => rfl
  | case2 key key' rest => rfl
  | case3 key value rest hvalue ih =>
    rw [dropLists, Parts.ofItems, ih]
    · cases Parts.ofItems path rest <;> rfl
    · exact hvalue
  | case4 key => rfl
  | case5 items rest ih =>
    rw [dropLists, ih]
    cases Parts.ofItems path rest <;> rfl
  | case6 f rest h₁ h₂ h₃ h₄ =>
    cases f with
    | keyword key => cases rest with
      | nil => exact (h₃ key rfl rfl).elim
      | cons value rest => exact (h₂ key value rest rfl rfl).elim
    | list items => exact (h₄ items rfl).elim
    | _ => rfl

/-- Parts whose actions, at any depth, are without nested lists. -/
def Parts.prune (parts : Parts) : Parts := { parts with nested := parts.nested.map pruneList }

theorem pruneList_symbol {items : List Form} {head : String} :
    (∃ rest, pruneList items = .symbol head :: rest) ↔ ∃ rest, items = .symbol head :: rest := by
  unfold pruneList
  split
  · simp
  · rfl

theorem pruneItems_cons {f : Form} (hf : ∀ key, f ≠ .keyword key) (rest : List Form) :
    pruneItems (f :: rest) = pruneNested f :: pruneItems rest := by
  rw [pruneItems]
  rintro key _ _ rfl
  exact (hf key rfl).elim

theorem ofItems_pruneItems (path : String) (items : List Form) :
    Parts.ofItems path (pruneItems items) = Parts.prune <$> Parts.ofItems path items := by
  fun_induction Parts.ofItems path items with
  | case1 => rw [pruneItems]; rfl
  | case2 key key' rest => rw [pruneItems]; rfl
  | case3 key value rest hvalue ih =>
    rw [pruneItems, Parts.ofItems, ih]
    · cases Parts.ofItems path rest <;> rfl
    · exact hvalue
  | case4 key => rfl
  | case5 items rest ih =>
    rw [pruneItems_cons (by simp), pruneNested, Parts.ofItems, ih]
    cases Parts.ofItems path rest <;> rfl
  | case6 f rest h₁ h₂ h₃ h₄ =>
    cases f with
    | keyword key => cases rest with
      | nil => exact (h₃ key rfl rfl).elim
      | cons value rest => exact (h₂ key value rest rfl rfl).elim
    | list items => exact (h₄ items rfl).elim
    | _ => rfl

theorem readRole_pruneRole (f : Form) : readRole (pruneRole f) = readRole f := by
  unfold pruneRole
  split
  · rename_i name rest
    simp only [readRole, List.head?_cons, List.tail_cons, ofItems_dropLists, bind_map_left]
  · rfl

theorem dropLists_keyword (key : String) (rest : List Form) :
    ∃ rest', dropLists (.keyword key :: rest) = .keyword key :: rest' := by
  cases rest with
  | nil => exact ⟨[], rfl⟩
  | cons value rest => exact ⟨value :: dropLists rest, rfl⟩

namespace Subject
variable (s : Subject ω η)

theorem action_pruneAction (f : Form) : s.action (pruneAction f) = s.action f := by
  unfold pruneAction
  split
  · rename_i head key rest
    obtain ⟨rest', hdropped⟩ := dropLists_keyword key rest
    rw [hdropped]
    simp only [action]
    rw [← hdropped, ofItems_dropLists]
    simp only [liftM_map, bind_map_left]
  · rename_i head argument rest hkeyword
    simp only [action, ofItems_dropLists, liftM_map, bind_map_left]
  · rfl

theorem actions_pruneAction (fs : List Form) : s.actions (fs.map pruneAction) = s.actions fs := by
  rw [actions, List.mapM_map]
  exact congrArg (List.mapM · fs) (funext (action_pruneAction s))

theorem transitionHead_pruneItems (origin : NodeId) (depth : Nat) (items : List Form) :
    s.transitionHead origin depth (pruneItems items) = s.transitionHead origin depth items := by
  simp only [transitionHead, ofItems_pruneItems, liftM_map, bind_map_left, Parts.prune]

/-- Both readers of a transition, which call each other, see the same actions. -/
theorem transitions_prune :
    (∀ origin depth f head items, f = .list (head :: items) →
      s.transitions origin depth (.list (head :: pruneItems items)) = s.transitions origin depth f) ∧
    ∀ leaves depth as ts items, s.transitionBody leaves depth as ts (pruneItems items) =
      s.transitionBody leaves depth as ts items := by
  apply transitions.mutual_induct s
    (fun origin depth f => ∀ head items, f = .list (head :: items) →
      s.transitions origin depth (.list (head :: pruneItems items)) = s.transitions origin depth f)
    (fun leaves depth as ts items => s.transitionBody leaves depth as ts (pruneItems items) =
      s.transitionBody leaves depth as ts items)
  case case1 =>
    intro origin depth head items ih head' items' hf
    cases hf
    simp only [transitions, transitionHead_pruneItems, ih]
  case case2 =>
    rintro f origin depth hf head items rfl
    exact (hf head items rfl).elim
  case case3 =>
    intro leaves depth as ts
    rw [pruneItems]
  case case4 =>
    intro leaves depth as ts key value rest ih
    rw [pruneItems, transitionBody, transitionBody, ih]
  case case5 =>
    intro leaves depth as ts items rest ih
    rw [pruneItems_cons (by simp), pruneNested, pruneList]
    simp only [makeup?, transitionBody, actions_pruneAction, ih]
  case case6 | case7 =>
    intro leaves depth as ts items rest hts ih ihrest
    rw [pruneItems_cons (by simp), pruneNested, pruneList]
    simp only [makeup?, transitionBody, ih _ _ rfl, ihrest]
  case case8 =>
    intro leaves depth as ts items rest h₁ h₂
    rw [pruneItems_cons (by simp), pruneNested, transitionBody, transitionBody]
    · exact h₁
    · exact h₂
    · intro rest' h
      obtain ⟨items', rfl⟩ := pruneList_symbol.1 ⟨rest', h⟩
      exact h₁ items' rfl
    · intro rest' h
      obtain ⟨items', rfl⟩ := pruneList_symbol.1 ⟨rest', h⟩
      exact h₂ items' rfl
  case case9 =>
    intro leaves depth as ts f rest h₁ h₂ h₃ h₄ ih
    cases f with
    | keyword key => cases rest with
      | nil => rfl
      | cons value rest => exact (h₁ key value rest rfl rfl).elim
    | list items => exact (h₄ items rfl).elim
    | _ =>
      rw [pruneItems_cons (by simp), pruneNested.eq_2 _ (by simp), transitionBody, transitionBody, ih] <;>
        simp

theorem nodeForm_pruneList (c : Content ω η) (items : List Form) :
    s.nodeForm c (pruneList items) = s.nodeForm c items := by
  cases items with
  | nil => rfl
  | cons f items => cases f with
    | symbol head =>
      rw [pruneList]
      unfold nodeForm
      dsimp only
      split
      case h_6 => simp only [makeup?, s.transitions_prune.1 _ _ _ _ _ rfl]
      all_goals simp only [makeup?, actions_pruneAction]
    | _ => rfl

theorem content_prune (parts : Parts) : s.content parts.prune = s.content parts := by
  simp only [content, Parts.prune, List.foldlM_map, nodeForm_pruneList]

end Subject

/-- A draft whose nodes have pruned parts. -/
def Draft.prune (d : Draft ω η) : Draft ω η :=
  { d with pending := d.pending.map (Prod.map id Parts.prune) }

variable {ns : Namespace ω η} {g : Flow.Graph ω η}

theorem nameOf_pruneItems (items : List Form) :
    (pruneItems items).head?.bind nameOf? = items.head?.bind nameOf? := by
  cases items with
  | nil => rfl
  | cons f rest => cases f with
    | keyword key => cases rest <;> rfl
    | list items => rfl
    | _ => rfl

/-- What follows a name, or all of the items when they start with none. -/
theorem unnamed_pruneItems (items : List Form) :
    (if (items.head?.bind nameOf?).isSome then (pruneItems items).tail else pruneItems items) =
      pruneItems (if (items.head?.bind nameOf?).isSome then items.tail else items) := by
  split
  · rename_i hnamed
    cases items with
    | nil => cases hnamed
    | cons f rest => cases f with
      | symbol | string => rfl
      | _ => cases hnamed
  · rfl

theorem declaredName_pruneItems (place : Place) (items : List Form) :
    declaredName g place (pruneItems items).head? = declaredName g place items.head? := by
  unfold declaredName
  rw [nameOf_pruneItems]

theorem declaredNode_pruneItems (place : Place) (items : List Form) :
    declaredNode ns g place (pruneItems items) =
      Prod.map id Parts.prune <$> declaredNode ns g place items := by
  simp only [declaredNode, declaredName_pruneItems, nameOf_pruneItems, unnamed_pruneItems,
    ofItems_pruneItems, map_bind, bind_map_left]
  refine congrArg _ (funext fun name => congrArg _ (funext fun parts => ?_))
  cases place with
  | top =>
    simp only [map_bind]
    rfl
  | below parent kind => rfl

theorem ofItems_pruneList (items : List Form) :
    BranchKind.ofItems? (pruneList items) = BranchKind.ofItems? items := by
  have hheaded (head : String) :
      Form.isHeadedBy head (pruneList items) = Form.isHeadedBy head items := by
    cases items with
    | nil => rfl
    | cons f items => cases f <;> rfl
  rw [BranchKind.ofItems?, BranchKind.ofItems?, hheaded, hheaded]

theorem symbol_of_ofItems {items : List Form} {kind : BranchKind}
    (h : BranchKind.ofItems? items = some kind) :
    ∃ head rest, items = .symbol head :: rest ∧ makeup? head = some .forms := by
  cases items with
  | nil => cases h
  | cons f rest => cases f with
    | symbol head =>
      refine ⟨head, rest, rfl, ?_⟩
      simp only [BranchKind.ofItems?, Form.isHeadedBy, beq_iff_eq] at h
      split at h
      · subst head
        rfl
      · split at h
        · subst head
          rfl
        · cases h
    | _ => cases h

/-- Declaring a node and declaring what is below it, which call each other, leave more to be read in the
same way. -/
theorem declare_prune (ns : Namespace ω η) :
    (∀ d place f head items, f = .list (head :: items) →
      declare ns d.prune place (.list (head :: pruneItems items)) =
        Draft.prune <$> declare ns d place f) ∧
    ∀ d parent items, declareBelow ns d.prune parent (pruneItems items) =
      Draft.prune <$> declareBelow ns d parent items := by
  apply declare.mutual_induct
    (fun d place f => ∀ head items, f = .list (head :: items) →
      declare ns d.prune place (.list (head :: pruneItems items)) =
        Draft.prune <$> declare ns d place f)
    (fun d parent items => declareBelow ns d.prune parent (pruneItems items) =
      Draft.prune <$> declareBelow ns d parent items)
  case case1 =>
    rintro d place head items id ih _ _ ⟨⟩
    rw [declare, declare]
    simp only [declaredNode_pruneItems, map_bind, bind_map_left]
    refine congrArg _ (funext fun (node, parts) => congrArg _ (funext fun g => ?_))
    have hbelow : declareBelow ns { graph := g, pending := d.prune.pending } d.prune.graph.size
        (pruneItems items) = Draft.prune <$> declareBelow ns { d with graph := g } id items := ih g
    rw [hbelow, bind_map_left]
    refine congrArg _ (funext fun d' => ?_)
    simp [Draft.prune]
  case case2 =>
    rintro f d place hf head items rfl
    exact (hf head items rfl).elim
  case case3 =>
    intro d parent
    rw [pruneItems, declareBelow, declareBelow]
    rfl
  case case4 =>
    intro d parent key value rest ih
    rw [pruneItems, declareBelow, declareBelow, ih]
  case case5 =>
    intro d parent items rest kind hkind ih ihrest
    rw [pruneItems_cons (by simp), pruneNested, declareBelow, declareBelow, ofItems_pruneList, hkind]
    obtain ⟨head, items', rfl, hhead⟩ := symbol_of_ofItems hkind
    simp only [pruneList, hhead, ih _ _ rfl, map_bind, bind_map_left, ihrest]
  case case6 =>
    intro d parent items rest hkind ih
    rw [pruneItems_cons (by simp), pruneNested, declareBelow, declareBelow, ofItems_pruneList, hkind]
    exact ih
  case case7 =>
    intro d parent f rest hkey hlist ih
    cases f with
    | keyword key => cases rest with
      | nil => rfl
      | cons value rest => exact (hkey key value rest rfl rfl).elim
    | list items => exact (hlist items rfl).elim
    | _ =>
      rw [pruneItems_cons (by simp), pruneNested.eq_2 _ (by simp), declareBelow, declareBelow, ih] <;>
        simp

/-- Declarations with the parts of all nodes pruned. -/
def Declarations.prune (d : Declarations ω η) : Declarations ω η := { d with draft := d.draft.prune }

theorem declareForm_pruneTop (d : Declarations ω η) (f : Form) :
    declareForm ns d.prune (pruneTop f) = Declarations.prune <$> declareForm ns d f := by
  unfold pruneTop
  split
  · rename_i items
    have hroles : (items.map pruneRole).mapM readRole = items.mapM readRole := by
      rw [List.mapM_map]
      exact congrArg (List.mapM · items) (funext readRole_pruneRole)
    simp only [declareForm, hroles, map_bind]
    rfl
  · simp only [declareForm, map_bind, Declarations.prune]
    rw [(declare_prune ns).1 _ _ _ _ _ rfl, bind_map_left]
    rfl
  · rename_i hroles htree
    unfold declareForm
    split
    · exact (hroles _ rfl).elim
    · exact (htree _ rfl).elim
    · rfl

theorem declareForms_prune (forms : List Form) (d : Declarations ω η) :
    (forms.map pruneTop).foldlM (declareForm ns) d.prune =
      Declarations.prune <$> forms.foldlM (declareForm ns) d := by
  induction forms generalizing d with
  | nil => rfl
  | cons f forms ih =>
    rw [List.map_cons, List.foldlM_cons, List.foldlM_cons, declareForm_pruneTop, bind_map_left,
      map_bind]
    exact congrArg _ (funext ih)

theorem populate_prune (l : Library ω η) (bare g : Flow.Graph ω η) (id : NodeId) (parts : Parts) :
    populate l bare g id parts.prune = populate l bare g id parts := by
  rw [populate, populate, Subject.content_prune]

/-- Loading takes no notice of the nested lists of roles and actions. -/
theorem loadForms_prune (l : Library ω η) (forms : List Form) :
    loadForms l (forms.map pruneTop) = loadForms l forms := by
  have hdeclared : (forms.map pruneTop).foldlM (declareForm l.members) .empty =
      Declarations.prune <$> forms.foldlM (declareForm l.members) .empty :=
    declareForms_prune forms Declarations.empty
  simp only [loadForms, hdeclared, bind_map_left]
  simp only [Declarations.prune, Draft.prune, List.foldlM_map, Prod.map, populate_prune]
  rfl

end ChatFlow.Document
