import ChatFlow.Proofs.Document.Pruned
import ChatFlow.Proofs.Document.Validated

/-! What the roles and actions of a document are made of once it has been loaded: all of their
attributes are recognised, but a nested list among them is passed over. -/
namespace ChatFlow.Document
open Flow Expr
variable {ω η : Type}

/-- Whether items are attributes of the given names, each with its value, and nothing else. -/
def arePairs (keys : List String) : List Form → Bool
  | [] => true
  | .keyword _ :: .keyword _ :: _ => false
  | .keyword key :: _ :: rest => keys.contains key && arePairs keys rest
  | _ => false

/-- Names of the attributes that a role may have. -/
def roleAttributes : List String := ["level", "trees", "on-denied"]

/-- Names of the attributes that an action may have. -/
def actionAttributes : List String := ["when"]

/-- Whether a form is a role of which only a name and recognised attributes are given. -/
def isPlainRole : Form → Bool
  | .list (.symbol "role" :: name :: rest) =>
    (nameOf? name).isSome && arePairs roleAttributes rest
  | _ => false

/-- Whether a form is an action of which only a head, an argument at most, and recognised attributes are
given. -/
def isPlainAction : Form → Bool
  | .list (.symbol _ :: .keyword key :: rest) => arePairs actionAttributes (.keyword key :: rest)
  | .list (.symbol _ :: _ :: rest) => arePairs actionAttributes rest
  | .list [.symbol _] => true
  | _ => false

mutual

/-- The actions in a nested list, at any depth. -/
def actionsOfList : List Form → List Form
  | .symbol head :: items =>
    match makeup? head with
    | some .actions => items
    | some .forms => actionsOfItems items
    | none => []
  | _ => []
termination_by structural items => items

def actionsOfNested : Form → List Form
  | .list items => actionsOfList items
  | _ => []
termination_by structural f => f

/-- The actions of a node or a transition and of what is nested in it. -/
def actionsOfItems : List Form → List Form
  | [] => []
  | .keyword _ :: _ :: rest => actionsOfItems rest
  | f :: rest => actionsOfNested f ++ actionsOfItems rest
termination_by structural items => items

end

/-- The actions in a top-level form. -/
def actionsOf : Form → List Form
  | .list (.symbol "tree" :: items) => actionsOfItems items
  | _ => []

/-- The roles in a top-level form. -/
def rolesOf : Form → List Form
  | .list (.symbol "roles" :: items) => items
  | _ => []

/-- Whether only recognised parts are given of the roles and actions in a top-level form. -/
def isPlain (f : Form) : Bool := (rolesOf f).all isPlainRole && (actionsOf f).all isPlainAction

/-! Pruning changes each role and each action, and finds no others. -/

theorem actionsOfItems_cons {f : Form} (hf : ∀ key, f ≠ .keyword key) (rest : List Form) :
    actionsOfItems (f :: rest) = actionsOfNested f ++ actionsOfItems rest := by
  rw [actionsOfItems]
  rintro key _ _ rfl
  exact (hf key rfl).elim

theorem actionsOfItems_pruneItems :
    ∀ items, actionsOfItems (pruneItems items) = (actionsOfItems items).map pruneAction := by
  refine (pruneList.mutual_induct
    (fun items => actionsOfList (pruneList items) = (actionsOfList items).map pruneAction)
    (fun items => actionsOfItems (pruneItems items) = (actionsOfItems items).map pruneAction)
    (fun f => actionsOfNested (pruneNested f) = (actionsOfNested f).map pruneAction)
    ?nested ?atom ?headed ?headless ?nil ?pair ?cons).2.1
  case nested =>
    intro items ih
    exact ih
  case atom =>
    intro f hf
    rw [pruneNested.eq_2 f hf, actionsOfNested.eq_2 f hf, List.map_nil]
  case headed =>
    intro head items ih
    rw [pruneList, actionsOfList, actionsOfList]
    cases makeup? head with
    | none => rfl
    | some makeup => cases makeup with
      | actions => rfl
      | forms => exact ih
  case headless =>
    intro items hitems
    rw [pruneList.eq_2 items hitems, actionsOfList.eq_2 items hitems, List.map_nil]
  case nil => rw [pruneItems, actionsOfItems, List.map_nil]
  case pair =>
    intro key value rest ih
    rw [pruneItems, actionsOfItems, actionsOfItems, ih]
  case cons =>
    intro f rest hkey ih ihrest
    cases f with
    | keyword key => cases rest with
      | nil => rfl
      | cons value rest => exact (hkey key value rest rfl rfl).elim
    | list items =>
      rw [pruneItems_cons (by simp), actionsOfItems_cons (by simp [pruneNested]), ih, ihrest,
        actionsOfItems_cons (by simp), List.map_append]
    | _ => exact ihrest

theorem actionsOf_pruneTop (f : Form) : actionsOf (pruneTop f) = (actionsOf f).map pruneAction := by
  unfold pruneTop
  split
  · rfl
  · exact actionsOfItems_pruneItems _
  · rename_i htree
    rw [actionsOf.eq_2 f htree, List.map_nil]

theorem rolesOf_pruneTop (f : Form) : rolesOf (pruneTop f) = (rolesOf f).map pruneRole := by
  unfold pruneTop
  split
  · rfl
  · rfl
  · rename_i hroles _
    rw [rolesOf.eq_2 f hroles, List.map_nil]

/-! Attributes are all that is left of items when their lists are dropped. -/

theorem dropLists_of_arePairs {keys : List String} {items : List Form}
    (h : arePairs keys items = true) : dropLists items = items := by
  fun_induction arePairs keys items with
  | case1 => rfl
  | case2 => cases h
  | case3 key value rest hvalue ih =>
    rw [dropLists, ih (Bool.and_eq_true_iff.1 h).2]
  | case4 => cases h

theorem arePairs_dropLists {path : String} {keys : List String} {items : List Form} {parts : Parts}
    (h : Parts.ofItems path items = .ok parts) (hkeys : ∀ a ∈ parts.attributes, a.1 ∈ keys) :
    arePairs keys (dropLists items) = true := by
  fun_induction Parts.ofItems path items generalizing parts with
  | case1 => rfl
  | case2 => cases h
  | case3 key value rest hvalue ih =>
    obtain ⟨rest', hrest, h⟩ := bind_eq_ok.1 h
    cases pure_eq_ok.1 h
    obtain ⟨hkey, hkeys⟩ := List.forall_mem_cons.1 hkeys
    rw [dropLists, arePairs, ih hrest hkeys]
    · simpa using hkey
    · exact hvalue
  | case4 => cases h
  | case5 items rest ih =>
    obtain ⟨rest', hrest, h⟩ := bind_eq_ok.1 h
    cases pure_eq_ok.1 h
    rw [dropLists]
    exact ih hrest hkeys
  | case6 => cases h

theorem pruneRole_of_plain {f : Form} (h : isPlainRole f = true) : pruneRole f = f := by
  unfold isPlainRole at h
  split at h
  · rw [pruneRole, dropLists_of_arePairs (Bool.and_eq_true_iff.1 h).2]
  · cases h

theorem pruneAction_of_plain {f : Form} (h : isPlainAction f = true) : pruneAction f = f := by
  unfold isPlainAction at h
  split at h
  · rw [pruneAction, dropLists_of_arePairs h]
  · rw [pruneAction, dropLists_of_arePairs h]
    assumption
  · rfl
  · cases h

/-! What is read is plain, up to nested lists. -/

theorem roleAttribute_known {path key : String} {value : Form} {r r' : Role}
    (h : roleAttribute path r key value = .ok r') : key ∈ roleAttributes := by
  unfold roleAttribute at h
  split at h
  · simp [roleAttributes]
  · simp [roleAttributes]
  · simp [roleAttributes]
  · cases h

theorem plain_of_readRole {f : Form} {r : Role} (h : readRole f = .ok r) :
    isPlainRole (pruneRole f) = true := by
  unfold readRole at h
  split at h
  · rename_i items
    split at h
    · cases h
    · rename_i name hname
      obtain ⟨parts, hparts, h⟩ := bind_eq_ok.1 h
      obtain ⟨r', hr', h⟩ := bind_eq_ok.1 h
      have hkeys : ∀ a ∈ parts.attributes, a.1 ∈ roleAttributes :=
        forall_mem_foldlM (fun _ _ _ h => roleAttribute_known h) hr'
      cases items with
      | nil => cases hname
      | cons f rest =>
        have hnamed : nameOf? f = some name := hname
        have hpairs : arePairs roleAttributes (dropLists rest) = true := arePairs_dropLists hparts hkeys
        rw [pruneRole, isPlainRole, hnamed, hpairs]
        rfl
  · cases h

/-- Whether all of the forms are actions that are plain up to nested lists. -/
def Tidy (fs : List Form) : Prop := ∀ f ∈ fs, isPlainAction (pruneAction f) = true

theorem Tidy.append {fs fs' : List Form} (h : Tidy fs) (h' : Tidy fs') : Tidy (fs ++ fs') :=
  List.forall_mem_append.2 ⟨h, h'⟩

/-- Whether the actions in parts, except for those of branches, are plain up to nested lists. -/
def Parts.Tidy (parts : Parts) : Prop :=
  ∀ items ∈ parts.nested, BranchKind.ofItems? items = none → Document.Tidy (actionsOfList items)

namespace Subject
variable (s : Subject ω η)

theorem actionGuard_known (attributes : List (String × Form)) :
    Yields (s.actionGuard attributes) fun _ => ∀ a ∈ attributes, a.1 ∈ actionAttributes := by
  refine yields_each_foldlM fun _ a _ => ?_
  obtain ⟨key, value⟩ := a
  dsimp only
  split
  · intro _ _ _ _
    simp [actionAttributes]
  · exact yields_lift fun _ h => by cases h

/-- The items that follow the head of an action and its argument. -/
theorem guarded_plain (items : List Form) (k : Option (Expression ω η) → Reading (Action ω η)) :
    Yields (do
        let parts ← Parts.ofItems s.path items
        let guard ← s.actionGuard parts.attributes
        k guard) fun _ => arePairs actionAttributes (dropLists items) = true := by
  refine yields_bind (yields_lift fun _ h => h) fun parts hparts => ?_
  refine yields_bind (s.actionGuard_known parts.attributes) fun _ hkeys => ?_
  exact fun _ _ _ _ => arePairs_dropLists hparts hkeys

theorem isPlainAction_keyword (head key : String) (rest : List Form) :
    isPlainAction (.list (.symbol head :: dropLists (.keyword key :: rest))) =
      arePairs actionAttributes (dropLists (.keyword key :: rest)) := by
  obtain ⟨rest', hdropped⟩ := dropLists_keyword key rest
  rw [hdropped, isPlainAction]

theorem action_plain (f : Form) :
    Yields (s.action f) fun _ => isPlainAction (pruneAction f) = true := by
  unfold action
  split
  · rename_i head rest
    cases rest with
    | nil => exact fun _ _ _ _ => rfl
    | cons f rest => cases f with
      | keyword key =>
        rw [pruneAction, isPlainAction_keyword]
        exact s.guarded_plain (.keyword key :: rest) _
      | _ => exact s.guarded_plain rest _
  · exact yields_lift fun _ h => by cases h
  · exact yields_lift fun _ h => by cases h

theorem actions_tidy (fs : List Form) : Yields (s.actions fs) fun _ => Tidy fs :=
  yields_each_mapM fun f _ => s.action_plain f

/-- The readers of a transition, which call each other, read all actions in it. -/
theorem transitions_tidy :
    (∀ origin depth f head items, f = .list (head :: items) →
      Yields (s.transitions origin depth f) fun _ => Tidy (actionsOfItems items)) ∧
    ∀ leaves depth as ts items,
      Yields (s.transitionBody leaves depth as ts items) fun _ => Tidy (actionsOfItems items) := by
  apply transitions.mutual_induct s
    (fun origin depth f => ∀ head items, f = .list (head :: items) →
      Yields (s.transitions origin depth f) fun _ => Tidy (actionsOfItems items))
    (fun leaves depth as ts items =>
      Yields (s.transitionBody leaves depth as ts items) fun _ => Tidy (actionsOfItems items))
  case case1 =>
    rintro origin depth head items ih _ _ ⟨⟩
    rw [transitions]
    refine yields_bind (yields_trivial _) fun t _ => ?_
    exact yields_bind (ih t) fun _ h => yields_pure h
  case case2 =>
    rintro f origin depth hf head items rfl
    exact (hf head items rfl).elim
  case case3 =>
    intro leaves depth as ts _ _ _ _
    rw [actionsOfItems]
    exact List.forall_mem_nil _
  case case4 =>
    intro leaves depth as ts key value rest ih
    rw [transitionBody, actionsOfItems]
    exact ih
  case case5 =>
    intro leaves depth as ts items rest ih
    rw [transitionBody, actionsOfItems_cons (by simp)]
    refine yields_bind (s.actions_tidy items) fun more h => ?_
    exact fun n b n' hr => h.append (ih more n b n' hr)
  case case6 | case7 =>
    intro leaves depth as ts items rest hts ih ihrest
    rw [transitionBody, actionsOfItems_cons (by simp)]
    refine yields_check (yields_check ?_)
    refine yields_bind (ih _ _ rfl) fun ts' h => ?_
    exact fun n b n' hr => h.append (ihrest ts' n b n' hr)
  case case8 =>
    intro leaves depth as ts items rest h₁ h₂
    rw [transitionBody]
    · exact yields_lift fun _ h => by cases h
    · exact h₁
    · exact h₂
  case case9 =>
    intro leaves depth as ts f rest h₁ h₂ h₃ h₄ ih
    rw [transitionBody]
    · cases f with
      | keyword key => cases rest with
        | nil => exact fun _ _ _ _ => List.forall_mem_nil _
        | cons value rest => exact (h₁ key value rest rfl rfl).elim
      | list items => exact (h₄ items rfl).elim
      | _ => exact ih
    all_goals assumption

/-- A nested form is refused, or a branch, or all of its actions are read. -/
theorem nodeForm_tidy (c : Content ω η) {items : List Form}
    (hbranch : BranchKind.ofItems? items = none) :
    Yields (s.nodeForm c items) fun _ => Tidy (actionsOfList items) := by
  have hread {fs : List Form} {k : List (Action ω η) → Reading (Content ω η)} :
      Yields (s.actions fs >>= k) fun _ => Tidy fs :=
    yields_bind (s.actions_tidy fs) fun _ h => fun _ _ _ _ => h
  unfold nodeForm
  split
  · split
    case h_1 | h_2 => cases hbranch
    case h_3 | h_4 | h_5 => exact hread
    case h_6 =>
      refine yields_check (yields_bind (s.transitions_tidy.1 _ _ _ _ _ rfl) fun ts h => ?_)
      exact fun _ _ _ _ => h
    case h_7 => exact yields_lift fun _ h => by cases h
  · exact yields_lift fun _ h => by cases h

theorem content_tidy (parts : Parts) : Yields (s.content parts) fun _ => parts.Tidy := by
  unfold content
  refine yields_bind (yields_trivial _) fun c _ => ?_
  refine yields_bind (yields_each_foldlM fun c items _ => ?_) fun c h => fun _ _ _ _ => h
  intro n c' n' hr hbranch
  exact s.nodeForm_tidy c hbranch n c' n' hr

end Subject
/-- The lists among items that are no values of attributes. -/
def listsOf : List Form → List (List Form)
  | [] => []
  | .keyword _ :: _ :: rest => listsOf rest
  | .list items :: rest => items :: listsOf rest
  | _ :: rest => listsOf rest

theorem nested_of_ofItems {path : String} {items : List Form} {parts : Parts}
    (h : Parts.ofItems path items = .ok parts) : parts.nested = listsOf items := by
  fun_induction Parts.ofItems path items generalizing parts with
  | case1 => cases h; rfl
  | case2 => cases h
  | case3 key value rest hvalue ih =>
    obtain ⟨rest', hrest, h⟩ := bind_eq_ok.1 h
    cases pure_eq_ok.1 h
    exact (ih hrest : rest'.nested = _)
  | case4 => cases h
  | case5 items rest ih =>
    obtain ⟨rest', hrest, h⟩ := bind_eq_ok.1 h
    cases pure_eq_ok.1 h
    exact congrArg (items :: ·) (ih hrest)
  | case6 => cases h

theorem actionsOfItems_eq (items : List Form) :
    actionsOfItems items = (listsOf items).flatMap actionsOfList := by
  fun_induction listsOf items with
  | case1 => rw [actionsOfItems, List.flatMap_nil]
  | case2 key value rest ih => rw [actionsOfItems, ih]
  | case3 items rest ih =>
    rw [actionsOfItems_cons (by simp), actionsOfNested, ih, List.flatMap_cons]
  | case4 f rest hkey hlist ih =>
    cases f with
    | keyword key => cases rest with
      | nil => rfl
      | cons value rest => exact (hkey key value rest rfl rfl).elim
    | list items => exact (hlist items rfl).elim
    | _ => exact ih

variable {ns : Namespace ω η} {g : Flow.Graph ω η} {node : Node ω η}

theorem nested_of_declaredNode {place : Place} {items : List Form} {parts : Parts}
    (h : declaredNode ns g place items = .ok (node, parts)) : parts.nested = listsOf items := by
  have hunnamed : listsOf (if (items.head?.bind nameOf?).isSome then items.tail else items) =
      listsOf items := by
    split
    · rename_i hnamed
      cases items with
      | nil => rfl
      | cons f rest => cases f with
        | symbol | string => rfl
        | _ => cases hnamed
    · rfl
  unfold declaredNode at h
  obtain ⟨name, _, h⟩ := bind_eq_ok.1 h
  obtain ⟨parts', hparts, h⟩ := bind_eq_ok.1 h
  have hsame : parts' = parts := by
    cases place with
    | top =>
      obtain ⟨_, _, h⟩ := bind_eq_ok.1 h
      cases pure_eq_ok.1 h
      rfl
    | below =>
      cases pure_eq_ok.1 h
      rfl
  rw [← hsame, nested_of_ofItems hparts, hunnamed]

/-- What is declared is put among what is still to be read, so that all actions are read in the end. -/
theorem declare_tidy (ns : Namespace ω η) :
    (∀ d place f head items, f = .list (head :: items) → ∀ d', declare ns d place f = .ok d' →
      (∀ p ∈ d'.pending, p.2.Tidy) → (∀ p ∈ d.pending, p.2.Tidy) ∧ Tidy (actionsOfItems items)) ∧
    ∀ d parent items d', declareBelow ns d parent items = .ok d' → (∀ p ∈ d'.pending, p.2.Tidy) →
      (∀ p ∈ d.pending, p.2.Tidy) ∧
        ∀ list ∈ listsOf items, BranchKind.ofItems? list ≠ none → Tidy (actionsOfList list) := by
  apply declare.mutual_induct
    (fun d place f => ∀ head items, f = .list (head :: items) → ∀ d', declare ns d place f = .ok d' →
      (∀ p ∈ d'.pending, p.2.Tidy) → (∀ p ∈ d.pending, p.2.Tidy) ∧ Tidy (actionsOfItems items))
    (fun d parent items => ∀ d', declareBelow ns d parent items = .ok d' →
      (∀ p ∈ d'.pending, p.2.Tidy) → (∀ p ∈ d.pending, p.2.Tidy) ∧
        ∀ list ∈ listsOf items, BranchKind.ofItems? list ≠ none → Tidy (actionsOfList list))
  case case1 =>
    rintro d place head items id ih _ _ ⟨⟩ d' h hpending
    rw [declare] at h
    obtain ⟨⟨node, parts⟩, hdeclared, h⟩ := bind_eq_ok.1 h
    obtain ⟨g, hg, h⟩ := bind_eq_ok.1 h
    obtain ⟨d₁, hd₁, h⟩ := bind_eq_ok.1 h
    cases pure_eq_ok.1 h
    obtain ⟨hold, hparts⟩ := List.forall_mem_append.1 hpending
    have hparts : parts.Tidy := hparts _ (List.mem_singleton_self _)
    obtain ⟨hd, hbranches⟩ := ih g d₁ hd₁ hold
    refine ⟨hd, fun f hf => ?_⟩
    rw [actionsOfItems_eq] at hf
    obtain ⟨list, hlist, hf⟩ := List.mem_flatMap.1 hf
    by_cases hkind : BranchKind.ofItems? list = none
    · exact hparts list (nested_of_declaredNode hdeclared ▸ hlist) hkind f hf
    · exact hbranches list hlist hkind f hf
  case case2 =>
    rintro f d place hf head items rfl
    exact (hf head items rfl).elim
  case case3 =>
    intro d parent d' h hpending
    rw [declareBelow] at h
    cases h
    exact ⟨hpending, List.forall_mem_nil _⟩
  case case4 =>
    intro d parent key value rest ih d' h hpending
    rw [declareBelow] at h
    exact ih d' h hpending
  case case5 =>
    intro d parent items rest kind hkind ih ihrest d' h hpending
    rw [declareBelow, hkind] at h
    obtain ⟨d₁, hd₁, h⟩ := bind_eq_ok.1 h
    obtain ⟨hd₁', hrest⟩ := ihrest d₁ d' h hpending
    obtain ⟨head, items', rfl, hhead⟩ := symbol_of_ofItems hkind
    obtain ⟨hd, hbranch⟩ := ih _ _ rfl d₁ hd₁ hd₁'
    refine ⟨hd, List.forall_mem_cons.2 ⟨fun _ => ?_, hrest⟩⟩
    rw [actionsOfList, hhead]
    exact hbranch
  case case6 =>
    intro d parent items rest hkind ih d' h hpending
    rw [declareBelow, hkind] at h
    obtain ⟨hd, hrest⟩ := ih d' h hpending
    exact ⟨hd, List.forall_mem_cons.2 ⟨fun hne => (hne hkind).elim, hrest⟩⟩
  case case7 =>
    intro d parent f rest hkey hlist ih d' h hpending
    rw [declareBelow.eq_4 ns d parent f rest hkey hlist] at h
    rw [listsOf.eq_4 f rest hkey hlist]
    exact ih d' h hpending

/-- Whether the roles and actions in a top-level form are plain up to nested lists. -/
structure TidyTop (f : Form) : Prop where
  roles : ∀ r ∈ rolesOf f, isPlainRole (pruneRole r) = true
  actions : Tidy (actionsOf f)

theorem declareForm_tidy {d d' : Declarations ω η} {f : Form} (h : declareForm ns d f = .ok d')
    (hpending : ∀ p ∈ d'.draft.pending, p.2.Tidy) :
    (∀ p ∈ d.draft.pending, p.2.Tidy) ∧ TidyTop f := by
  rcases declareForm_ok h with ⟨items, roles, rfl, hroles, rfl⟩ | ⟨items, draft, rfl, hdraft, rfl⟩
  · exact ⟨hpending, forall_mem_mapM (fun _ _ => plain_of_readRole) hroles, List.forall_mem_nil _⟩
  · obtain ⟨hd, hactions⟩ := (declare_tidy ns).1 _ _ _ _ _ rfl draft hdraft hpending
    exact ⟨hd, List.forall_mem_nil _, hactions⟩

theorem declareForms_tidy {forms : List Form} {d d' : Declarations ω η}
    (h : forms.foldlM (declareForm ns) d = .ok d') (hpending : ∀ p ∈ d'.draft.pending, p.2.Tidy) :
    (∀ p ∈ d.draft.pending, p.2.Tidy) ∧ ∀ f ∈ forms, TidyTop f := by
  induction forms generalizing d with
  | nil =>
    cases pure_eq_ok.1 h
    exact ⟨hpending, List.forall_mem_nil _⟩
  | cons f forms ih =>
    rw [List.foldlM_cons] at h
    obtain ⟨d₁, hd₁, h⟩ := bind_eq_ok.1 h
    obtain ⟨hpending₁, hforms⟩ := ih h
    obtain ⟨hd, hf⟩ := declareForm_tidy hd₁ hpending₁
    exact ⟨hd, List.forall_mem_cons.2 ⟨hf, hforms⟩⟩

theorem loadForms_tidy {l : Library ω η} {forms : List Form} (h : loadForms l forms = .ok g) :
    ∀ f ∈ forms, TidyTop f := by
  obtain ⟨d, filled, slots, hd, -, hfilled, -⟩ := loadForms_eq_ok.1 h
  refine (declareForms_tidy hd ?_).2
  refine yields_each_foldlM (fun g p _ => ?_) 0 filled slots hfilled
  exact yields_bind (Subject.content_tidy _ p.2) fun _ h => fun _ _ _ _ => h

/-- A document loads as it does without the nested lists of its roles and actions. Once it is loaded,
only recognised parts are given of a role or an action exactly if it has no nested list. -/
theorem load_passes_over_lists {l : Library ω η} {text : String} {forms : List Form}
    (hforms : Form.readAll text = .ok forms) :
    load l text = loadForms l (forms.map pruneTop) ∧
    ∀ g, load l text = .ok g → ∀ f ∈ forms, isPlain (pruneTop f) = true ∧
      (∀ r ∈ rolesOf f, isPlainRole r = true ↔ pruneRole r = r) ∧
      ∀ a ∈ actionsOf f, isPlainAction a = true ↔ pruneAction a = a := by
  have hload : load l text = loadForms l forms := by rw [load, hforms]
  refine ⟨hload.trans (loadForms_prune l forms).symm, fun g hg f hf => ?_⟩
  obtain ⟨hroles, hactions⟩ := loadForms_tidy (hload ▸ hg) f hf
  refine ⟨?_, fun r hr => ⟨pruneRole_of_plain, fun h => h ▸ hroles r hr⟩,
    fun a ha => ⟨pruneAction_of_plain, fun h => h ▸ hactions a ha⟩⟩
  rw [isPlain, rolesOf_pruneTop, actionsOf_pruneTop, List.all_map, List.all_map, Bool.and_eq_true_iff,
    List.all_eq_true, List.all_eq_true]
  exact ⟨hroles, hactions⟩

/-- A role whose fallback is misplaced in a nested list. -/
def vestryRole : Form :=
  .list [.symbol "role", .symbol "v", .keyword "trees", .list [.symbol "A"],
    .list [.symbol "on-denied", .symbol "A"]]

/-- An action with a second guard in a nested list. -/
def vestryAction : Form :=
  .list [.symbol "clear-cache", .keyword "when", .bool true, .list [.symbol "when", .bool false]]

def vestryForms : List Form :=
  [.list [.symbol "roles", vestryRole],
    .list [.symbol "tree", .symbol "A", .keyword "keys", .list [.symbol "a"],
      .list [.symbol "actions", vestryAction]]]

def vestryText : String :=
  "(roles (role v :trees (A) (on-denied A)))
(tree A :keys (a) (actions (clear-cache :when true (when false))))"

def vestryLibrary : Library Unit Unit := ⟨.empty, ∅, .default⟩

theorem readAll_vestry : Form.readAll vestryText = .ok vestryForms := by with_unfolding_all rfl

theorem load_vestry : ∃ vestry, load vestryLibrary vestryText = .ok vestry ∧
    (vestry.grant? "v").bind Grant.onDenied = none := by
  have hload : (load vestryLibrary vestryText).toOption.any (fun vestry =>
      decide ((vestry.grant? "v").bind Grant.onDenied = none)) = true := by
    decide +kernel
  obtain ⟨vestry, hvestry, hdenied⟩ := ok_of_any hload
  exact ⟨vestry, hvestry, of_decide_eq_true hdenied⟩

/-- The document is loaded although neither its role nor its action is plain, and the role has no
fallback. -/
theorem vestry_not_plain : Form.readAll vestryText = .ok vestryForms ∧
    vestryForms.flatMap rolesOf = [vestryRole] ∧ isPlainRole vestryRole = false ∧
    vestryForms.flatMap actionsOf = [vestryAction] ∧ isPlainAction vestryAction = false ∧
    ∃ vestry, load vestryLibrary vestryText = .ok vestry ∧
      (vestry.grant? "v").bind Grant.onDenied = none :=
  ⟨readAll_vestry, rfl, rfl, rfl, rfl, load_vestry⟩

theorem vestry_pruned : load vestryLibrary vestryText =
      loadForms vestryLibrary (vestryForms.map pruneTop) ∧
    ∀ f ∈ vestryForms, isPlain (pruneTop f) = true := by
  obtain ⟨hload, hplain⟩ := load_passes_over_lists (l := vestryLibrary) readAll_vestry
  obtain ⟨vestry, hvestry, _⟩ := load_vestry
  exact ⟨hload, fun f hf => (hplain vestry hvestry f hf).1⟩

end ChatFlow.Document
