import ChatFlow.Proofs.Document.Contents
import ChatFlow.Proofs.Expr.Renumbering
import ChatFlow.Proofs.Flow.Matching

/-! Reading against a graph with other identifiers, from another slot on, yields the same content up to the
renaming. -/
namespace ChatFlow.Document
open Flow Expr

section Moves
variable {α β γ δ : Type} {slots : Nat → Nat} {f : α → β} {g : γ → δ} {m : Reading α}
  {m' : Reading β}

/-- What a reading yields when it succeeds. -/
def Reading.ends (m : Reading α) : Run α := fun n a n₁ => m.run n = .ok (a, n₁)

/-- The second reading succeeds where the first one does, with other slots. -/
def Moves (slots : Nat → Nat) (f : α → β) (m : Reading α) (m' : Reading β) : Prop :=
  Run.Moves slots f (Reading.ends m) (Reading.ends m')

theorem moves_pure {a : α} {b : β} (h : b = f a) : Moves slots f (pure a) (pure b) := by
  rintro n _ _ ⟨⟩
  exact ⟨0, rfl, fun n' _ => h ▸ rfl⟩

theorem moves_lift {x : Except LoadError α} {x' : Except LoadError β}
    (h : ∀ a, x = .ok a → x' = .ok (f a)) : Moves slots f (liftM x) (liftM x') := by
  intro n a n₁ hr
  obtain ⟨b, hb, hr⟩ := bind_eq_ok.1 (show (x >>= fun b => pure (b, n)) = _ from hr)
  cases pure_eq_ok.1 hr
  refine ⟨0, rfl, fun n' _ => ?_⟩
  exact bind_eq_ok.2 ⟨f a, h a hb, rfl⟩

theorem moves_error {e : LoadError} : Moves slots f (liftM (.error e : Except LoadError α)) m' := by
  rintro n _ _ ⟨⟩

theorem moves_bind_of {k : α → Reading γ} {k' : β → Reading δ} {P : α → Prop} (hy : Yields m P)
    (hm : Moves slots f m m') (hk : ∀ a, P a → Moves slots g (k a) (k' (f a))) :
    Moves slots g (m >>= k) (m' >>= k') := by
  have hbind {α γ : Type} (m : Reading α) (k : α → Reading γ) :
      Reading.ends (m >>= k) = (Reading.ends m).andThen fun a => Reading.ends (k a) := by
    funext n b n₂
    rw [Reading.ends, StateT.run_bind]
    exact propext (bind_eq_ok.trans Prod.exists)
  rw [Moves, hbind, hbind]
  exact Run.Moves.andThen hm fun n a n₁ ha => hk a (hy n a n₁ ha)

theorem moves_bind {k : α → Reading γ} {k' : β → Reading δ} (hm : Moves slots f m m')
    (hk : ∀ a, Moves slots g (k a) (k' (f a))) : Moves slots g (m >>= k) (m' >>= k') :=
  moves_bind_of (yields_trivial m) hm fun a _ => hk a

/-- Both readings may begin with the same look at a form. -/
theorem moves_after {x : Except LoadError α} {k : α → Reading γ} {k' : α → Reading δ}
    (hk : ∀ a, Moves slots g (k a) (k' a)) : Moves slots g (liftM x >>= k) (liftM x >>= k') :=
  moves_bind (f := fun a => a) (moves_lift fun _ h => h) hk

theorem moves_foldlM {k : α → γ → Reading α} {k' : β → γ → Reading β} (as : List γ) {a : α} {b : β}
    (hb : b = f a) (hk : ∀ a c, Moves slots f (k a c) (k' (f a) c)) :
    Moves slots f (as.foldlM k a) (as.foldlM k' b) := by
  subst hb
  induction as generalizing a with
  | nil => exact moves_pure rfl
  | cons c rest ih =>
    rw [List.foldlM_cons, List.foldlM_cons]
    exact moves_bind (hk a c) fun a' => ih

theorem moves_mapM {k : γ → Reading α} {k' : γ → Reading β} {as : List γ}
    (hk : ∀ c ∈ as, Moves slots f (k c) (k' c)) : Moves slots (List.map f) (as.mapM k) (as.mapM k') := by
  induction as with
  | nil => exact moves_pure rfl
  | cons c rest ih =>
    rw [List.mapM_cons, List.mapM_cons]
    refine moves_bind (hk c List.mem_cons_self) fun a => ?_
    exact moves_bind (ih fun c hc => hk c (List.mem_cons_of_mem _ hc)) fun as => moves_pure rfl

theorem moves_check {c : Prop} [Decidable c] {x x' : Except LoadError Unit} {k k' : Unit → Reading α}
    {f : α → α} {e : LoadError} (h : Moves slots f (k ()) (k' ())) (hx : x = .error e) :
    Moves slots f (if c then liftM x >>= k else k ()) (if c then liftM x' >>= k' else k' ()) := by
  split
  · refine moves_bind (f := id) (moves_lift fun u hu => ?_) fun _ => h
    cases hx.symm.trans hu
  · exact h

end Moves

variable {ω η : Type} {ρ : Renaming}

namespace Subject
variable {s s' : Subject ω η}

def Itinerary.rename (ρ : Renaming) (t : Itinerary ω η) : Itinerary ω η :=
  { t with options := t.options.rename ρ }

def Content.rename (ρ : Renaming) (c : Content ω η) : Content ω η where
  triggers := c.triggers
  predicate := c.predicate.map (Expression.renumber ρ.slots)
  accessLevel := c.accessLevel
  guard := c.guard.map (Expression.renumber ρ.slots)
  actions := c.actions.map (Action.rename ρ)
  exitActions := c.exitActions.map (Action.rename ρ)
  reentryActions := c.reentryActions.map (Action.rename ρ)
  transitions := c.transitions.map (Transition.rename ρ)

@[simp] theorem Content.rename_rename (ρ ρ' : Renaming) (c : Content ω η) :
    (c.rename ρ).rename ρ' = c.rename (ρ.trans ρ') := by
  simp [rename, Function.comp_def]

/-- Whether content is read for the same node of two graphs. -/
structure Matches (ρ : Renaming) (s s' : Subject ω η) : Prop where
  library_eq : s'.library = s.library
  graph : s.graph.Matches ρ s'.graph
  id_eq : s'.id = ρ.ids s.id
  lt_size : s.id < s.graph.size
  distinct : s.graph.Distinct
  wellFormed : s.graph.WellFormed
  wellFormed' : s'.graph.WellFormed

namespace Matches

theorem path_eq (h : s.Matches ρ s') : s'.path = s.path := by
  rw [path, node, h.id_eq]
  exact h.graph.path_eq s.id

theorem tree_eq (h : s.Matches ρ s') : s'.tree = ρ.ids s.tree := by
  rw [tree, node, h.id_eq]
  exact h.graph.tree_eq h.lt_size

theorem scope_eq (h : s.Matches ρ s') : s'.scope = s.scope := by
  rw [scope, h.tree_eq, h.graph.handler_eq]
  rfl

theorem isTree_eq (h : s.Matches ρ s') : s'.node.isTree = s.node.isTree := by
  rw [node, h.id_eq, h.graph.isTree_eq]
  rfl

theorem isDefault_eq (h : s.Matches ρ s') : s'.isDefault = s.isDefault := by
  have hparent : s'.node.parent = s.node.parent.map ρ.ids := by
    rw [node, h.id_eq]
    exact h.graph.parent_eq s.id
  rw [isDefault, isDefault, hparent, h.id_eq, Option.any_map]
  congr 1
  funext p
  show ((s'.graph.node (ρ.ids p)).fallback == some (ρ.ids s.id)) = _
  rw [h.graph.fallback_eq, ← Option.map_some, (Option.map_injective h.graph.bijective.injective).beq_eq]

theorem leavesTree_eq (h : s.Matches ρ s') {t : Transition ω η}
    (ht : ∀ target, t.target = some target → target < s.graph.size) :
    s'.leavesTree (t.rename ρ) = s.leavesTree t := by
  cases htarget : t.target with
  | none => simp [leavesTree, Transition.rename, htarget]
  | some target =>
    simp [leavesTree, Transition.rename, htarget, h.graph.tree_eq (ht target htarget), h.tree_eq,
      h.graph.bijective.injective.eq_iff]

end Matches

section
variable (h : s.Matches ρ s')
include h

theorem moves_expression (scope : Option String) (key : String) (expected : Kind) (f : Form) :
    Moves ρ.slots (Expression.renumber ρ.slots) (s.expression scope key expected f)
      (s'.expression scope key expected f) := by
  unfold expression
  rw [h.path_eq, h.library_eq]
  split
  · exact moves_pure rfl
  · refine moves_after fun text => ?_
    intro n x n₁ hr
    rcases hc : Typing.compileText s.library.members scope expected text n with ⟨r, n₂⟩
    have hrun : (Typing.compileText s.library.members scope expected text).run n = (r, n₂) := hc
    simp only [Reading.ends, StateT.run, hrun] at hr
    cases r with
    | error e => cases hr
    | ok e =>
      cases hr
      obtain ⟨u, hu, hmoves⟩ := Typing.moves_compileText ρ.slots _ _ _ _ n x n₁ hc
      refine ⟨u, hu, fun n' hslots => ?_⟩
      have hrun' : (Typing.compileText s.library.members scope expected text).run n' = _ :=
        hmoves n' hslots
      simp only [Reading.ends, StateT.run, hrun']

theorem moves_actionGuard (attributes : List (String × Form)) :
    Moves ρ.slots (Option.map (Expression.renumber ρ.slots)) (s.actionGuard attributes)
      (s'.actionGuard attributes) := by
  unfold actionGuard
  refine moves_foldlM attributes rfl fun _ a => ?_
  rw [h.scope_eq, h.path_eq]
  dsimp only
  split
  · exact moves_bind (moves_expression h _ _ _ _) fun e => moves_pure rfl
  · exact moves_error

theorem moves_deed (head : String) (argument : Option Form) :
    Moves ρ.slots (Deed.rename ρ) (s.deed head argument) (s'.deed head argument) := by
  unfold deed
  rw [h.scope_eq, h.path_eq, h.library_eq]
  split
  · exact moves_bind (moves_expression h _ _ _ _) fun e => moves_pure rfl
  · refine moves_after fun name => ?_
    split
    · exact moves_pure rfl
    · exact moves_error
  · exact moves_pure rfl
  all_goals exact moves_error

theorem moves_action (f : Form) :
    Moves ρ.slots (Action.rename ρ) (s.action f) (s'.action f) := by
  unfold action
  rw [h.path_eq]
  split
  · dsimp only
    refine moves_after fun parts => ?_
    refine moves_bind (moves_actionGuard h _) fun guard => ?_
    refine moves_bind (moves_deed h _ _) fun deed => ?_
    refine moves_pure ?_
    rw [h.id_eq, h.tree_eq]
    rfl
  · exact moves_error
  · exact moves_error

theorem moves_actions (fs : List Form) :
    Moves ρ.slots (List.map (Action.rename ρ)) (s.actions fs) (s'.actions fs) :=
  moves_mapM fun f _ => moves_action h f

theorem moves_transitionAttribute (t : Itinerary ω η) (key : String) (value : Form) :
    Moves ρ.slots (Itinerary.rename ρ) (s.transitionAttribute t key value)
      (s'.transitionAttribute (t.rename ρ) key value) := by
  unfold transitionAttribute
  rw [h.scope_eq, h.path_eq]
  split
  case h_1 =>
    refine moves_after fun name => ?_
    split
    · exact moves_pure rfl
    · exact moves_error
  case h_2 => exact moves_after fun name => moves_pure rfl
  case h_3 => exact moves_bind (moves_expression h _ _ _ _) fun e => moves_pure rfl
  case h_4 => exact moves_after fun name => moves_pure rfl
  case h_5 =>
    refine moves_after fun name => ?_
    split
    · exact moves_pure rfl
    · exact moves_pure rfl
    · exact moves_error
  case h_6 =>
    split
    · exact moves_pure rfl
    · exact moves_error
  case h_7 => exact moves_error

theorem transitionTarget_rename {origin : NodeId} (ho : origin < s.graph.size) {t : Itinerary ω η}
    {target : Option NodeId} (ht : s.transitionTarget origin t = .ok target) :
    s'.transitionTarget (ρ.ids origin) (t.rename ρ) = .ok (target.map ρ.ids) := by
  refine transitionTarget_eq_ok.2 ?_
  rcases transitionTarget_eq_ok.1 ht with
    ⟨hmove, hname, rfl⟩ | ⟨hmove, hname, rfl, p, hparent⟩ | ⟨name, id, hname, rfl, hmove, hlookup, hback⟩
  · exact Or.inl ⟨hmove, hname, rfl⟩
  · refine Or.inr (Or.inl ⟨hmove, hname, rfl, ρ.ids p, ?_⟩)
    rw [h.graph.parent_eq, hparent]
    rfl
  · refine Or.inr (Or.inr ⟨name, ρ.ids id, hname, rfl, hmove, ?_, fun hmove' => ?_⟩)
    · rw [h.graph.lookup?_eq h.distinct ho name, hlookup]
      rfl
    · have hancestor := h.graph.isAncestor_eq h.wellFormed h.wellFormed' id origin
      have hmem : s.graph.isAncestor id origin = true := List.contains_iff_mem.2 (hback hmove')
      exact List.contains_iff_mem.1 (hancestor.trans hmem)

theorem moves_transitionHead {origin : NodeId} (ho : origin < s.graph.size) (depth : Nat)
    (items : List Form) :
    Moves ρ.slots (Transition.rename ρ) (s.transitionHead origin depth items)
      (s'.transitionHead (ρ.ids origin) depth items) := by
  unfold transitionHead
  rw [h.path_eq, h.library_eq]
  refine moves_after fun parts => ?_
  refine moves_bind (moves_foldlM parts.attributes rfl fun t a => moves_transitionAttribute h t a.1 a.2)
    fun t => ?_
  refine moves_check ?_ rfl
  refine moves_bind (moves_lift fun target ht => transitionTarget_rename h ho ht) fun target => ?_
  refine moves_pure ?_
  rw [h.id_eq]
  rfl

/-- The follow-ups of a transition are read where the transition is. The induction follows the two readers,
which call each other. -/
theorem moves_transitions :
    (∀ origin depth f, origin < s.graph.size →
      Moves ρ.slots (List.map (Transition.rename ρ)) (s.transitions origin depth f)
        (s'.transitions (ρ.ids origin) depth f)) ∧
    ∀ leaves depth as ts items,
      Moves ρ.slots (Prod.map (List.map (Action.rename ρ)) (List.map (Transition.rename ρ)))
        (s.transitionBody leaves depth as ts items)
        (s'.transitionBody leaves depth (as.map (Action.rename ρ)) (ts.map (Transition.rename ρ)) items) := by
  have htree : s.tree < s.graph.size := h.wellFormed.tree_lt h.lt_size
  apply transitions.mutual_induct s
    (fun origin depth f => origin < s.graph.size →
      Moves ρ.slots (List.map (Transition.rename ρ)) (s.transitions origin depth f)
        (s'.transitions (ρ.ids origin) depth f))
    (fun leaves depth as ts items =>
      Moves ρ.slots (Prod.map (List.map (Action.rename ρ)) (List.map (Transition.rename ρ)))
        (s.transitionBody leaves depth as ts items)
        (s'.transitionBody leaves depth (as.map (Action.rename ρ)) (ts.map (Transition.rename ρ)) items))
  case case1 =>
    intro origin depth head items ih ho
    rw [transitions, transitions]
    refine moves_bind_of (transitionHead_at h.wellFormed origin depth items)
      (moves_transitionHead h ho depth items) fun t ht => ?_
    rw [h.leavesTree_eq ht.target_lt]
    exact moves_bind (ih t) fun b => moves_pure rfl
  case case2 =>
    intro f origin depth hf _
    rw [transitions.eq_2 s origin depth f hf, transitions.eq_2 s' _ depth f hf]
    exact moves_pure rfl
  case case3 =>
    intro leaves depth as ts
    rw [transitionBody, transitionBody]
    exact moves_pure rfl
  case case4 =>
    intro leaves depth as ts key value rest ih
    rw [transitionBody, transitionBody]
    exact ih
  case case5 =>
    intro leaves depth as ts items rest ih
    rw [transitionBody, transitionBody]
    refine moves_bind (moves_actions h items) fun more => ?_
    rw [← List.map_append]
    exact ih more
  case case6 =>
    intro leaves depth as ts items rest hts ih ihrest
    rw [transitionBody, transitionBody, List.isEmpty_map, h.path_eq, h.tree_eq]
    refine moves_check (moves_check ?_ rfl) rfl
    exact moves_bind (ih htree) fun ts' => ihrest ts'
  case case7 =>
    intro leaves depth as ts items rest hts ih ihrest
    rw [transitionBody, transitionBody, List.isEmpty_map, h.path_eq, h.tree_eq]
    refine moves_check (moves_check ?_ rfl) rfl
    exact moves_bind (ih htree) fun ts' => ihrest ts'
  case case8 =>
    intro leaves depth as ts items rest h₁ h₂
    rw [transitionBody]
    · exact moves_error
    · exact h₁
    · exact h₂
  case case9 =>
    intro leaves depth as ts f rest h₁ h₂ h₃ h₄ ih
    rw [transitionBody, transitionBody]
    · exact ih
    all_goals assumption

theorem moves_nodeAttribute (c : Content ω η) (key : String) (value : Form) :
    Moves ρ.slots (Content.rename ρ) (s.nodeAttribute c key value)
      (s'.nodeAttribute (c.rename ρ) key value) := by
  unfold nodeAttribute
  rw [h.scope_eq, h.path_eq, h.isTree_eq]
  split
  case h_1 => exact moves_pure rfl
  case h_5 | h_7 => exact moves_bind (moves_expression h _ _ _ _) fun e => moves_pure rfl
  case h_8 =>
    refine moves_bind (moves_expression h _ _ _ _) fun e => moves_pure ?_
    rw [h.id_eq, h.tree_eq]
    simp [Content.rename, Action.rename, Deed.rename]
  case h_9 => exact moves_error
  all_goals exact moves_after fun texts => moves_pure rfl

theorem moves_nodeForm (c : Content ω η) (items : List Form) :
    Moves ρ.slots (Content.rename ρ) (s.nodeForm c items) (s'.nodeForm (c.rename ρ) items) := by
  unfold nodeForm
  rw [h.path_eq, h.id_eq]
  split
  · split
    case h_1 | h_2 => exact moves_pure rfl
    case h_3 | h_4 | h_5 =>
      refine moves_bind (moves_actions h _) fun more => moves_pure ?_
      simp [Content.rename]
    case h_6 =>
      have hempty : (c.rename ρ).transitions.isEmpty = c.transitions.isEmpty := List.isEmpty_map
      rw [hempty]
      refine moves_check ?_ rfl
      exact moves_bind ((moves_transitions h).1 s.id 0 _ h.lt_size) fun ts => moves_pure rfl
    case h_7 => exact moves_error
  · exact moves_error

/-- The content of a node is read in the same way from both graphs. -/
theorem moves_content (parts : Parts) :
    Moves ρ.slots (Content.rename ρ) (s.content parts) (s'.content parts) := by
  unfold content
  refine moves_bind (moves_foldlM parts.attributes rfl fun c a => moves_nodeAttribute h c a.1 a.2)
    fun c => ?_
  refine moves_bind (moves_foldlM parts.nested rfl fun c items => moves_nodeForm h c items)
    fun c => ?_
  have hempty : (c.rename ρ).transitions.isEmpty = c.transitions.isEmpty := List.isEmpty_map
  have hguard : (c.rename ρ).guard.isNone = c.guard.isNone := Option.isNone_map
  have hchildren : s'.node.children.isEmpty = s.node.children.isEmpty := by
    rw [node, h.id_eq, h.graph.children_eq, List.isEmpty_map]
    rfl
  rw [hempty, hguard, hchildren, h.isTree_eq, h.isDefault_eq, h.path_eq]
  refine moves_check ?_ rfl
  dsimp only
  rw [show (c.rename ρ).triggers = c.triggers from rfl]
  split
  · exact fun _ _ _ hr => by cases hr
  · exact moves_pure rfl

end
end Subject
end ChatFlow.Document
