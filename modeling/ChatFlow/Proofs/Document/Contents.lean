import ChatFlow.Proofs.Document.Reading
import ChatFlow.Proofs.Flow.Sound

/-! What the content of a node refers to: its actions belong to the node and its tree, and its
transitions know their places and lead to nodes of the graph. -/
namespace ChatFlow.Flow

namespace Graph
variable {ω η : Type} {g : Graph ω η} {scope : Option NodeId} {name : String} {id : NodeId}

theorem mem_trees_of_treeNamed (h : g.treeNamed? name = some id) : id ∈ g.trees :=
  List.mem_of_find?_eq_some h

theorem lt_size_of_branchNamed {tree : NodeId} (h : g.branchNamed? tree name = some id) :
    id < g.size := by
  have hmem := List.mem_of_find?_eq_some h
  simpa [ids] using hmem

theorem WellFormed.lt_size_of_branchBelow (hg : g.WellFormed) {top : NodeId}
    (h : g.branchBelow? top name = some id) : id < g.size :=
  lt_size_of_parent (hg.parent_branch (List.mem_of_find?_eq_some h))

theorem WellFormed.lt_size_of_path (hg : g.WellFormed) {names : List String} {top : NodeId}
    (ht : top < g.size) (h : names.foldlM g.branchBelow? top = some id) : id < g.size := by
  induction names generalizing top with
  | nil =>
    cases h
    exact ht
  | cons name rest ih =>
    rw [List.foldlM_cons] at h
    obtain ⟨next, hnext, h⟩ := Option.bind_eq_some_iff.1 h
    exact ih (hg.lt_size_of_branchBelow hnext) h

/-- Looking up a name finds a node of the graph. -/
theorem WellFormed.lt_size_of_lookup (hg : g.WellFormed) (h : g.lookup? scope name = some id) :
    id < g.size := by
  unfold lookup? at h
  split at h
  · obtain ⟨tree, htree, hbelow⟩ := Option.bind_eq_some_iff.1 h
    exact hg.lt_size_of_path (mem_trees.1 (mem_trees_of_treeNamed htree)).1 hbelow
  · cases hb : scope.bind fun id => g.branchNamed? (g.tree id) name with
    | none =>
      rw [hb] at h
      exact (mem_trees.1 (mem_trees_of_treeNamed h)).1
    | some branch =>
      rw [hb] at h
      cases h
      obtain ⟨_, _, hb⟩ := Option.bind_eq_some_iff.1 hb
      exact lt_size_of_branchNamed hb

end Graph
end ChatFlow.Flow

namespace ChatFlow.Document
open Flow Expr
variable {ω η : Type} {s : Subject ω η}

namespace Subject

theorem expression_scoped (s : Subject ω η) (scope : Option String) (key : String) (expected : Kind)
    (f : Form) : Yields (s.expression scope key expected f) (Expression.ScopedTo scope) := by
  unfold expression
  split
  · exact yields_pure fun _ hcall => absurd hcall List.not_mem_nil
  · refine yields_bind (yields_trivial _) ?_
    intro text _ n e n' hr
    rcases hc : Typing.compileText s.library.members scope expected text n with ⟨r, n₁⟩
    have hrun : (Typing.compileText s.library.members scope expected text).run n = (r, n₁) := hc
    simp only [StateT.run, hrun] at hr
    cases r with
    | error e =>
      cases hr
    | ok e =>
      cases hr
      exact Typing.scoped_compileText hc

theorem actionGuard_scoped (s : Subject ω η) (attributes : List (String × Form)) :
    Yields (s.actionGuard attributes) fun guard => ∀ e, guard = some e → e.ScopedTo s.scope := by
  unfold actionGuard
  refine yields_foldlM (fun _ h => nomatch h) ?_
  intro guard written _ _
  dsimp only
  split
  · refine yields_bind (s.expression_scoped s.scope _ _ _) fun e he => yields_pure ?_
    intro e' he'
    cases he'
    exact he
  · exact yields_lift fun _ h => nomatch h

theorem deed_scoped (s : Subject ω η) (head : String) (argument : Option Form) :
    Yields (s.deed head argument) fun deed => ∀ e, deed = .invoke e → e.ScopedTo s.scope := by
  unfold deed
  split
  · refine yields_bind (s.expression_scoped s.scope _ _ _) fun e he => yields_pure ?_
    intro e' he'
    cases he'
    exact he
  · refine yields_bind (yields_trivial _) fun name _ => ?_
    split
    · exact yields_pure fun _ h => nomatch h
    · exact yields_lift fun _ h => nomatch h
  · exact yields_pure fun _ h => nomatch h
  all_goals exact yields_lift fun _ h => nomatch h

theorem action_of (s : Subject ω η) (f : Form) :
    Yields (s.action f) (Action.Of s.scope s.id s.tree) := by
  unfold action
  split
  · dsimp only
    refine yields_bind (yields_trivial _) ?_
    intro parts _
    refine yields_bind (s.actionGuard_scoped _) ?_
    intro guard hguard
    refine yields_bind (s.deed_scoped _ _) ?_
    intro deed hdeed
    refine yields_pure ⟨rfl, rfl, List.forall_mem_append.2 ⟨?_, ?_⟩⟩
    · intro e he
      exact hguard e (Option.mem_toList.1 he)
    · intro e he
      cases deed with
      | invoke e' =>
        cases List.mem_singleton.1 he
        exact hdeed e rfl
      | call name procedure => cases he
      | clearCache => cases he
  · exact yields_lift fun _ h => nomatch h
  · exact yields_lift fun _ h => nomatch h

theorem actions_of (s : Subject ω η) (fs : List Form) :
    Yields (s.actions fs) fun as => ∀ a ∈ as, a.Of s.scope s.id s.tree :=
  yields_mapM fun f _ => s.action_of f

/-- A transition has a static target unless it returns: then it names none, and a return to a caller may
name none, a return to the parent needs one. -/
theorem transitionTarget_eq_ok {origin : NodeId} {t : Itinerary ω η} {target : Option NodeId} :
    s.transitionTarget origin t = .ok target ↔
      (t.move = .caller ∧ t.target = none ∧ target = none) ∨
      (t.move = .back ∧ t.target = none ∧ target = none ∧ ∃ p, s.graph.parent origin = some p) ∨
      ∃ name id, t.target = some name ∧ target = some id ∧ t.move ≠ .caller ∧
        s.graph.lookup? (some origin) name = some id ∧
        (t.move = .back → id ∈ s.graph.ancestors origin) := by
  obtain ⟨move, name | name, options⟩ := t
  · cases move with
    | jump => simp [transitionTarget]
    | caller => simp [transitionTarget, eq_comm (a := target)]
    | back =>
      cases hparent : s.graph.parent origin <;>
        simp [transitionTarget, invalid, hparent, eq_comm (a := target)]
  · cases hlookup : s.graph.lookup? (some origin) name with
    | none => cases move <;> simp [transitionTarget, invalid, hlookup]
    | some id =>
      cases move with
      | caller => simp [transitionTarget, invalid]
      | jump => simp [transitionTarget, hlookup, eq_comm (a := target)]
      | back =>
        by_cases hmem : id ∈ s.graph.ancestors origin
        · simp [transitionTarget, hlookup, Graph.isAncestor, hmem, eq_comm (a := target)]
        · simp [transitionTarget, invalid, hlookup, Graph.isAncestor, hmem]

theorem transitionTarget_lt (hg : s.graph.WellFormed) {origin : NodeId} {t : Itinerary ω η}
    {target : Option NodeId} (h : s.transitionTarget origin t = .ok target) :
    ∀ id, target = some id → id < s.graph.size := by
  rintro id rfl
  rcases transitionTarget_eq_ok.1 h with ⟨_, _, h⟩ | ⟨_, _, h, _⟩ | ⟨name, _, _, h, _, hlookup, _⟩ <;>
    cases h
  exact hg.lt_size_of_lookup hlookup

/-- A jump has a static target, and a return to a caller has none. -/
theorem transitionTarget_of_move {origin : NodeId} {t : Itinerary ω η} {target : Option NodeId}
    (h : s.transitionTarget origin t = .ok target) :
    (t.move = .jump → ∃ id, target = some id) ∧ (t.move = .caller → target = none) := by
  rcases transitionTarget_eq_ok.1 h with
    ⟨hmove, _, htarget⟩ | ⟨hmove, _, htarget, _⟩ | ⟨_, id, _, htarget, hmove, _, _⟩
  · exact ⟨fun hjump => (nomatch hmove.symm.trans hjump), fun _ => htarget⟩
  · exact ⟨fun hjump => (nomatch hmove.symm.trans hjump), fun _ => htarget⟩
  · exact ⟨fun _ => ⟨id, htarget⟩, fun hcaller => (hmove hcaller).elim⟩

theorem transitionAttribute_scoped {t : Itinerary ω η}
    (ht : ∀ e, t.options.execute = some e → e.ScopedTo s.scope) (key : String) (value : Form) :
    Yields (s.transitionAttribute t key value) fun t =>
      ∀ e, t.options.execute = some e → e.ScopedTo s.scope := by
  unfold transitionAttribute
  split
  case h_1 =>
    refine yields_bind (yields_trivial _) fun name _ => ?_
    split
    · exact yields_pure ht
    · exact yields_lift fun _ h => nomatch h
  case h_2 => exact yields_bind (yields_trivial _) fun _ _ => yields_pure ht
  case h_3 =>
    refine yields_bind (s.expression_scoped s.scope _ _ _) fun e he => yields_pure ?_
    intro e' he'
    cases he'
    exact he
  case h_4 => exact yields_bind (yields_trivial _) fun _ _ => yields_pure ht
  case h_5 =>
    refine yields_bind (yields_trivial _) fun name _ => ?_
    split
    · exact yields_pure ht
    · exact yields_pure ht
    · exact yields_lift fun _ h => nomatch h
  case h_6 =>
    split
    · exact yields_pure ht
    · exact yields_lift fun _ h => nomatch h
  case h_7 => exact yields_lift fun _ h => nomatch h

theorem transitionHead_at (hg : s.graph.WellFormed) (origin : NodeId) (depth : Nat)
    (items : List Form) :
    Yields (s.transitionHead origin depth items)
      (Transition.At s.graph.size s.scope ⟨s.id, depth⟩ s.tree) := by
  unfold transitionHead
  refine yields_bind (yields_trivial _) ?_
  intro parts _
  refine yields_bind (yields_foldlM (fun _ h => nomatch h) fun t a _ ht =>
    transitionAttribute_scoped ht a.1 a.2) ?_
  intro t hscoped
  refine yields_check ?_
  refine yields_bind (yields_lift fun _ h => And.intro (transitionTarget_lt hg h)
    (transitionTarget_of_move h)) ?_
  intro target ⟨hlt, hjump, hcaller⟩
  exact yields_pure ⟨rfl, (fun _ ha => nomatch ha), hlt, hjump, hcaller, hscoped⟩

/-- Transitions at consecutive places, from a depth on. -/
def DeclaredFrom (s : Subject ω η) (depth : Nat) (ts : List (Transition ω η)) : Prop :=
  ∀ (k : Nat) (t : Transition ω η), ts[k]? = some t →
    t.At s.graph.size s.scope ⟨s.id, depth + k⟩ s.tree

theorem declaredFrom_nil (s : Subject ω η) (depth : Nat) : s.DeclaredFrom depth [] := by
  intro k t h
  simp at h

theorem declaredFrom_cons {depth : Nat} {t : Transition ω η} {ts : List (Transition ω η)}
    (ht : t.At s.graph.size s.scope ⟨s.id, depth⟩ s.tree) (hts : s.DeclaredFrom (depth + 1) ts) :
    s.DeclaredFrom depth (t :: ts) := by
  intro k t' h
  cases k with
  | zero =>
    cases h
    exact ht
  | succ k =>
    rw [show depth + (k + 1) = depth + 1 + k by omega]
    exact hts k t' h

/-- What the two readers of transitions keep: `P` holds of the transitions that are read from a place, and
`B` of what has been read of the nested forms of one of them, whose head has `H`. -/
structure ReadersKeep (s : Subject ω η) (H : NodeId → Nat → Transition ω η → Prop)
    (B : Bool → Nat → List (Action ω η) → List (Transition ω η) → Prop)
    (P : NodeId → Nat → List (Transition ω η) → Prop) : Prop where
  nil : ∀ origin depth, P origin depth []
  head : ∀ origin depth items, Yields (s.transitionHead origin depth items) (H origin depth)
  start : ∀ leaves depth, B leaves depth [] []
  cons : ∀ {origin depth t as ts}, H origin depth t → B (s.leavesTree t) depth as ts →
    P origin depth ({ t with actions := as } :: ts)
  actions : ∀ {leaves depth as ts} items, B leaves depth as ts →
    Yields (s.actions items) fun more => B leaves depth (as ++ more) ts
  followUp : ∀ {leaves depth as ts ts'}, B leaves depth as ts → leaves = true →
    P s.tree (depth + 1) ts' → B leaves depth as ts'

/-- The induction follows the two readers, which call each other. -/
theorem ReadersKeep.transitions {H : NodeId → Nat → Transition ω η → Prop}
    {B : Bool → Nat → List (Action ω η) → List (Transition ω η) → Prop}
    {P : NodeId → Nat → List (Transition ω η) → Prop} (hs : s.ReadersKeep H B P) :
    ∀ origin depth f, Yields (s.transitions origin depth f) (P origin depth) := by
  apply transitions.induct s
    (fun origin depth f => Yields (s.transitions origin depth f) (P origin depth))
    (fun leaves depth as ts items => B leaves depth as ts →
      Yields (s.transitionBody leaves depth as ts items) fun b => B leaves depth b.1 b.2)
  case case1 =>
    intro origin depth head items ih
    rw [Subject.transitions]
    refine yields_bind (hs.head origin depth items) fun t ht => ?_
    exact yields_bind (ih t (hs.start _ depth)) fun b hb => yields_pure (hs.cons ht hb)
  case case2 =>
    intro f origin depth hf
    rw [transitions.eq_2 s origin depth f hf]
    exact yields_pure (hs.nil origin depth)
  case case3 =>
    intro leaves depth as ts hb
    rw [transitionBody]
    exact yields_pure hb
  case case4 =>
    intro leaves depth as ts key value rest ih
    rw [transitionBody]
    exact ih
  case case5 =>
    intro leaves depth as ts items rest ih hb
    rw [transitionBody]
    exact yields_bind (hs.actions items hb) ih
  case case6 | case7 =>
    intro leaves depth as ts items rest hts ih ihrest hb
    rw [transitionBody]
    refine yields_check (yields_unless (fun _ h => nomatch h) fun hleaves => ?_)
    exact yields_bind ih fun ts' hts' => ihrest ts' (hs.followUp hb (by simpa using hleaves) hts')
  case case8 =>
    intro leaves depth as ts items rest h₁ h₂ _
    rw [transitionBody]
    · exact yields_lift fun _ h => nomatch h
    · exact h₁
    · exact h₂
  case case9 =>
    intro leaves depth as ts f rest h₁ h₂ h₃ h₄ ih
    rw [transitionBody]
    · exact ih
    all_goals assumption

/-- What has been read of a transition belongs to its node, with the follow-ups one place deeper each. -/
theorem readers_declared (s : Subject ω η) (hg : s.graph.WellFormed) :
    s.ReadersKeep (fun _ depth => Transition.At s.graph.size s.scope ⟨s.id, depth⟩ s.tree)
      (fun _ depth as ts => (∀ a ∈ as, a.Of s.scope s.id s.tree) ∧ s.DeclaredFrom (depth + 1) ts)
      fun _ depth => s.DeclaredFrom depth where
  nil := fun _ depth => declaredFrom_nil s depth
  head := transitionHead_at hg
  start := fun _ depth => ⟨List.forall_mem_nil _, declaredFrom_nil s (depth + 1)⟩
  cons := fun ht hb => declaredFrom_cons { ht with actions_of := hb.1 } hb.2
  actions := fun items hb n more n' hr =>
    ⟨List.forall_mem_append.2 ⟨hb.1, s.actions_of items n more n' hr⟩, hb.2⟩
  followUp := fun hb _ hts => ⟨hb.1, hts⟩

/-- A transition is read with its follow-ups one place deeper each. -/
theorem transitions_declared (s : Subject ω η) (hg : s.graph.WellFormed) (origin : NodeId) (depth : Nat)
    (f : Form) : Yields (s.transitions origin depth f) (s.DeclaredFrom depth) :=
  (s.readers_declared hg).transitions origin depth f

/-- Content that belongs to its node. -/
structure Content.Of (s : Subject ω η) (c : Content ω η) : Prop where
  actions_of : ∀ a ∈ c.actions, a.Of s.scope s.id s.tree
  exitActions_of : ∀ a ∈ c.exitActions, a.Of s.scope s.id s.tree
  reentryActions_of : ∀ a ∈ c.reentryActions, a.Of s.scope s.id s.tree
  declared : s.DeclaredFrom 0 c.transitions
  predicate_scoped : ∀ e, c.predicate = some e → e.ScopedTo none
  guard_scoped : ∀ e, c.guard = some e → e.ScopedTo s.scope

theorem Content.empty_of (s : Subject ω η) : (Content.empty : Content ω η).Of s where
  actions_of _ h := nomatch h
  exitActions_of _ h := nomatch h
  reentryActions_of _ h := nomatch h
  declared := declaredFrom_nil s 0
  predicate_scoped _ h := nomatch h
  guard_scoped _ h := nomatch h

theorem forall_mem_of_append {P : Action ω η → Prop} {as bs : List (Action ω η)}
    (ha : ∀ a ∈ as, P a) (hb : ∀ a ∈ bs, P a) : ∀ a ∈ as ++ bs, P a := by
  intro a h
  exact (List.mem_append.1 h).elim (ha a) (hb a)

theorem nodeAttribute_of {c : Content ω η} (hc : c.Of s) (key : String) (value : Form) :
    Yields (s.nodeAttribute c key value) (Content.Of s) := by
  have hsame {c' : Content ω η} (ha : c'.actions = c.actions) (he : c'.exitActions = c.exitActions)
      (hr : c'.reentryActions = c.reentryActions) (ht : c'.transitions = c.transitions)
      (hp : c'.predicate = c.predicate) (hguard : c'.guard = c.guard) : c'.Of s := by
    obtain ⟨triggers, predicate, level, guard, actions, exits, reentries, transitions⟩ := c'
    cases ha; cases he; cases hr; cases ht; cases hp; cases hguard
    exact ⟨hc.actions_of, hc.exitActions_of, hc.reentryActions_of, hc.declared, hc.predicate_scoped,
      hc.guard_scoped⟩
  unfold nodeAttribute
  split
  case h_1 => exact yields_pure hc
  case h_5 =>
    refine yields_bind (s.expression_scoped none _ _ _) fun e he => yields_pure ?_
    refine { hc with predicate_scoped := ?_ }
    intro e' he'
    cases he'
    exact he
  case h_7 =>
    refine yields_bind (s.expression_scoped s.scope _ _ _) fun e he => yields_pure ?_
    refine { hc with guard_scoped := ?_ }
    intro e' he'
    cases he'
    exact he
  case h_8 =>
    refine yields_bind (s.expression_scoped s.scope _ _ _) fun e he => yields_pure ?_
    refine { hc with actions_of := forall_mem_of_append hc.actions_of ?_ }
    intro a h
    cases List.mem_singleton.1 h
    refine ⟨rfl, rfl, ?_⟩
    intro e' he'
    cases List.mem_singleton.1 he'
    exact he
  case h_9 => exact yields_lift fun _ h => nomatch h
  all_goals exact yields_bind (yields_trivial _) fun _ _ => yields_pure (hsame rfl rfl rfl rfl rfl rfl)

theorem nodeForm_of (hg : s.graph.WellFormed) {c : Content ω η} (hc : c.Of s) (items : List Form) :
    Yields (s.nodeForm c items) (Content.Of s) := by
  unfold nodeForm
  split
  · split
    case h_1 => exact yields_pure hc
    case h_2 => exact yields_pure hc
    case h_3 =>
      exact yields_bind (s.actions_of _) fun more hmore =>
        yields_pure { hc with actions_of := forall_mem_of_append hc.actions_of hmore }
    case h_4 =>
      exact yields_bind (s.actions_of _) fun more hmore =>
        yields_pure { hc with exitActions_of := forall_mem_of_append hc.exitActions_of hmore }
    case h_5 =>
      exact yields_bind (s.actions_of _) fun more hmore =>
        yields_pure { hc with reentryActions_of := forall_mem_of_append hc.reentryActions_of hmore }
    case h_6 =>
      refine yields_check ?_
      exact yields_bind (s.transitions_declared hg s.id 0 _) fun ts hts =>
        yields_pure { hc with declared := hts }
    case h_7 => exact yields_lift fun _ h => nomatch h
  · exact yields_lift fun _ h => nomatch h

/-- The content of a node belongs to it. -/
theorem content_of (s : Subject ω η) (hg : s.graph.WellFormed) (parts : Parts) :
    Yields (s.content parts) (Content.Of s) := by
  unfold content
  refine yields_bind (yields_foldlM (Content.empty_of s) ?_) ?_
  · intro c a _ hc
    exact nodeAttribute_of hc a.1 a.2
  · intro c hc
    refine yields_bind (yields_foldlM hc fun c items _ hc => nodeForm_of hg hc items) ?_
    intro c hc
    refine yields_check ?_
    split
    · exact yields_bind (yields_trivial _) fun _ _ => yields_pure hc
    · exact yields_pure hc

end Subject
end ChatFlow.Document
