import ChatFlow.Proofs.Expr.Renumbering
import ChatFlow.Proofs.Flow.WellFormed
import Mathlib.Logic.Equiv.Basic

/-! Graphs with other identifiers for their nodes, and other slots for the calls in their expressions. -/
namespace ChatFlow.Flow
open Expr
variable {ω η : Type}

/-- A permutation moved up by a number. -/
def above (n : Nat) (σ : Equiv.Perm Nat) : Equiv.Perm Nat where
  toFun i := if i < n then i else n + σ (i - n)
  invFun i := if i < n then i else n + σ.symm (i - n)
  left_inv i := by
    have hle (j : Nat) : ¬ n + j < n := Nat.not_lt.2 (Nat.le_add_right n j)
    by_cases h : i < n
    · simp [h]
    · simp [h, hle, Nat.add_sub_cancel' (Nat.le_of_not_lt h)]
  right_inv i := by
    have hle (j : Nat) : ¬ n + j < n := Nat.not_lt.2 (Nat.le_add_right n j)
    by_cases h : i < n
    · simp [h]
    · simp [h, hle, Nat.add_sub_cancel' (Nat.le_of_not_lt h)]

/-- The permutation that exchanges a block of numbers with the next one. -/
def exchange (a b : Nat) : Equiv.Perm Nat where
  toFun i := if i < a then b + i else if i < a + b then i - a else i
  invFun i := if i < b then a + i else if i < b + a then i - b else i
  left_inv i := by grind
  right_inv i := by grind

theorem above_of_lt {n i : Nat} (σ : Equiv.Perm Nat) (h : i < n) : above n σ i = i := if_pos h

theorem above_add (n : Nat) (σ : Equiv.Perm Nat) (i : Nat) : above n σ (n + i) = n + σ i := by
  have h : ¬ n + i < n := Nat.not_lt.2 (Nat.le_add_right n i)
  simp [above, h]

theorem exchange_of_lt {a b i : Nat} (h : i < a) : exchange a b i = b + i := if_pos h

theorem exchange_add_of_lt {a b i : Nat} (h : i < b) : exchange a b (a + i) = i := by
  simp [exchange, h]

theorem exchange_add (a b i : Nat) : exchange a b (a + (b + i)) = a + (b + i) := by
  simp only [exchange, Equiv.coe_fn_mk]
  grind

/-- Other identifiers for nodes, and other slots for calls. -/
structure Renaming where
  ids : NodeId → NodeId
  slots : Nat → Nat

namespace Renaming

/-- Other identifiers, and the same slots. -/
def ofIds (ids : NodeId → NodeId) : Renaming := ⟨ids, id⟩

/-- The identifiers of nodes that come after a number of others. -/
def after (n : Nat) : Renaming := ofIds (n + ·)

def trans (ρ ρ' : Renaming) : Renaming := ⟨ρ'.ids ∘ ρ.ids, ρ'.slots ∘ ρ.slots⟩

@[simp] theorem ids_trans (ρ ρ' : Renaming) : (ρ.trans ρ').ids = ρ'.ids ∘ ρ.ids := rfl

@[simp] theorem ids_ofIds (ids : NodeId → NodeId) : (ofIds ids).ids = ids := rfl

theorem ofIds_trans (ids ids' : NodeId → NodeId) :
    (ofIds ids).trans (ofIds ids') = ofIds (ids' ∘ ids) := rfl

@[simp] theorem slots_trans (ρ ρ' : Renaming) : (ρ.trans ρ').slots = ρ'.slots ∘ ρ.slots := rfl

end Renaming

variable (ρ ρ' : Renaming)

def Deed.rename : Deed ω η → Deed ω η
  | invoke e => invoke (e.renumber ρ.slots)
  | call name procedure => call name procedure
  | clearCache => clearCache

def Action.rename (a : Action ω η) : Action ω η where
  deed := a.deed.rename ρ
  guard := a.guard.map (Expression.renumber ρ.slots)
  node := ρ.ids a.node
  tree := ρ.ids a.tree

def Options.rename (o : Options ω η) : Options ω η :=
  { o with execute := o.execute.map (Expression.renumber ρ.slots) }

def Site.rename (s : Site) : Site := { s with node := ρ.ids s.node }

def Transition.rename (t : Transition ω η) : Transition ω η where
  move := t.move
  target := t.target.map ρ.ids
  options := t.options.rename ρ
  actions := t.actions.map (Action.rename ρ)
  site := t.site.map (Site.rename ρ)

def NodeSpec.rename : NodeSpec ω η → NodeSpec ω η
  | tree spec => tree { spec with predicate := spec.predicate.map (Expression.renumber ρ.slots) }
  | branch spec => branch { spec with guard := spec.guard.map (Expression.renumber ρ.slots) }

def Node.rename (n : Node ω η) : Node ω η where
  name := n.name
  path := n.path
  parent := n.parent.map ρ.ids
  tree := ρ.ids n.tree
  depth := n.depth
  children := n.children.map ρ.ids
  fallback := n.fallback.map ρ.ids
  spec := n.spec.rename ρ
  actions := n.actions.map (Action.rename ρ)
  exitActions := n.exitActions.map (Action.rename ρ)
  reentryActions := n.reentryActions.map (Action.rename ρ)
  transitions := n.transitions.map (Transition.rename ρ)

def Grant.rename (grant : Grant) : Grant :=
  { grant with
    trees := grant.trees.map (List.map ρ.ids)
    onDenied := grant.onDenied.map ρ.ids }

@[simp] theorem Deed.rename_rename (d : Deed ω η) :
    (d.rename ρ).rename ρ' = d.rename (ρ.trans ρ') := by
  cases d <;> simp [rename]

@[simp] theorem Action.rename_rename (a : Action ω η) :
    (a.rename ρ).rename ρ' = a.rename (ρ.trans ρ') := by
  simp [rename, Function.comp_def]

@[simp] theorem Options.rename_rename (o : Options ω η) :
    (o.rename ρ).rename ρ' = o.rename (ρ.trans ρ') := by
  simp [rename, Function.comp_def]

@[simp] theorem Site.rename_rename (s : Site) : (s.rename ρ).rename ρ' = s.rename (ρ.trans ρ') := rfl

@[simp] theorem Transition.rename_rename (t : Transition ω η) :
    (t.rename ρ).rename ρ' = t.rename (ρ.trans ρ') := by
  simp [rename, Function.comp_def]

@[simp] theorem NodeSpec.rename_rename (s : NodeSpec ω η) :
    (s.rename ρ).rename ρ' = s.rename (ρ.trans ρ') := by
  cases s <;> simp [rename, Function.comp_def]

@[simp] theorem Node.rename_rename (n : Node ω η) :
    (n.rename ρ).rename ρ' = n.rename (ρ.trans ρ') := by
  simp [rename, Function.comp_def]

namespace Node
variable {ρ ρ' : Renaming} {n : Node ω η}

/-- Whether a node without content refers to another one. -/
def Mentions (n : Node ω η) (id : NodeId) : Prop :=
  n.parent = some id ∨ n.tree = id ∨ id ∈ n.branches

/-- A node without content has no slots, and no identifiers but those of its neighbours and its tree. -/
theorem rename_of_bare (h : n.bare = n) (ρ : Renaming) :
    n.rename ρ = { n with
      parent := n.parent.map ρ.ids, tree := ρ.ids n.tree
      children := n.children.map ρ.ids, fallback := n.fallback.map ρ.ids } := by
  rw [← h]
  cases hs : n.spec <;> simp [bare, rename, NodeSpec.rename, fresh, hs]

theorem rename_congr (h : n.bare = n) (hids : ∀ id, n.Mentions id → ρ.ids id = ρ'.ids id) :
    n.rename ρ = n.rename ρ' := by
  have hparent : n.parent.map ρ.ids = n.parent.map ρ'.ids :=
    Option.map_congr fun p hp => hids p (Or.inl hp)
  have htree : ρ.ids n.tree = ρ'.ids n.tree := hids _ (Or.inr (Or.inl rfl))
  have hchildren : n.children.map ρ.ids = n.children.map ρ'.ids :=
    List.map_congr_left fun c hc => hids c (Or.inr (Or.inr (List.mem_append_left _ hc)))
  have hfallback : n.fallback.map ρ.ids = n.fallback.map ρ'.ids :=
    Option.map_congr fun c hc =>
      hids c (Or.inr (Or.inr (List.mem_append_right _ (Option.mem_toList.2 hc))))
  rw [rename_of_bare h, rename_of_bare h, hparent, htree, hchildren, hfallback]

theorem rename_eq_self (h : n.bare = n) (hids : ∀ id, n.Mentions id → ρ.ids id = id) :
    n.rename ρ = n := by
  rw [(rename_congr h hids : n.rename ρ = n.rename ⟨id, id⟩), rename_of_bare h]
  simp

end Node
end ChatFlow.Flow
