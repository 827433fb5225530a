import ChatFlow.Flow.Cycle
import ChatFlow.Proofs.Flow.WellFormed
import Mathlib.Data.List.Chain
import Mathlib.Data.List.Perm.Subperm
import Mathlib.Logic.Relation

/-! Automatic transitions of a graph that has passed the check never lead back to a node. -/
namespace ChatFlow.Flow
variable {ω η : Type} {g : Graph ω η} {id a b : NodeId} {path : List NodeId}

section
variable {α : Type} {R : α → α → Prop} {l : List α} {a b : α}

/-- No element leads back to itself. -/
def Acyclic (R : α → α → Prop) : Prop := ∀ a, ¬ Relation.TransGen R a a

/-- A chain visits no element twice unless it comes to one that leads back to itself. -/
theorem nodup_of_isChain (hR : ∀ b, Relation.ReflTransGen R a b → ¬ Relation.TransGen R b b)
    (hl : (a :: l).IsChain R) : (a :: l).Nodup := by
  have hchain : (a :: l).IsChain (Relation.TransGen R) := hl.imp fun _ _ => .single
  have hpairwise : (a :: l).Pairwise (Relation.TransGen R) := List.isChain_iff_pairwise.1 hchain
  have hreach : ∀ b ∈ a :: l, Relation.ReflTransGen R a b :=
    hl.induction _ _ (fun _ _ hbc hb => hb.tail hbc) fun _ => .refl
  refine hpairwise.imp_of_mem ?_
  rintro b _ hb _ hbc rfl
  exact hR b (hreach b hb) hbc

theorem Acyclic.nodup (hR : Acyclic R) (hl : l.IsChain R) : l.Nodup := by
  cases l with
  | nil => exact .nil
  | cons a l => exact nodup_of_isChain (fun b _ => hR b) hl

end

/-- A list of different nodes is not longer than the graph. -/
theorem Graph.length_le_size (hn : path.Nodup) (hlt : ∀ id ∈ path, id < g.size) :
    path.length ≤ g.size := by
  have hsub : path ⊆ List.range g.size := fun id hid => List.mem_range.2 (hlt id hid)
  have hle := (hn.subperm hsub).length_le
  rwa [List.length_range] at hle

namespace Graph

/-- Whether the own transition of a node leads to another one on its own. -/
def Leaps (g : Graph ω η) (a b : NodeId) : Prop := g.automaticTarget? a = some b

theorem lt_size_of_transition {t : Transition ω η} (ht : (g.node id).transition? = some t) :
    id < g.size := by
  by_contra hge
  rw [node_of_size_le (Nat.le_of_not_lt hge)] at ht
  cases ht

theorem Leaps.lt_size (h : g.Leaps a b) : a < g.size := by
  obtain ⟨t, ht, _⟩ := Option.bind_eq_some_iff.1 h
  exact lt_size_of_transition ht

/-- From a node of a cycle the search finds one, however far it may go. -/
theorem revisits_of_cycle (h : Relation.TransGen g.Leaps id id) (left : Nat)
    (visited : List NodeId) : g.revisits left visited id = true := by
  induction left generalizing visited id with
  | zero => rfl
  | succ left ih =>
    obtain ⟨next, hleap, hback⟩ := Relation.TransGen.head'_iff.1 h
    have hnext : Relation.TransGen g.Leaps next next := Relation.TransGen.tail' hback hleap
    rw [revisits, hleap]
    dsimp only
    rw [ih hnext, Bool.or_true]

theorem acyclic_of_checkCycles (h : g.checkCycles = .ok ()) : Acyclic g.Leaps := by
  intro id hcycle
  obtain ⟨next, hleap, _⟩ := Relation.TransGen.head'_iff.1 hcycle
  have hfound : g.cyclesFrom id = true := revisits_of_cycle hcycle _ _
  have hmem : id ∈ g.ids := List.mem_range.2 hleap.lt_size
  unfold checkCycles at h
  split at h
  · cases h
  · rename_i hnone
    exact absurd hfound (List.find?_eq_none.1 hnone id hmem)

end Graph
end ChatFlow.Flow
