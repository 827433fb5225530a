import ChatFlow.Flow.Navigation
import Mathlib.Data.List.DropRight
import Mathlib.Data.List.Nodup

/-! Paths from a tree down to a node, and how a hop turns one path into another. -/
namespace ChatFlow.Flow.Graph
variable {ω η : Type} {g : Graph ω η} {a b c id p : NodeId}

theorem ancestors_eq (g : Graph ω η) (id : NodeId) :
    g.ancestors id = id :: match g.parent id with
      | none => []
      | some p => if p < id then g.ancestors p else [] := by
  cases h : g.parent id <;> rw [ancestors] <;> simp only [h]

theorem ancestors_of_parent (h : g.parent id = some p) (hlt : p < id) :
    g.ancestors id = id :: g.ancestors p := by
  rw [ancestors_eq, h]
  simp [hlt]

/-- A node without a parent, or with one that was not inserted before it, is its only ancestor. -/
theorem ancestors_cases (g : Graph ω η) (id : NodeId) :
    g.ancestors id = [id] ∨
      ∃ p, g.parent id = some p ∧ p < id ∧ g.ancestors id = id :: g.ancestors p := by
  cases hp : g.parent id with
  | none => exact Or.inl (by rw [ancestors_eq, hp])
  | some p =>
    by_cases hlt : p < id
    · exact Or.inr ⟨p, rfl, hlt, ancestors_of_parent hp hlt⟩
    · exact Or.inl (by rw [ancestors_eq, hp]; simp [hlt])

theorem mem_ancestors_self (g : Graph ω η) (id : NodeId) : id ∈ g.ancestors id := by
  rw [ancestors_eq]
  exact List.mem_cons_self

theorem le_of_mem_ancestors (h : a ∈ g.ancestors id) : a ≤ id := by
  induction id using Nat.strong_induction_on with
  | _ id ih =>
    rcases ancestors_cases g id with he | ⟨p, _, hlt, he⟩
    · simp_all
    · rw [he, List.mem_cons] at h
      rcases h with rfl | h
      · exact Nat.le_refl _
      · exact Nat.le_of_lt (Nat.lt_of_le_of_lt (ih p hlt h) hlt)

theorem nodup_ancestors (g : Graph ω η) (id : NodeId) : (g.ancestors id).Nodup := by
  induction id using Nat.strong_induction_on with
  | _ id ih =>
    rcases ancestors_cases g id with he | ⟨p, _, hlt, he⟩
    · simp [he]
    · rw [he, List.nodup_cons]
      refine ⟨?_, ih p hlt⟩
      intro hmem
      exact absurd (le_of_mem_ancestors hmem) (Nat.not_le_of_lt hlt)

/-- The ancestors of an ancestor are the last ones of the list. -/
theorem takeWhile_append_ancestors (h : a ∈ g.ancestors id) :
    (g.ancestors id).takeWhile (· ≠ a) ++ g.ancestors a = g.ancestors id := by
  induction id using Nat.strong_induction_on with
  | _ id ih =>
    by_cases hid : id = a
    · subst hid
      rw [ancestors_eq, List.takeWhile_cons]
      simp
    · rcases ancestors_cases g id with he | ⟨p, _, hlt, he⟩
      · simp_all
      · rw [he, List.mem_cons] at h
        have hp : a ∈ g.ancestors p := h.resolve_left (Ne.symm hid)
        rw [he, List.takeWhile_cons]
        simpa [hid] using ih p hlt hp

theorem nodup_pathTo (g : Graph ω η) (id : NodeId) : (g.pathTo id).Nodup :=
  List.nodup_reverse.2 (nodup_ancestors g id)

theorem mem_of_commonAncestor (h : g.commonAncestor? a b = some c) :
    c ∈ g.ancestors a ∧ c ∈ g.ancestors b := by
  unfold commonAncestor? at h
  split at h
  · exact ⟨by simpa using List.find?_some h, List.mem_of_find?_eq_some h⟩
  · cases h

end Graph

variable {ω η : Type} {g : Graph ω η}

/-- The active nodes of a position, from the tree inwards. -/
def Navigation.path (n : Navigation) (g : Graph ω η) : List NodeId := (n.current.map g.pathTo).getD []

theorem Navigation.nodup_path (n : Navigation) (g : Graph ω η) : (n.path g).Nodup := by
  unfold path
  cases n.current with
  | none => simp
  | some id => exact Graph.nodup_pathTo g id

namespace Hop
variable {origin common : Option NodeId} {target : NodeId} {via : Option (Transition ω η)}
  {resumes : List (Transition ω η)}

/-- Whether the path of the origin turns into that of the target when the nodes left are taken off
and the nodes entered are put on. -/
def Joins (g : Graph ω η) (h : Hop ω η) : Prop :=
  ∃ kept, (h.origin.map g.pathTo).getD [] = kept ++ h.exits.reverse ∧
    g.pathTo h.target = kept ++ h.enters

/-- What stays active is the path of the common node, or nothing when there is none. -/
theorem between_paths
    (hc : ∀ c, common = some c → c ∈ g.ancestors target ∧ ∀ id, origin = some id → c ∈ g.ancestors id)
    (ho : origin = none → common = none) :
    (origin.map g.pathTo).getD [] = (common.map g.pathTo).getD [] ++
        (between g origin target common via resumes).exits.reverse ∧
      g.pathTo target = (common.map g.pathTo).getD [] ++
        (between g origin target common via resumes).enters := by
  cases common with
  | none =>
    have hall (l : List NodeId) : l.takeWhile (fun x => decide (some x ≠ none)) = l :=
      List.takeWhile_eq_self_iff.2 (by simp)
    refine ⟨?_, ?_⟩
    · cases origin <;> simp only [between, hall] <;> rfl
    · simp only [between, Graph.pathTo, hall]
      rfl
  | some c =>
    cases origin with
    | none => cases ho rfl
    | some id =>
      obtain ⟨ht, hid⟩ := hc c rfl
      refine ⟨?_, ?_⟩
      · have h := Graph.takeWhile_append_ancestors (hid id rfl)
        simp only [between, Graph.pathTo, Option.map_some, Option.getD_some, ← List.reverse_append]
        exact congrArg List.reverse (by simpa using h.symm)
      · have h := Graph.takeWhile_append_ancestors ht
        simp only [between, Graph.pathTo, Option.map_some, Option.getD_some, ← List.reverse_append]
        exact congrArg List.reverse (by simpa using h.symm)

theorem between_joins
    (hc : ∀ c, common = some c → c ∈ g.ancestors target ∧ ∀ id, origin = some id → c ∈ g.ancestors id)
    (ho : origin = none → common = none) : (between g origin target common via resumes).Joins g :=
  ⟨_, between_paths hc ho⟩

end Hop
end ChatFlow.Flow
