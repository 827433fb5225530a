import ChatFlow.Proofs.Document.Declared
import ChatFlow.Proofs.Flow.Appending
import ChatFlow.Proofs.Flow.Matching

/-! Graphs without content that are put one after the other in another order are equal up to the identifiers
of their nodes. -/
namespace ChatFlow.Flow.Graph
open Expr
variable {ω η : Type} {ns : Namespace ω η} {ρ ρ' : Renaming} {g g' g'' a b c : Graph ω η} {id : NodeId}

theorem WellFormed.lt_size_of_mentions (hg : g.WellFormed) (hid : id < g.size) {other : NodeId}
    (h : (g.node id).Mentions other) : other < g.size := by
  rcases h with hp | rfl | hbranch
  · exact Nat.lt_trans (hg.parent_lt hp) hid
  · exact hg.tree_lt hid
  · exact lt_size_of_parent (hg.parent_branch hbranch)

/-- Nodes without content mention those of their graph only, so that others may be renamed at will. -/
theorem Bare.rename_congr (hg : g.Bare ns) (hid : id < g.size) (h : ∀ i < g.size, ρ.ids i = ρ'.ids i) :
    (g.node id).rename ρ = (g.node id).rename ρ' :=
  Node.rename_congr (hg.bare_eq id) fun i hi => h i (hg.wellFormed.lt_size_of_mentions hid hi)

theorem Bare.rename_eq_self (hg : g.Bare ns) (hid : id < g.size) (h : ∀ i < g.size, ρ.ids i = i) :
    (g.node id).rename ρ = g.node id :=
  Node.rename_eq_self (hg.bare_eq id) fun i hi => h i (hg.wellFormed.lt_size_of_mentions hid hi)

theorem empty_append (hc : c.Bare ns) : empty.append c = c := by
  have hsize : (empty.append c).size = c.size := (size_append ..).trans (Nat.zero_add _)
  refine eq_of_node_eq hsize hc.roles_eq.symm fun id hid => ?_
  have hlt : id < c.size := hsize ▸ hid
  have hnode := node_append_add (g := empty) hlt
  rw [show (empty : Graph ω η).size + id = id from Nat.zero_add id] at hnode
  rw [hnode]
  exact hc.rename_eq_self hlt fun i _ => Nat.zero_add i

theorem Matches.trans (h : g.Matches ρ g') (h' : g'.Matches ρ' g'') : g.Matches (ρ.trans ρ') g'' := by
  refine ⟨h'.bijective.comp h.bijective, h'.size_eq.trans h.size_eq, fun {id} => ?_, fun hid => ?_⟩
  · refine Iff.trans ?_ h.lt_iff
    rw [← h.size_eq]
    exact h'.lt_iff
  · rw [Renaming.ids_trans, Function.comp_apply, h'.node_eq (h.size_eq ▸ h.lt_iff.2 hid), h.node_eq hid,
      Node.rename_rename]

/-- A graph without content has no slots. -/
theorem Matches.of_ids (h : g.Matches ρ g') (hg : g.Bare ns) (hids : ρ'.ids = ρ.ids) : g.Matches ρ' g' := by
  refine ⟨hids ▸ h.bijective, h.size_eq, hids ▸ h.lt_iff, fun hid => ?_⟩
  rw [hids, h.node_eq hid]
  exact hg.rename_congr hid fun i _ => by rw [hids]

theorem Bare.matches_self (hg : g.Bare ns) : g.Matches (.ofIds fun id => id) g :=
  ⟨Function.bijective_id, rfl, Iff.rfl, fun hid => (hg.rename_eq_self hid fun _ _ => rfl).symm⟩

/-- What comes after a graph may be renamed. -/
theorem Matches.append {ids : Equiv.Perm NodeId} (hc : c.Bare ns) (h : g.Matches (.ofIds ids) g') :
    (c.append g).Matches (.ofIds (above c.size ids)) (c.append g') := by
  refine ⟨(above c.size ids).bijective, ?_, fun {id} => ?_, fun {id} hid => ?_⟩
  · rw [size_append, size_append, h.size_eq]
  · rw [Renaming.ids_ofIds]
    rw [size_append]
    rcases Nat.lt_or_ge id c.size with hlt | hge
    · rw [above_of_lt ids hlt]
    · obtain ⟨k, rfl⟩ := Nat.exists_eq_add_of_le hge
      rw [above_add, Nat.add_lt_add_iff_left, Nat.add_lt_add_iff_left]
      exact h.lt_iff
  · rw [Renaming.ids_ofIds]
    rcases Nat.lt_or_ge id c.size with hlt | hge
    · rw [above_of_lt ids hlt, node_append_of_lt hlt, node_append_of_lt hlt]
      exact (hc.rename_eq_self hlt fun i hi => above_of_lt ids hi).symm
    · obtain ⟨k, rfl⟩ := Nat.exists_eq_add_of_le hge
      have hk : k < g.size := by
        rw [size_append] at hid
        exact Nat.lt_of_add_lt_add_left hid
      have hk' : ids k < g'.size := h.size_eq ▸ h.lt_iff.2 hk
      have hnode : g'.node (ids k) = (g.node k).rename (.ofIds ids) := h.node_eq hk
      rw [above_add, node_append_add hk', node_append_add hk, hnode, Node.rename_rename,
        Node.rename_rename]
      rw [Renaming.after, Renaming.ofIds_trans, Renaming.ofIds_trans]
      exact congrArg (fun f => (g.node k).rename (.ofIds f)) (funext fun i => (above_add c.size ids i).symm)

/-- Two graphs may be exchanged before others. -/
theorem matches_exchange (ha : a.Bare ns) (hb : b.Bare ns) (g : Graph ω η) :
    (a.append (b.append g)).Matches (.ofIds (exchange a.size b.size)) (b.append (a.append g)) := by
  refine ⟨(exchange a.size b.size).bijective, ?_, fun {id} => ?_, fun {id} hid => ?_⟩
  · simp only [size_append]
    exact Nat.add_left_comm ..
  · simp only [size_append, Renaming.ofIds, exchange, Equiv.coe_fn_mk]
    grind
  · rw [Renaming.ids_ofIds]
    rcases Nat.lt_or_ge id a.size with hlt | hge
    · have hlt' : id < (a.append g).size := by
        rw [size_append]
        exact Nat.lt_add_right _ hlt
      rw [exchange_of_lt hlt, node_append_add hlt', node_append_of_lt hlt, node_append_of_lt hlt]
      exact ha.rename_congr hlt fun i hi => (exchange_of_lt hi).symm
    · obtain ⟨k, rfl⟩ := Nat.exists_eq_add_of_le hge
      have hk : k < (b.append g).size := by
        rw [size_append] at hid
        exact Nat.lt_of_add_lt_add_left hid
      rw [node_append_add hk]
      rcases Nat.lt_or_ge k b.size with hlt | hge
      · rw [exchange_add_of_lt hlt, node_append_of_lt hlt, node_append_of_lt hlt, Node.rename_rename]
        exact (hb.rename_eq_self hlt fun i hi => exchange_add_of_lt hi).symm
      · obtain ⟨j, rfl⟩ := Nat.exists_eq_add_of_le hge
        have hj : j < g.size := by
          rw [size_append] at hk
          exact Nat.lt_of_add_lt_add_left hk
        have hj' : a.size + j < (a.append g).size := by simpa using hj
        rw [exchange_add, Nat.add_left_comm, node_append_add hj', node_append_add hj, node_append_add hj]
        simp only [Node.rename_rename, Renaming.after, Renaming.ofIds_trans]
        refine congrArg (fun f => (g.node j).rename (.ofIds f)) (funext fun i => ?_)
        exact (Nat.add_left_comm ..).trans (exchange_add a.size b.size i).symm

end ChatFlow.Flow.Graph
