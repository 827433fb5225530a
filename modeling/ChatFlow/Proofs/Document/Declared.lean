import ChatFlow.Document.Declare
import ChatFlow.Proofs.Flow.WellFormed
import ChatFlow.Proofs.Results

/-! The first pass over a document makes a well-formed graph of nodes without content. -/
namespace ChatFlow.Flow
open Expr
variable {ω η : Type}

/-- Whether handlers are registered for every owner that a tree asks for. -/
def Graph.Hosted (ns : Namespace ω η) (g : Graph ω η) : Prop :=
  ∀ id owner, (g.node id).handler = some owner → ns.hasHandler owner = true

/-- A graph in which no content has been read yet. -/
structure Graph.Bare (ns : Namespace ω η) (g : Graph ω η) : Prop where
  wellFormed : g.WellFormed
  bare_eq : ∀ id, (g.node id).bare = g.node id
  roles_eq : g.roles = ∅
  hosted : g.Hosted ns

namespace Graph
variable {ns : Namespace ω η} {g g' : Graph ω η} {name : String} {id p : NodeId} {isDefault : Bool}

theorem bare_empty (ns : Namespace ω η) : (empty : Graph ω η).Bare ns :=
  ⟨wellFormed_empty, fun _ => rfl, rfl, fun _ _ h => nomatch h⟩

@[simp] theorem bare_link (p : Node ω η) : (link id isDefault p).bare = link id isDefault p.bare := by
  cases isDefault <;> rfl

@[simp] theorem handler_link (p : Node ω η) : (link id isDefault p).handler = p.handler := by
  cases isDefault <;> rfl

theorem Bare.insertTree {handler : Option String} (hg : g.Bare ns)
    (hhosted : ∀ owner, handler = some owner → ns.hasHandler owner = true)
    (h : g.insertTree (.fresh name (.tree ⟨.none, none, none, handler⟩)) = .ok g') :
    g'.Bare ns ∧ g'.size = g.size + 1 := by
  have hwf := hg.wellFormed.insertTree rfl rfl h
  rw [insertTree_eq_ok h] at hwf ⊢
  refine ⟨⟨hwf, ?_, hg.roles_eq, ?_⟩, size_push ..⟩
  · intro id
    rw [node_push]
    split
    · rfl
    · exact hg.bare_eq id
  · intro id owner ho
    rw [node_push] at ho
    split at ho
    · exact hhosted owner ho
    · exact hg.hosted id owner ho

theorem Bare.insertBranch (hg : g.Bare ns) (hp : p < g.size)
    (h : g.insertBranch (.fresh name (.branch ⟨.none, none⟩)) p isDefault = .ok g') :
    g'.Bare ns ∧ g'.size = g.size + 1 := by
  have hwf := hg.wellFormed.insertBranch rfl rfl hp h
  rw [insertBranch_eq_ok h] at hwf ⊢
  have hp' (n : Node ω η) : p < (g.push n).size := by
    rw [size_push]
    exact Nat.lt_succ_of_lt hp
  refine ⟨⟨hwf, ?_, hg.roles_eq, ?_⟩, by simp⟩
  · intro id
    rw [node_modify _ (hp' _), node_push]
    by_cases hid : id = g.size
    · rw [if_pos hid]
      split
      · rw [bare_link]
        rfl
      · rfl
    · rw [if_neg hid]
      split
      · rw [bare_link, hg.bare_eq]
      · exact hg.bare_eq id
  · intro id owner ho
    rw [node_modify _ (hp' _), node_push] at ho
    by_cases hid : id = g.size
    · rw [if_pos hid] at ho
      split at ho
      · rw [handler_link] at ho
        cases ho
      · cases ho
    · rw [if_neg hid] at ho
      split at ho
      · rw [handler_link] at ho
        exact hg.hosted id owner ho
      · exact hg.hosted id owner ho

end Graph
end ChatFlow.Flow

namespace ChatFlow.Document
open Flow Expr
variable {ω η : Type} {ns : Namespace ω η} {g g' : Flow.Graph ω η} {d d' : Draft ω η} {place : Place}
  {items : List Form} {node : Node ω η} {parts : Parts}

theorem hasHandler_of_declaredHandler {path : String} {handler : Option String}
    (h : declaredHandler ns path parts = .ok handler) :
    ∀ owner, handler = some owner → ns.hasHandler owner = true := by
  unfold declaredHandler at h
  split at h
  · cases h
    exact fun _ ho => nomatch ho
  · obtain ⟨owner, _, h⟩ := bind_eq_ok.1 h
    split at h
    · rename_i hhas
      cases h
      intro owner' ho
      cases ho
      exact hhas
    · cases h

/-- A declared node has no content, and is a tree at the top only, with a handler that is registered if
it asks for one. -/
theorem declaredNode_eq_ok (h : declaredNode ns g place items = .ok (node, parts)) :
    (place.parent? = none ∧ ∃ name handler, node = .fresh name (.tree ⟨.none, none, none, handler⟩) ∧
        ∀ owner, handler = some owner → ns.hasHandler owner = true) ∨
      (∃ p, place.parent? = some p) ∧ ∃ name, node = .fresh name (.branch ⟨.none, none⟩) := by
  unfold declaredNode at h
  obtain ⟨name, _, h⟩ := bind_eq_ok.1 h
  obtain ⟨parts', _, h⟩ := bind_eq_ok.1 h
  cases place with
  | top =>
    obtain ⟨handler, hhandler, h⟩ := bind_eq_ok.1 h
    cases pure_eq_ok.1 h
    exact Or.inl ⟨rfl, name, handler, rfl, hasHandler_of_declaredHandler hhandler⟩
  | below p kind =>
    cases pure_eq_ok.1 h
    exact Or.inr ⟨⟨p, rfl⟩, name, rfl⟩

theorem insert_declaredNode (hg : g.Bare ns) (hp : ∀ p, place.parent? = some p → p < g.size)
    (hn : declaredNode ns g place items = .ok (node, parts))
    (h : g.insert node place.parent? place.isDefault = .ok g') :
    g'.Bare ns ∧ g'.size = g.size + 1 := by
  rcases declaredNode_eq_ok hn with ⟨hplace, name, handler, rfl, hhosted⟩ | ⟨⟨p, hplace⟩, name, rfl⟩
  · rw [hplace] at h
    exact hg.insertTree hhosted h
  · rw [hplace] at h
    exact hg.insertBranch (hp p hplace) h

theorem size_insert {isDefault : Bool} {parent : Option NodeId}
    (h : g.insert node parent isDefault = .ok g') : g'.size = g.size + 1 := by
  cases parent with
  | none =>
    rw [Graph.insertTree_eq_ok h]
    exact Graph.size_push ..
  | some p =>
    rw [Graph.insertBranch_eq_ok h, Graph.size_modify]
    exact Graph.size_push ..

theorem parent?_lt {parent : NodeId} {kind : BranchKind} (hp : parent < g.size) :
    ∀ p, (Place.below parent kind).parent? = some p → p < g.size := by
  rintro p ⟨⟩
  exact hp

/-- Declaring never takes a node away, and relates the drafts before and after it in every way that
declaring one node does around declaring what is below it. The induction follows the two functions, which
call each other. -/
theorem declare_relates (ns : Namespace ω η) {R : Draft ω η → Draft ω η → Prop} (hrefl : ∀ d, R d d)
    (htrans : ∀ {d d₁ d'}, R d d₁ → R d₁ d' → R d d')
    (hnode : ∀ {d d' place items node parts g}, (∀ p, place.parent? = some p → p < d.graph.size) →
      declaredNode ns d.graph place items = .ok (node, parts) →
      d.graph.insert node place.parent? place.isDefault = .ok g → R { d with graph := g } d' →
      R d { d' with pending := d'.pending ++ [(d.graph.size, parts)] }) :
    (∀ d place f, (∀ p, place.parent? = some p → p < d.graph.size) →
      ∀ d', declare ns d place f = .ok d' → d.graph.size ≤ d'.graph.size ∧ R d d') ∧
    ∀ d parent items, parent < d.graph.size →
      ∀ d', declareBelow ns d parent items = .ok d' → d.graph.size ≤ d'.graph.size ∧ R d d' := by
  apply declare.mutual_induct
    (fun d place f => (∀ p, place.parent? = some p → p < d.graph.size) →
      ∀ d', declare ns d place f = .ok d' → d.graph.size ≤ d'.graph.size ∧ R d d')
    (fun d parent items => parent < d.graph.size →
      ∀ d', declareBelow ns d parent items = .ok d' → d.graph.size ≤ d'.graph.size ∧ R d d')
  case case1 =>
    intro d place head items id ih hp d' h
    rw [declare] at h
    obtain ⟨⟨node, parts⟩, hdeclared, h⟩ := bind_eq_ok.1 h
    obtain ⟨g, hg, h⟩ := bind_eq_ok.1 h
    obtain ⟨d₁, hd₁, h⟩ := bind_eq_ok.1 h
    cases pure_eq_ok.1 h
    have hlt : d.graph.size < g.size := size_insert (mapError_eq_ok.1 hg) ▸ Nat.lt_succ_self _
    obtain ⟨hsize, hbelow⟩ := ih g hlt d₁ hd₁
    exact ⟨Nat.le_trans (Nat.le_of_lt hlt) hsize, hnode hp hdeclared (mapError_eq_ok.1 hg) hbelow⟩
  case case2 =>
    intro f d place hf _ d' h
    rw [declare.eq_2 ns d place f hf] at h
    cases h
    exact ⟨Nat.le_refl _, hrefl d⟩
  case case3 =>
    intro d parent _ d' h
    rw [declareBelow] at h
    cases h
    exact ⟨Nat.le_refl _, hrefl d⟩
  case case4 =>
    intro d parent key value rest ih hp d' h
    rw [declareBelow] at h
    exact ih hp d' h
  case case5 =>
    intro d parent items rest kind hkind ih ihrest hp d' h
    rw [declareBelow, hkind] at h
    obtain ⟨d₁, hd₁, h⟩ := bind_eq_ok.1 h
    obtain ⟨hsize, hbranch⟩ := ih (parent?_lt hp) d₁ hd₁
    obtain ⟨hsize', hrest⟩ := ihrest d₁ (Nat.lt_of_lt_of_le hp hsize) d' h
    exact ⟨Nat.le_trans hsize hsize', htrans hbranch hrest⟩
  case case6 =>
    intro d parent items rest hkind ih hp d' h
    rw [declareBelow, hkind] at h
    exact ih hp d' h
  case case7 =>
    intro d parent f rest hkey hlist ih hp d' h
    rw [declareBelow.eq_4 ns d parent f rest hkey hlist] at h
    exact ih hp d' h

/-- What inserting declared nodes keeps holds of a bare graph in the end, and the graph is still bare. -/
theorem declare_keeps (ns : Namespace ω η) {P : Flow.Graph ω η → Prop}
    (hP : ∀ {g g' place items node parts}, (∀ p, place.parent? = some p → p < g.size) →
      declaredNode ns g place items = .ok (node, parts) →
      g.insert node place.parent? place.isDefault = .ok g' → P g → P g') :
    (∀ d place f, (∀ p, place.parent? = some p → p < d.graph.size) →
      ∀ d', declare ns d place f = .ok d' → d.graph.Bare ns ∧ P d.graph → d'.graph.Bare ns ∧ P d'.graph) ∧
    ∀ d parent items, parent < d.graph.size →
      ∀ d', declareBelow ns d parent items = .ok d' →
        d.graph.Bare ns ∧ P d.graph → d'.graph.Bare ns ∧ P d'.graph := by
  obtain ⟨hdeclare, hbelow⟩ := declare_relates ns
    (R := fun d d' => d.graph.Bare ns ∧ P d.graph → d'.graph.Bare ns ∧ P d'.graph)
    (fun _ h => h) (fun h h' hd => h' (h hd))
    fun hp hnode hinsert hrest ⟨hbare, hd⟩ =>
      hrest ⟨(insert_declaredNode hbare hp hnode hinsert).1, hP hp hnode hinsert hd⟩
  exact ⟨fun d place f hp d' h => (hdeclare d place f hp d' h).2,
    fun d parent items hp d' h => (hbelow d parent items hp d' h).2⟩

theorem declare_grows {d d' : Draft ω η} {f : Form} (hg : d.graph.Bare ns)
    (hp : ∀ p, place.parent? = some p → p < d.graph.size) (h : declare ns d place f = .ok d') :
    d'.graph.Bare ns ∧ d.graph.size ≤ d'.graph.size := by
  constructor
  · exact ((declare_keeps ns (P := fun _ => True) fun _ _ _ _ => trivial).1 d place f hp d' h
      ⟨hg, trivial⟩).1
  · exact ((declare_relates ns (R := fun _ _ => True) (fun _ => trivial) (fun _ _ => trivial)
      fun _ _ _ _ => trivial).1 d place f hp d' h).1

end ChatFlow.Document
