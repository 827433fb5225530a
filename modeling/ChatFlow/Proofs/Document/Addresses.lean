import ChatFlow.Proofs.Document.Loaded
import ChatFlow.Proofs.Flow.Addresses

/-! Nodes of loaded documents under their paths. A document may give a node any name, also one that holds
the slash at which paths are cut. -/
namespace ChatFlow.Document
open Flow Expr
variable {ω η : Type} {l : Library ω η} {ns : Namespace ω η} {g : Flow.Graph ω η} {place : Place}
  {items : List Form} {node : Node ω η} {parts : Parts} {text : String}

theorem admits_declaredNode (hp : ∀ p, place.parent? = some p → p < g.size)
    (h : declaredNode ns g place items = .ok (node, parts)) : g.Admits node place.parent? := by
  rcases declaredNode_eq_ok h with ⟨hplace, name, handler, rfl, -⟩ | ⟨⟨p, hplace⟩, name, rfl⟩
  · exact ⟨rfl, by rw [hplace]; rfl, hp⟩
  · exact ⟨rfl, by rw [hplace]; rfl, hp⟩

theorem arranged_declareForm {d d' : Declarations ω η} {f : Form}
    (hd : d.draft.graph.Bare ns ∧ d.draft.graph.Arranged) (h : declareForm ns d f = .ok d') :
    d'.draft.graph.Bare ns ∧ d'.draft.graph.Arranged := by
  rcases declareForm_ok h with ⟨_, _, _, _, rfl⟩ | ⟨_, draft, _, hdraft, rfl⟩
  · exact hd
  · refine (declare_keeps ns (P := Graph.Arranged) ?_).1 d.draft .top _ nofun draft hdraft hd
    intro g g' place items node parts hp hnode hinsert hg
    exact hg.insert (admits_declaredNode hp hnode) hinsert

/-- The nodes of a loaded document stand as the first pass has inserted them. -/
theorem load_arranged (h : load l text = .ok g) : g.Arranged := by
  obtain ⟨forms, h⟩ := forms_of_load h
  obtain ⟨d, filled, slots, hd, _, hfilled, hroles, _⟩ := loadForms_eq_ok.1 h
  obtain ⟨hb, hdeclared⟩ : d.draft.graph.Bare l.members ∧ d.draft.graph.Arranged :=
    foldlM_ok (P := fun d => d.draft.graph.Bare l.members ∧ d.draft.graph.Arranged)
      ⟨Graph.bare_empty l.members, Graph.arranged_empty⟩ (fun _ _ _ hd h => arranged_declareForm hd h) hd
  have hpopulated : Populated d.draft.graph filled :=
    yields_foldlM (Populated.refl hb) (fun _ a _ hg => populate_populated hb hg a.2) 0 filled slots hfilled
  refine foldlM_ok (P := Graph.Arranged) (hdeclared.of_bare hpopulated.size_eq hpopulated.bare_eq) ?_ hroles
  intro g role g' hg h
  obtain ⟨grant, _, h⟩ := bind_eq_ok.1 (mapError_eq_ok.1 h)
  rw [insertGrant_eq_ok h]
  exact hg.of_bare rfl fun _ => rfl

/-- In a loaded document, a node is found under its path exactly if no name from the tree down to it holds
a slash, and no two such nodes have one path. -/
theorem load_addresses (h : load l text = .ok g) :
    (∀ id < g.size, g.lookup? none (g.path id) = some id ↔ ∀ name ∈ g.names id, '/' ∉ name.toList) ∧
      ∀ a < g.size, ∀ b < g.size, a ≠ b → g.path a = g.path b →
        ∃ name ∈ g.names a ++ g.names b, '/' ∈ name.toList := by
  have hg := load_arranged h
  refine ⟨fun id hid => hg.lookup?_path_iff hid, fun a ha b hb hne hpath => ?_⟩
  exact hg.slash_of_path_eq ha hb hne hpath

def signLibrary : Library Unit Unit := ⟨.empty, ∅, .default⟩

/-- Two default branches, one of them named after its parent and one with a slash in its name. -/
def signText : String := "(tree A (branch B :keys (b) (default)) (default \"C/D\"))"

theorem sign_addresses : ∃ g, load signLibrary signText = .ok g ∧
    (g.size = 4 ∧ g.path 2 = "A/B/BDefault" ∧ g.path 3 = "A/C/D" ∧
      g.ids.map (fun id => g.lookup? none (g.path id)) = [some 0, some 1, some 2, none]) ∧
    (∀ id < g.size, g.lookup? none (g.path id) = some id ↔ ∀ name ∈ g.names id, '/' ∉ name.toList) ∧
      ∀ a < g.size, ∀ b < g.size, a ≠ b → g.path a = g.path b →
        ∃ name ∈ g.names a ++ g.names b, '/' ∈ name.toList := by
  have hload : (load signLibrary signText).toOption.any (fun g =>
      decide (g.size = 4 ∧ g.path 2 = "A/B/BDefault" ∧ g.path 3 = "A/C/D" ∧
        g.ids.map (fun id => g.lookup? none (g.path id)) = [some 0, some 1, some 2, none])) = true := by
    decide +kernel
  obtain ⟨g, hg, hsigns⟩ := ok_of_any hload
  exact ⟨g, hg, of_decide_eq_true hsigns, load_addresses hg⟩

/-- A tree is not found under its path, and where another node has that path, it is found instead. -/
theorem slashed_tree_unaddressed :
    (∃ g, load signLibrary "(tree \"A/B\")" = .ok g ∧
      g.size = 1 ∧ g.path 0 = "A/B" ∧ g.lookup? none (g.path 0) = none) ∧
    ∃ g, load signLibrary "(tree \"A/B\") (tree A (branch B :keys (b)))" = .ok g ∧
      g.size = 3 ∧ g.path 0 = g.path 2 ∧ g.lookup? none (g.path 0) = some 2 := by
  have halone : (load signLibrary "(tree \"A/B\")").toOption.any (fun g =>
      decide (g.size = 1 ∧ g.path 0 = "A/B" ∧ g.lookup? none (g.path 0) = none)) = true := by
    decide +kernel
  have hshared : (load signLibrary "(tree \"A/B\") (tree A (branch B :keys (b)))").toOption.any (fun g =>
      decide (g.size = 3 ∧ g.path 0 = g.path 2 ∧ g.lookup? none (g.path 0) = some 2)) = true := by
    decide +kernel
  obtain ⟨g, hg, hnone⟩ := ok_of_any halone
  obtain ⟨g', hg', hother⟩ := ok_of_any hshared
  exact ⟨⟨g, hg, of_decide_eq_true hnone⟩, g', hg', of_decide_eq_true hother⟩

end ChatFlow.Document
