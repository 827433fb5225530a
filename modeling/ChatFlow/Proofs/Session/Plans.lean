import ChatFlow.Proofs.Flow.Gates
import ChatFlow.Proofs.Session.Evaluation

/-! Where the plan of an event leads. -/
namespace ChatFlow
open Flow Expr
variable {ω η α : Type} {sc : Scenario ω η} {P : NodeId → Prop} {l l' : Live ω η} {s : Session η}
  {event : Event} {tree : NodeId} {route : List (Hop ω η)}

def Scenario.rules (sc : Scenario ω η) : AccessRules ω η := ⟨sc.graph, sc.settings.guestLevel⟩

namespace Run

/-- The routes that an event may ask for: into a tree that is open to the role, or to a branch of an
active node. -/
inductive Leads (sc : Scenario ω η) (s : Session η) (route : List (Hop ω η)) : Prop where
  | enter {tree : NodeId} (htree : tree ∈ sc.graph.trees) (hopen : sc.rules.Opens s.role tree)
    (h : (router sc s).enterTree s.navigation tree = .ok route) : Leads sc s route
  | moveTo {id anchor branch : NodeId} (hid : s.navigation.current = some id)
    (hanchor : anchor ∈ sc.graph.ancestors id) (hbranch : branch ∈ (sc.graph.node anchor).branches)
    (h : (router sc s).routeTo s.navigation branch = .ok route) : Leads sc s route

/-- A route depends on the position and the role only. -/
theorem Leads.congr {s' : Session η} (hn : s'.navigation = s.navigation) (hr : s'.role = s.role)
    (h : Leads sc s' route) : Leads sc s route := by
  have hrouter : router sc s' = router sc s := by rw [router, router, hr]
  cases h with
  | enter htree hopen h => exact .enter htree (hr ▸ hopen) (hrouter ▸ hn ▸ h)
  | moveTo hid hanchor hbranch h => exact .moveTo (hn ▸ hid) hanchor hbranch (hrouter ▸ hn ▸ h)

theorem firstSelected_frame {select : NodeId → Run ω η Bool} {ids : List NodeId}
    (hs : ∀ id ∈ ids, Within (Frame sc P) (select id)) :
    Within (Frame sc P) (firstSelected select ids) :=
  within_firstSelected (Frame.refl sc P) Frame.trans hs

theorem mem_of_firstSelected {select : NodeId → Run ω η Bool} {ids : List NodeId} {id : NodeId}
    (h : firstSelected select ids l = (.ok (some id), l')) : id ∈ ids := by
  induction ids generalizing l with
  | nil => cases h
  | cons id' rest ih =>
    unfold firstSelected at h
    obtain ⟨go, l₁, _, h⟩ := bind_eq_ok h
    cases go with
    | true =>
      cases h
      exact List.mem_cons_self
    | false => exact List.mem_cons_of_mem _ (ih h)

theorem session_frame : Within (Frame sc P) (session : Run ω η (Session η)) :=
  within_session (Frame.refl sc P)

theorem selectsTree_frame : Within (Frame sc P) (selectsTree sc event tree) := by
  unfold selectsTree
  split
  · exact frame_pure false
  · split
    · exact frame_pure true
    · split
      · exact frame_pure false
      · refine frame_bind session_frame ?_
        intro s
        exact frame_imp (fun _ h => nomatch h) test_frame

theorem selectsBranch_frame {isDefault : Bool} {branch : NodeId}
    (hP : P (sc.graph.tree branch)) :
    Within (Frame sc P) (selectsBranch sc event isDefault branch) := by
  unfold selectsBranch
  split
  · exact frame_pure false
  · split
    · exact frame_pure true
    · split
      · exact frame_pure isDefault
      · refine frame_bind session_frame ?_
        intro s
        refine frame_imp ?_ test_frame
        intro t h
        cases h
        exact hP

/-- Resolving a route does nothing else. -/
theorem go_resolved_eq {resolution : Except FlowError (List (Hop ω η))}
    {outcome : Option Landing → Outcome} {r : Except FlowError (Plan ω η)}
    (h : (do return .go (← resolved resolution) outcome : Run ω η (Plan ω η)) l = (r, l')) :
    l' = l ∧ ∀ route made, r = .ok (.go route made) → resolution = .ok route := by
  rcases bind_eq h with ⟨route, l₁, hroute, h⟩ | ⟨e, hroute, rfl⟩
  · cases h
    injection hroute with hroute hl
    refine ⟨hl.symm, ?_⟩
    intro route' made he
    cases he
    exact hroute
  · injection hroute with hroute hl
    exact ⟨hl.symm, fun _ _ he => nomatch he⟩

theorem enter_eq (hg : sc.graph.Sound) (htree : tree ∈ sc.graph.trees)
    {r : Except FlowError (Plan ω η)} (h : enter sc tree l = (r, l')) :
    l' = l ∧ ∀ route made, r = .ok (.go route made) → Leads sc l.session route := by
  unfold enter at h
  rcases bind_eq h with ⟨s, l₁, hs, h⟩ | ⟨e, hs, _⟩
  · cases hs
    cases hcheck : AccessRules.check ⟨sc.graph, sc.settings.guestLevel⟩ l.session.role tree with
    | granted =>
      rw [hcheck] at h
      obtain ⟨hl, hroute⟩ := go_resolved_eq h
      exact ⟨hl, fun route made he => .enter htree (Or.inl hcheck) (hroute route made he)⟩
    | denied fallback =>
      rw [hcheck] at h
      cases fallback with
      | none =>
        cases h
        exact ⟨rfl, fun _ _ he => nomatch he⟩
      | some fallback =>
        obtain ⟨hl, hroute⟩ := go_resolved_eq h
        have hdenied := AccessRules.onDenied_of_check hcheck
        have htree := hg.onDenied_mem_trees hdenied
        exact ⟨hl, fun route made he => .enter htree (Or.inr hdenied) (hroute route made he)⟩
  · cases hs

theorem moveTo_eq {made : Landing → Outcome} {branch : NodeId} {r : Except FlowError (Plan ω η)}
    (h : moveTo sc made branch l = (r, l')) : l' = l ∧ ∀ route made, r = .ok (.go route made) →
      (router sc l.session).routeTo l.session.navigation branch = .ok route := by
  unfold moveTo at h
  rcases bind_eq h with ⟨s, l₁, hs, h⟩ | ⟨e, hs, _⟩
  · cases hs
    exact go_resolved_eq h
  · cases hs

theorem anchor?_eq_some {anchor : NodeId} (h : anchor? sc s = some anchor) :
    ∃ id, s.navigation.current = some id ∧ anchor ∈ sc.graph.ancestors id := by
  obtain ⟨id, hid, h⟩ := Option.bind_eq_some_iff.1 h
  exact ⟨id, hid, List.mem_of_find?_eq_some h⟩

/-- What planning leaves behind, and where its route leads: handlers are made in the current tree
only. -/
structure Planned (sc : Scenario ω η) (l : Live ω η) (r : Except FlowError (Plan ω η))
    (l' : Live ω η) : Prop where
  frame : Frame sc (fun t => l.session.current.map sc.graph.tree = some t) l l'
  leads : ∀ route made, r = .ok (.go route made) → Leads sc l.session route

/-- Planning may start with evaluations in the current tree. -/
theorem Planned.of_frame {l₁ : Live ω η} {r : Except FlowError (Plan ω η)}
    (hf : Frame sc (fun t => l.session.current.map sc.graph.tree = some t) l l₁)
    (h : Planned sc l₁ r l') : Planned sc l r l' := by
  obtain ⟨hf', hleads⟩ := h
  have hcurrent : l₁.session.current = l.session.current :=
    congrArg Navigation.current hf.navigation_eq
  refine ⟨hf.trans (hcurrent ▸ hf'), ?_⟩
  intro route made he
  exact (hleads route made he).congr hf.navigation_eq hf.role_eq

theorem Planned.of_leads {r : Except FlowError (Plan ω η)}
    (h : l' = l ∧ ∀ route made, r = .ok (.go route made) → Leads sc l.session route) :
    Planned sc l r l' := by
  obtain ⟨rfl, hleads⟩ := h
  exact ⟨Frame.refl .., hleads⟩

theorem Planned.of_stay {r : Except FlowError (Plan ω η)}
    (hf : Frame sc (fun t => l.session.current.map sc.graph.tree = some t) l l')
    (hr : ∀ route made, r ≠ .ok (.go route made)) : Planned sc l r l' :=
  ⟨hf, fun route made he => absurd he (hr route made)⟩

theorem tree_of_mem_branches (hg : sc.graph.WellFormed) {id anchor branch : NodeId}
    (hanchor : anchor ∈ sc.graph.ancestors id) (hbranch : branch ∈ (sc.graph.node anchor).branches) :
    sc.graph.tree branch = sc.graph.tree id :=
  (hg.tree_parent (hg.parent_branch hbranch)).trans (hg.tree_of_mem_ancestors hanchor)

theorem selectsBranches_frame (hg : sc.graph.WellFormed) {isDefault : Bool} {anchor : NodeId}
    {ids : List NodeId} (hanchor : anchor? sc s = some anchor)
    (hids : ∀ id ∈ ids, id ∈ (sc.graph.node anchor).branches) :
    Within (Frame sc fun t => s.current.map sc.graph.tree = some t)
      (firstSelected (selectsBranch sc event isDefault) ids) := by
  obtain ⟨current, hcurrent, hmem⟩ := anchor?_eq_some hanchor
  refine firstSelected_frame fun id hid => selectsBranch_frame ?_
  have hcurrent : s.current = some current := hcurrent
  rw [hcurrent, Option.map_some, tree_of_mem_branches hg hmem (hids id hid)]

theorem moveTo_planned {made : Landing → Outcome} {anchor branch : NodeId}
    {r : Except FlowError (Plan ω η)} (hanchor : anchor? sc l.session = some anchor)
    (hbranch : branch ∈ (sc.graph.node anchor).branches) (h : moveTo sc made branch l = (r, l')) :
    Planned sc l r l' := by
  obtain ⟨id, hid, hmem⟩ := anchor?_eq_some hanchor
  obtain ⟨hl, hroute⟩ := moveTo_eq h
  exact .of_leads ⟨hl, fun route made he => .moveTo hid hmem hbranch (hroute route made he)⟩

theorem anchor?_congr {l₁ : Live ω η} (hf : Frame sc P l l₁) :
    anchor? sc l₁.session = anchor? sc l.session := by
  rw [anchor?, anchor?, Session.current, Session.current, hf.navigation_eq]

/-- Selects among the branches of the innermost active node that has any. -/
def planBranch (sc : Scenario ω η) (event : Event) (anchor : NodeId) : Run ω η (Plan ω η) := do
  let node := sc.graph.node anchor
  if let some branch ← firstSelected (selectsBranch sc event false) node.children then
    return ← moveTo sc (.branched branch) branch
  match ← firstSelected (selectsBranch sc event true) node.fallback.toList with
  | none => return .stay .ignored
  | some branch => moveTo sc (.defaulted branch) branch

theorem planBranch_planned (hg : sc.graph.WellFormed) {r : Except FlowError (Plan ω η)}
    {anchor : NodeId} (hanchor : anchor? sc l.session = some anchor)
    (h : planBranch sc event anchor l = (r, l')) : Planned sc l r l' := by
  have hchild (id : NodeId) (hid : id ∈ (sc.graph.node anchor).children) :
      id ∈ (sc.graph.node anchor).branches := List.mem_append_left _ hid
  have hfallback (id : NodeId) (hid : id ∈ (sc.graph.node anchor).fallback.toList) :
      id ∈ (sc.graph.node anchor).branches := List.mem_append_right _ hid
  unfold planBranch at h
  rcases bind_eq h with ⟨selected, l₁, hsel, h⟩ | ⟨e, hsel, rfl⟩
  · have hf := selectsBranches_frame hg hanchor hchild l _ l₁ hsel
    refine .of_frame hf ?_
    have hanchor := (anchor?_congr hf).trans hanchor
    cases selected with
    | some branch => exact moveTo_planned hanchor (hchild branch (mem_of_firstSelected hsel)) h
    | none =>
      rcases bind_eq h with ⟨selected, l₂, hsel, h⟩ | ⟨e, hsel, rfl⟩
      · have hf := selectsBranches_frame hg hanchor hfallback l₁ _ l₂ hsel
        refine .of_frame hf ?_
        have hanchor := (anchor?_congr hf).trans hanchor
        cases selected with
        | some branch => exact moveTo_planned hanchor (hfallback branch (mem_of_firstSelected hsel)) h
        | none =>
          cases h
          exact .of_stay (Frame.refl ..) fun _ _ he => nomatch he
      · refine .of_stay ?_ fun _ _ he => nomatch he
        exact selectsBranches_frame hg hanchor hfallback l₁ _ l' hsel
  · refine .of_stay ?_ fun _ _ he => nomatch he
    exact selectsBranches_frame hg hanchor hchild l _ l' hsel

theorem plan_planned (hg : sc.graph.Sound) {r : Except FlowError (Plan ω η)}
    (h : plan sc event l = (r, l')) : Planned sc l r l' := by
  unfold plan at h
  rcases bind_eq h with ⟨selected, l₁, hsel, h⟩ | ⟨e, hsel, rfl⟩
  · have hf := firstSelected_frame (P := fun t => l.session.current.map sc.graph.tree = some t)
      (fun id _ => selectsTree_frame) l _ l₁ hsel
    refine .of_frame hf ?_
    cases selected with
    | some tree => exact .of_leads (enter_eq hg (mem_of_firstSelected hsel) h)
    | none =>
      rcases bind_eq h with ⟨s, l₂, hs, h⟩ | ⟨e, hs, _⟩
      · cases hs
        cases hanchor : anchor? sc l₁.session with
        | none =>
          rw [hanchor] at h
          cases h
          exact .of_stay (Frame.refl ..) fun _ _ he => nomatch he
        | some anchor =>
          rw [hanchor] at h
          exact planBranch_planned hg.wellFormed hanchor h
      · cases hs
  · refine .of_stay ?_ fun _ _ he => nomatch he
    exact firstSelected_frame (fun _ _ => selectsTree_frame) l _ l' hsel

end Run
end ChatFlow
