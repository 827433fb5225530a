import ChatFlow.Proofs.Flow.Stays
import ChatFlow.Proofs.Session.Plans

/-! What an event asks of a session: its plan is proposed from the position and the role alone. -/
namespace ChatFlow
open Flow Expr
variable {ω η : Type} {sc : Scenario ω η} {l l' : Live ω η} {s s' : Session η} {event : Event}
  {route : List (Hop ω η)}

/-- Where an event has moved the session, if it has. -/
def Outcome.landing? : Outcome → Option Landing
  | .ignored | .cancelled _ => none
  | .entered _ landing | .branched _ landing | .defaulted _ landing => some landing
  | .denied _ landing => landing

namespace Run

/-- What an event can ask of a session: to stay, or to carry out the resolved route to a tree or to a
branch; and what its outcome is when the route has a landing or none. -/
inductive Proposes (sc : Scenario ω η) (s : Session η) : Plan ω η → Prop where
  | ignored : Proposes sc s (.stay .ignored)
  | shut {tree : NodeId} (hcheck : sc.rules.check s.role tree = .denied none) :
    Proposes sc s (.stay (.denied tree none))
  | enter {tree : NodeId} {route : List (Hop ω η)}
    (hcheck : sc.rules.check s.role tree = .granted)
    (hroute : (router sc s).enterTree s.navigation tree = .ok route) :
    Proposes sc s (.go route (landed s (.entered tree)))
  | divert {tree fallback : NodeId} {route : List (Hop ω η)}
    (hcheck : sc.rules.check s.role tree = .denied (some fallback))
    (hroute : (router sc s).enterTree s.navigation fallback = .ok route) :
    Proposes sc s (.go route (.denied tree))
  | branch {branch : NodeId} {route : List (Hop ω η)}
    (hroute : (router sc s).routeTo s.navigation branch = .ok route) :
    Proposes sc s (.go route (landed s (.branched branch)))
  | default {branch : NodeId} {route : List (Hop ω η)}
    (hroute : (router sc s).routeTo s.navigation branch = .ok route) :
    Proposes sc s (.go route (landed s (.defaulted branch)))

namespace Proposes

/-- A proposal depends on the position and the role only. -/
theorem congr {p : Plan ω η} (hn : s'.navigation = s.navigation) (hr : s'.role = s.role)
    (h : Proposes sc s' p) : Proposes sc s p := by
  have hrouter : router sc s' = router sc s := by rw [router, router, hr]
  have hlanded (made : Landing → Outcome) : landed s' made = landed s made := by
    funext landing
    rw [landed.eq_def, landed.eq_def, Session.current, Session.current, hn]
  cases h with
  | ignored => exact .ignored
  | shut hcheck => exact .shut (hr ▸ hcheck)
  | enter hcheck hroute =>
    rw [hlanded]
    exact .enter (hr ▸ hcheck) (hrouter ▸ hn ▸ hroute)
  | divert hcheck hroute => exact .divert (hr ▸ hcheck) (hrouter ▸ hn ▸ hroute)
  | branch hroute =>
    rw [hlanded]
    exact .branch (hrouter ▸ hn ▸ hroute)
  | default hroute =>
    rw [hlanded]
    exact .default (hrouter ▸ hn ▸ hroute)

theorem landing?_stay {outcome : Outcome} (h : Proposes sc s (.stay outcome)) :
    outcome.landing? = none := by
  cases h <;> rfl

theorem landing?_go {made : Option Landing → Outcome} (h : Proposes sc s (.go route made))
    (landing : Option Landing) : (made landing).landing? = landing := by
  cases h <;> cases landing <;> rfl

theorem resolves {made : Option Landing → Outcome} (h : Proposes sc s (.go route made)) :
    (router sc s).Resolves s.navigation route := by
  cases h with
  | enter _ hroute => exact .enterTree hroute
  | divert _ hroute => exact .enterTree hroute
  | branch hroute => exact .routeTo hroute
  | default hroute => exact .routeTo hroute

end Proposes

theorem go_resolved_ok {resolution : Except FlowError (List (Hop ω η))} {p : Plan ω η}
    {made : Option Landing → Outcome}
    (h : (do return .go (← resolved resolution) made : Run ω η (Plan ω η)) l = (.ok p, l')) :
    l' = l ∧ ∃ route, resolution = .ok route ∧ p = .go route made := by
  obtain ⟨route, l₁, hroute, h⟩ := bind_eq_ok h
  injection hroute with hroute hl
  cases h
  exact ⟨hl.symm, route, hroute, rfl⟩

theorem enter_proposes {tree : NodeId} {p : Plan ω η} (h : enter sc tree l = (.ok p, l')) :
    l' = l ∧ Proposes sc l.session p := by
  unfold enter at h
  obtain ⟨s, l₁, hs, h⟩ := bind_eq_ok h
  cases hs
  cases hcheck : AccessRules.check ⟨sc.graph, sc.settings.guestLevel⟩ l.session.role tree with
  | granted =>
    rw [hcheck] at h
    obtain ⟨hl, route, hroute, rfl⟩ := go_resolved_ok h
    exact ⟨hl, .enter hcheck hroute⟩
  | denied fallback =>
    rw [hcheck] at h
    cases fallback with
    | none =>
      cases h
      exact ⟨rfl, .shut hcheck⟩
    | some fallback =>
      obtain ⟨hl, route, hroute, rfl⟩ := go_resolved_ok h
      exact ⟨hl, .divert hcheck hroute⟩

theorem moveTo_proposes {made : Landing → Outcome} {branch : NodeId} {p : Plan ω η}
    (h : moveTo sc made branch l = (.ok p, l')) : l' = l ∧ ∃ route,
      (router sc l.session).routeTo l.session.navigation branch = .ok route ∧
      p = .go route (landed l.session made) := by
  unfold moveTo at h
  obtain ⟨s, l₁, hs, h⟩ := bind_eq_ok h
  cases hs
  exact go_resolved_ok h

/-- Whether a computation has only evaluated something, and has ended with a proposal for the session. -/
structure Proposed (sc : Scenario ω η) (l : Live ω η) (p : Plan ω η) (l' : Live ω η) : Prop where
  frame : Frame sc (fun _ => True) l l'
  proposes : Proposes sc l.session p

theorem Proposed.of_frame {l₁ : Live ω η} {p : Plan ω η} (hf : Frame sc (fun _ => True) l l₁)
    (h : Proposed sc l₁ p l') : Proposed sc l p l' :=
  ⟨hf.trans h.frame, h.proposes.congr hf.navigation_eq hf.role_eq⟩

theorem planBranch_proposed {anchor : NodeId} {p : Plan ω η}
    (h : planBranch sc event anchor l = (.ok p, l')) : Proposed sc l p l' := by
  have hselect (isDefault : Bool) (ids : List NodeId) :
      Within (Frame sc fun _ => True) (firstSelected (selectsBranch sc event isDefault) ids) :=
    firstSelected_frame fun _ _ => selectsBranch_frame trivial
  unfold planBranch at h
  obtain ⟨selected, l₁, hsel, h⟩ := bind_eq_ok h
  refine .of_frame (hselect false _ l _ l₁ hsel) ?_
  cases selected with
  | some branch =>
    obtain ⟨rfl, route, hroute, rfl⟩ := moveTo_proposes h
    exact ⟨Frame.refl .., .branch hroute⟩
  | none =>
    obtain ⟨selected, l₂, hsel, h⟩ := bind_eq_ok h
    refine .of_frame (hselect true _ l₁ _ l₂ hsel) ?_
    cases selected with
    | some branch =>
      obtain ⟨rfl, route, hroute, rfl⟩ := moveTo_proposes h
      exact ⟨Frame.refl .., .default hroute⟩
    | none =>
      cases h
      exact ⟨Frame.refl .., .ignored⟩

theorem plan_proposed {p : Plan ω η} (h : plan sc event l = (.ok p, l')) : Proposed sc l p l' := by
  unfold plan at h
  obtain ⟨selected, l₁, hsel, h⟩ := bind_eq_ok h
  refine .of_frame (firstSelected_frame (fun id _ => selectsTree_frame) l _ l₁ hsel) ?_
  cases selected with
  | some tree =>
    obtain ⟨rfl, hp⟩ := enter_proposes h
    exact ⟨Frame.refl .., hp⟩
  | none =>
    obtain ⟨s, l₂, hs, h⟩ := bind_eq_ok h
    cases hs
    cases hanchor : anchor? sc l₁.session with
    | none =>
      rw [hanchor] at h
      cases h
      exact ⟨Frame.refl .., .ignored⟩
    | some anchor =>
      rw [hanchor] at h
      exact planBranch_proposed h

end Run
end ChatFlow
