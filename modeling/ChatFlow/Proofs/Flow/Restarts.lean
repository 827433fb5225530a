import ChatFlow.Proofs.Flow.EntryExit

/-! A route can be taken up in the middle: the transition of a later hop, fired where the hops before it
lead, gives the rest of the route. -/
namespace ChatFlow.Flow
variable {ω η : Type} {r : Router ω η} {n : Navigation} {h first : Hop ω η}
  {hops before after : List (Hop ω η)} {left left' : Nat}

namespace Router

/-- A chain that ends within a limit is the same within a larger one. -/
theorem chain_mono (hle : left ≤ left') (hc : r.chain n h left = .ok hops) :
    r.chain n h left' = .ok hops := by
  induction left generalizing n h hops left' with
  | zero =>
    obtain ⟨hnone, rfl⟩ := chain_zero_eq_ok.1 hc
    exact chain_of_no_followUp hnone left'
  | succ left ih =>
    obtain ⟨left', rfl⟩ : ∃ k, left' = k + 1 := ⟨left' - 1, by omega⟩
    refine chain_succ_eq_ok.2 ?_
    rcases chain_succ_eq_ok.1 hc with hend | ⟨next, rest, hnext, hrest, hgoes⟩
    · exact Or.inl hend
    · exact Or.inr ⟨next, rest, hnext, ih (Nat.le_of_succ_le_succ hle) hrest, hgoes⟩

/-- Every later hop of a chain is fired where the hops before it lead, and the chain goes on from there
with what is left of the limit. -/
theorem chain_at_split (hc : r.chain n first left = .ok (before ++ h :: after)) (hne : before ≠ []) :
    ∃ t rest, h.via = some t ∧ r.step (n.follow r.graph before) t = some h ∧ rest ≤ left ∧
      r.chain (n.follow r.graph before) h rest = .ok (h :: after) := by
  induction before generalizing n first left with
  | nil => exact absurd rfl hne
  | cons head before ih =>
    rcases chain_eq_ok hc with hend | ⟨t, next, rest, hops, _, rfl, hs, hnext, hsplit⟩
    · cases before <;> cases hend
    · obtain ⟨rfl, rfl⟩ := List.cons_eq_cons.1 hsplit
      cases before with
      | nil =>
        obtain ⟨_, hhead⟩ := chain_head hnext
        cases hhead
        exact ⟨t, rest, step_via hs, hs, Nat.le_succ rest, hnext⟩
      | cons second before =>
        obtain ⟨t, rest', hvia, hstep, hle, hchain⟩ := ih hnext (List.cons_ne_nil second before)
        exact ⟨t, rest', hvia, hstep, Nat.le_succ_of_le hle, hchain⟩

end Router

/-- Whatever the limit and the gate, a later hop of a route is that of a transition. Fired where the hops
before it lead, the transition is not denied, the limit is not exceeded, and the route that it gives
is the rest of the whole one, hop by hop. -/
theorem route_restarts (hr : r.Resolves n (before ++ h :: after)) (hne : before ≠ []) :
    ∃ t, h.via = some t ∧ r.follow (n.follow r.graph before) t = .ok (some (h :: after)) := by
  obtain ⟨first, hc⟩ := hr.chain
  obtain ⟨t, rest, hvia, hstep, hle, hchain⟩ := Router.chain_at_split hc hne
  refine ⟨t, hvia, ?_⟩
  unfold Router.follow
  rw [hstep]
  dsimp only
  rw [Router.chain_mono hle hchain]
  rfl

/-- The jump into the second tree, taken up in the branch, still returns to the first. -/
theorem errand_restarts : ∃ enter jump back t,
    errand.routeTo (.standing 0) 1 = .ok [enter, jump, back] ∧ jump.via = some t ∧
    errand.follow ((Navigation.standing 0).follow errand.graph [enter]) t =
      .ok (some [jump, back]) := by
  have hok : (errand.routeTo (.standing 0) 1).isOk = true := by decide +kernel
  have hroute := eq_ok_of_isOk hok
  obtain ⟨enter, jump, back, hhops⟩ :=
    List.length_eq_three.1 (show ((errand.routeTo (.standing 0) 1).toOption.getD default).length = 3 by
      decide +kernel)
  rw [hhops] at hroute
  have hresolves : errand.Resolves (.standing 0) ([enter] ++ jump :: [back]) := .routeTo hroute
  obtain ⟨t, hvia, hfollow⟩ := route_restarts hresolves (List.cons_ne_nil _ _)
  exact ⟨enter, jump, back, t, hroute, hvia, hfollow⟩

end ChatFlow.Flow
