import ChatFlow.Proofs.Flow.Restarts
import ChatFlow.Proofs.Flow.Walks

/-! The limit on automatic transitions cuts routes off, and changes nothing else about them. -/
namespace ChatFlow.Flow
variable {ω η : Type} {g : Graph ω η} {gate : Option Gate} {r : Router ω η} {n : Navigation}
  {h next last : Hop ω η} {t : Transition ω η} {hops : List (Hop ω η)} {left limit limit' k : Nat}
  {e : FlowError}

namespace Router

/-- Whether a hop from a position is followed by so many automatic ones, of which some hop is the last.
Each is what the transition due after the hop before it fires. The limit of the router plays no part. -/
inductive Trails (r : Router ω η) : Nat → Navigation → Hop ω η → Hop ω η → Prop where
  | stop (n : Navigation) (h : Hop ω η) : Trails r 0 n h h
  | more {n : Navigation} {h next last : Hop ω η} {t : Transition ω η} {k : Nat}
      (due : h.followUp? r.graph = some t) (fired : r.step (n.advance r.graph h) t = some next)
      (rest : Trails r k (n.advance r.graph h) next last) : Trails r (k + 1) n h last

theorem trails_zero : r.Trails 0 n h last ↔ last = h := by
  constructor
  · rintro ⟨⟩
    rfl
  · rintro rfl
    exact .stop n last

theorem trails_succ : r.Trails (k + 1) n h last ↔
    ∃ next, (h.followUp? r.graph).bind (r.step (n.advance r.graph h)) = some next ∧
      r.Trails k (n.advance r.graph h) next last := by
  constructor
  · rintro ⟨⟩
    rename_i next t due fired rest
    exact ⟨next, Option.bind_eq_some_iff.2 ⟨t, due, fired⟩, rest⟩
  · rintro ⟨next, hnext, hrest⟩
    obtain ⟨t, due, fired⟩ := Option.bind_eq_some_iff.1 hnext
    exact .more due fired hrest

/-- A chain fails exactly if a transition is due after the last hop that it may take, whatever this
transition would do. -/
theorem chain_eq_error : r.chain n h left = .error e ↔
    e = .transitionChain r.limit ∧
      ∃ last t, r.Trails left n h last ∧ last.followUp? r.graph = some t := by
  induction left generalizing n h with
  | zero => simp [chain_zero_eq_error, trails_zero, and_comm]
  | succ left ih =>
    rw [chain_succ_eq_error]
    constructor
    · rintro ⟨next, hnext, hrest⟩
      obtain ⟨herror, last, t, htrails, ht⟩ := ih.1 hrest
      exact ⟨herror, last, t, trails_succ.2 ⟨next, hnext, htrails⟩, ht⟩
    · rintro ⟨herror, last, t, htrails, ht⟩
      obtain ⟨next, hnext, htrails⟩ := trails_succ.1 htrails
      exact ⟨next, hnext, ih.2 ⟨herror, last, t, htrails, ht⟩⟩

theorem length_le_of_chain (hc : r.chain n h left = .ok hops) : hops.length ≤ left + 1 := by
  induction left generalizing n h hops with
  | zero =>
    rcases chain_eq_ok hc with rfl | ⟨_, _, _, _, _, hleft, _⟩
    · exact Nat.le_refl 1
    · cases hleft
  | succ left ih =>
    rcases chain_eq_ok hc with rfl | ⟨_, _, _, rest, _, hleft, _, hrest, rfl⟩
    · exact Nat.le_add_left 1 (left + 1)
    · cases hleft
      exact Nat.succ_le_succ (ih hrest)

/-- The limit itself only appears in the failure. -/
theorem chain_of_limit (hc : (⟨g, limit, gate⟩ : Router ω η).chain n h left = .ok hops) :
    (⟨g, limit', gate⟩ : Router ω η).chain n h left = .ok hops := by
  induction left generalizing n h hops with
  | zero =>
    obtain ⟨hnone, rfl⟩ := chain_zero_eq_ok.1 hc
    exact chain_zero_eq_ok.2 ⟨hnone, rfl⟩
  | succ left ih =>
    -- A step does not look at the limit, so that the same hop is next.
    refine chain_succ_eq_ok.2 ?_
    rcases chain_succ_eq_ok.1 hc with hend | ⟨next, rest, hnext, hrest, hgoes⟩
    · exact Or.inl hend
    · exact Or.inr ⟨next, rest, hnext, ih hrest, hgoes⟩

theorem chain_of_larger_limit (hle : limit ≤ limit')
    (hc : (⟨g, limit, gate⟩ : Router ω η).chain n h limit = .ok hops) :
    (⟨g, limit', gate⟩ : Router ω η).chain n h limit' = .ok hops :=
  chain_of_limit (chain_mono hle hc)

end Router

/-- A route that is found has at most one hop more than the limit, and stays the same under every larger
limit. A route is not found exactly if a transition is still due when as many automatic hops as allowed
have been taken, even one that would be denied; that the limit is exceeded is the only failure. -/
theorem limit_only_cuts_off (g : Graph ω η) (gate : Option Gate) (n : Navigation) (limit : Nat) :
    let r : Router ω η := ⟨g, limit, gate⟩
    (∀ target,
      (∀ hops, r.routeTo n target = .ok hops → hops.length ≤ limit + 1 ∧
        ∀ limit' ≥ limit, (⟨g, limit', gate⟩ : Router ω η).routeTo n target = .ok hops) ∧
      ∀ e, r.routeTo n target = .error e ↔ e = .transitionChain limit ∧
        ∃ last t, r.Trails limit n (r.jump n.current target none) last ∧ last.followUp? g = some t) ∧
    ∀ tree,
      (∀ hops, r.enterTree n tree = .ok hops → hops.length ≤ limit + 1 ∧
        ∀ limit' ≥ limit, (⟨g, limit', gate⟩ : Router ω η).enterTree n tree = .ok hops) ∧
      ∀ e, r.enterTree n tree = .error e ↔ e = .transitionChain limit ∧
        ∃ last t, r.Trails limit n (.between g n.current tree none none []) last ∧
          last.followUp? g = some t := by
  intro r
  refine ⟨fun target => ⟨?_, fun e => Router.chain_eq_error⟩,
    fun tree => ⟨?_, fun e => Router.chain_eq_error⟩⟩
  · intro hops hr
    exact ⟨Router.length_le_of_chain hr, fun limit' hle => Router.chain_of_larger_limit hle hr⟩
  · intro hops hr
    exact ⟨Router.length_le_of_chain hr, fun limit' hle => Router.chain_of_larger_limit hle hr⟩

/-- A branch of the first tree jumps to the second, which returns to its caller; the jump has a follow-up
into the third tree, from which the only role is barred. -/
def barred : Graph Unit Unit := ⟨[
    { Node.fresh "Main" (.tree ⟨.none, none, none, none⟩) with children := [1] },
    { Node.fresh "Go" (.branch ⟨.none, none⟩) with
      parent := some 0, depth := 1, transitions := [⟨.jump, some 2, .plain, [], some ⟨1, 0⟩⟩,
        ⟨.jump, some 3, .plain, [], some ⟨1, 1⟩⟩] },
    { Node.fresh "Side" (.tree ⟨.none, none, none, none⟩) with
      tree := 2, transitions := [⟨.caller, none, .plain, [], some ⟨2, 0⟩⟩] },
    { Node.fresh "Vault" (.tree ⟨.none, none, none, none⟩) with tree := 3 }],
  Table.empty.insert "v" ⟨"v", none, some [0, 2], none⟩⟩

/-- With a limit of two the follow-up that is still due after the return makes the route fail. With a
limit of three it is dropped, and the route has the same three hops under every larger limit. -/
theorem barred_cut_off :
    (⟨barred, 2, some ⟨0, some "v"⟩⟩ : Router Unit Unit).routeTo (.standing 0) 1 =
      .error (.transitionChain 2) ∧
    ∃ hops, hops.length = 3 ∧ ∀ limit ≥ 3,
      (⟨barred, limit, some ⟨0, some "v"⟩⟩ : Router Unit Unit).routeTo (.standing 0) 1 = .ok hops := by
  have hfails : ((⟨barred, 2, some ⟨0, some "v"⟩⟩ : Router Unit Unit).routeTo (.standing 0) 1).isOk =
      false := by decide +kernel
  have hfound : ((⟨barred, 3, some ⟨0, some "v"⟩⟩ : Router Unit Unit).routeTo (.standing 0) 1).isOk =
      true := by decide +kernel
  have hlength : (((⟨barred, 3, some ⟨0, some "v"⟩⟩ : Router Unit Unit).routeTo
      (.standing 0) 1).toOption.getD default).length = 3 := by decide +kernel
  obtain ⟨e, he⟩ := eq_error_of_isOk hfails
  have hcut := ((limit_only_cuts_off barred (some ⟨0, some "v"⟩) (.standing 0) 2).1 1).2 e
  have hkeep := ((limit_only_cuts_off barred (some ⟨0, some "v"⟩) (.standing 0) 3).1 1).1 _
    (eq_ok_of_isOk hfound)
  refine ⟨?_, _, hlength, hkeep.2⟩
  rw [he, (hcut.1 he).1]

end ChatFlow.Flow
