import ChatFlow.Proofs.Expr.Compiled

/-! The places of calls in expressions: a call with its arguments and with what is piped into it. -/
namespace ChatFlow.Expr
variable {ω η : Type}

/-- A call as it stands in an expression. It is fed with the left side of a chain when it stands on the
right. -/
structure Place (ω η : Type) where
  feed : Option (Term ω η)
  site : CallSite ω η
  args : List (Term ω η)

/-- The call at a place. -/
def Place.call (p : Place ω η) : Term ω η :=
  .call p.site.member p.args p.site.piped p.site.slot p.site.position

namespace Term

mutual

/-- The places of the calls of a term that may itself be fed. -/
def places : Term ω η → Option (Term ω η) → List (Place ω η)
  | literal _, _ => []
  | call m args piped slot position, feed =>
    ⟨feed, ⟨m, piped, slot, position⟩, args⟩ :: placesOfAll args
  | conditional bs none _ _, _ => placesOfBranches bs
  | conditional bs (some last) _ _, _ => placesOfBranches bs ++ places last none
  | operation op left right _, _ =>
    places left none ++ places right (if op = .chain then some left else none)
termination_by structural t => t

def placesOfAll : List (Term ω η) → List (Place ω η)
  | [] => []
  | t :: ts => places t none ++ placesOfAll ts
termination_by structural ts => ts

def placesOfBranches : List (Term ω η × Term ω η) → List (Place ω η)
  | [] => []
  | (guard, body) :: bs => places guard none ++ places body none ++ placesOfBranches bs
termination_by structural bs => bs

end

mutual

theorem site_places : ∀ (t : Term ω η) (feed : Option (Term ω η)),
    (t.places feed).map Place.site = t.calls
  | literal _, _ => rfl
  | call m args piped slot position, _ => congrArg (_ :: ·) (site_placesOfAll args)
  | conditional bs none _ _, _ => site_placesOfBranches bs
  | conditional bs (some last) _ _, _ => by
    rw [places, calls, List.map_append, site_placesOfBranches bs, site_places last none]
  | operation op left right _, _ => by
    rw [places, calls, List.map_append, site_places left none, site_places right]
termination_by structural t => t

theorem site_placesOfAll : ∀ (ts : List (Term ω η)), (placesOfAll ts).map Place.site = callsOfAll ts
  | [] => rfl
  | t :: ts => by
    rw [placesOfAll, callsOfAll, List.map_append, site_places t none, site_placesOfAll ts]
termination_by structural ts => ts

theorem site_placesOfBranches : ∀ (bs : List (Term ω η × Term ω η)),
    (placesOfBranches bs).map Place.site = callsOfBranches bs
  | [] => rfl
  | (guard, body) :: bs => by
    rw [placesOfBranches, callsOfBranches, List.map_append, List.map_append, site_places guard none,
      site_places body none, site_placesOfBranches bs]
termination_by structural bs => bs

end
end Term

/-- The places of the calls in some expressions. -/
def placesOf (xs : List (Expression ω η)) : List (Place ω η) := xs.flatMap fun x => x.term.places none

theorem site_placesOf (xs : List (Expression ω η)) : (placesOf xs).map Place.site = callsOf xs := by
  simp only [placesOf, callsOf, List.map_flatMap, Term.site_places]

theorem nodup_slots_placesOf (ns : Namespace ω η) (requests : List Request) :
    ((placesOf (compiled ns requests)).filterMap (·.site.slot)).Nodup := by
  have h := nodup_slots ns requests
  rw [← site_placesOf, List.filterMap_map] at h
  exact h

end ChatFlow.Expr
