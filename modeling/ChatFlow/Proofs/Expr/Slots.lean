import ChatFlow.Proofs.Expr.Compiled

/-! Slots of all that one compiler compiles. A compilation that is refused keeps what it has taken, so
there may be slots that no call has, but never two calls with one slot. -/
namespace ChatFlow.Expr
variable {ω η : Type} {sites sites' : List (CallSite ω η)} {site : CallSite ω η}

/-- Each call that has a slot has it for itself, and is one whose result is remembered. -/
structure Slotted (calls : List (CallSite ω η)) : Prop where
  nodup : (calls.filterMap CallSite.slot).Nodup
  caching : ∀ site ∈ calls, site.slot.isSome = true ↔ site.member.caching = .perEvent

namespace Slotted

theorem sublist (h : Slotted sites') (hsub : sites.Sublist sites') : Slotted sites :=
  ⟨h.nodup.sublist (hsub.filterMap _), fun site hsite => h.caching site (hsub.subset hsite)⟩

theorem not_mem_of_cons (h : Slotted (site :: sites)) :
    ∀ k, site.slot = some k → k ∉ sites.filterMap CallSite.slot := by
  intro k hk
  have hnodup := h.nodup
  rw [List.filterMap_cons_some hk] at hnodup
  exact (List.nodup_cons.1 hnodup).1

theorem callsOf_compiled (ns : Namespace ω η) (requests : List Request) :
    Slotted (callsOf (compiled ns requests)) := by
  refine ⟨nodup_slots ns requests, fun site hsite => ?_⟩
  obtain ⟨x, hx, hsite⟩ := List.mem_flatMap.1 hsite
  obtain ⟨scope, e, n, n', ht, _⟩ := mem_compiled hx
  exact (Typing.made_term ns scope e ht site hsite).slot_isSome

theorem calls_of_mem {xs : List (Expression ω η)} {x : Expression ω η} (h : Slotted (callsOf xs))
    (hx : x ∈ xs) : Slotted x.term.calls :=
  h.sublist (List.sublist_flatten_of_mem (List.mem_map_of_mem hx))

end Slotted

theorem allocatedFrom_append (ns : Namespace ω η) (requests more : List Request) (n : Nat) :
    allocatedFrom ns (requests ++ more) n =
      allocatedFrom ns more (allocatedFrom ns requests n) := by
  induction requests generalizing n with
  | nil => rfl
  | cons request rest ih => exact ih _

/-- Slots are only ever handed out, also by requests that are refused. -/
theorem allocated_le_append (ns : Namespace ω η) (requests more : List Request) :
    allocated ns requests ≤ allocated ns (requests ++ more) := by
  rw [allocated, allocated, allocatedFrom_append]
  exact (fresh_allocatedFrom ns more _).le

/-- Whatever a compiler is asked for, and whichever requests it refuses half-way: exactly the calls
that remember their results have slots, no two of them the same, all among those handed out so far. -/
theorem slots_never_shared (ns : Namespace ω η) (requests more : List Request) :
    ((callsOf (compiled ns requests)).filterMap CallSite.slot).Nodup ∧
      (∀ site ∈ callsOf (compiled ns requests),
        (site.slot.isSome = true ↔ site.member.caching = .perEvent) ∧
          ∀ k, site.slot = some k → k < allocated ns requests) ∧
      allocated ns requests ≤ allocated ns (requests ++ more) := by
  have hslotted := Slotted.callsOf_compiled ns requests
  have hfresh := fresh_allocatedFrom ns requests 0
  refine ⟨hslotted.nodup, fun site hsite => ⟨hslotted.caching site hsite, fun k hk => ?_⟩,
    allocated_le_append ns requests more⟩
  exact (hfresh.bounds k (List.mem_filterMap.2 ⟨site, hsite, hk⟩)).2

/-- A clock that is read once for an event. -/
def clock : Namespace Nat Unit :=
  .register .empty { Member.function "Clock" "now" [] .int fun _ _ => return .int 0 with
    caching := .perEvent }

/-- Reads the clock on both sides of an operator. -/
def twoReadings (op : Operator) : Request :=
  .tree none .bool (.operation op (.call .reference (some "Clock") "now" none 0)
    (.call .reference (some "Clock") "now" none 14) 11)

/-- A reading is no truth value, so the second request is refused. -/
def readings : List Request := [twoReadings .equals, twoReadings .and, twoReadings .less]

/-- The slot that the refused request has taken is not handed out again. -/
theorem readings_slots_differ :
    (callsOf (compiled clock readings)).filterMap CallSite.slot = [0, 1, 3, 4] ∧
      [0, 1, 3, 4].Nodup ∧ allocated clock readings = 5 ∧
      allocated clock readings ≤ allocated clock (readings ++ readings) := by
  have hslots : (callsOf (compiled clock readings)).filterMap CallSite.slot = [0, 1, 3, 4] := by
    decide +kernel
  obtain ⟨hnodup, -, hgrows⟩ := slots_never_shared clock readings readings
  exact ⟨hslots, hslots ▸ hnodup, by decide +kernel, hgrows⟩

end ChatFlow.Expr
