import ChatFlow.Proofs.Expr.Compiled
import ChatFlow.Proofs.Expr.Memory

/-! Static kinds are sound: what an expression yields fits the kind that it was given when it was
compiled, also when a call is served from memory. -/
namespace ChatFlow

/-- Whether a value may be the result of an expression of a kind. Null may be it for every kind but
the booleans, and integers need not have been widened yet. -/
def Value.Fits (v : Value) (k : Kind) : Prop :=
  k = .any ∨ (k = .unit ∧ v = .null) ∨ (v = .null ∧ k ≠ .bool) ∨ v.kind = k ∨
    (k = .float ∧ v.kind = .int)

theorem Value.fits_kind (v : Value) : v.Fits v.kind := .inr (.inr (.inr (.inl rfl)))

theorem Value.fits_bool (b : Bool) : (Value.bool b).Fits .bool := fits_kind (.bool b)

theorem Value.fits_of_convert {k : Kind} {v w : Value} (h : v.convert? k = some w) : w.Fits k := by
  unfold convert? at h
  split at h
  · cases h
    exact .inr (.inl ⟨rfl, rfl⟩)
  · exact .inl rfl
  · cases h
  · rename_i hk
    cases h
    exact .inr (.inr (.inl ⟨rfl, hk⟩))
  · cases h
    exact .inr (.inr (.inr (.inl rfl)))
  · split at h
    · rename_i hk
      cases h
      exact hk ▸ fits_kind v
    · cases h

namespace Kind
variable {a b c : Kind} {v : Value}

/-- Whether every value that fits the second kind fits the first. -/
def Covers (a b : Kind) : Prop := a = .any ∨ a = b ∨ (a = .float ∧ b = .int)

theorem Covers.refl (a : Kind) : a.Covers a := .inr (.inl rfl)

theorem Covers.trans (hab : a.Covers b) (hbc : b.Covers c) : a.Covers c := by
  rcases hab with rfl | rfl | ⟨rfl, rfl⟩
  · exact .inl rfl
  · exact hbc
  · rcases hbc with h | rfl | ⟨h, _⟩
    · cases h
    · exact .inr (.inr ⟨rfl, rfl⟩)
    · cases h

theorem covers_unify (a b : Kind) : (a.unify b).Covers a ∧ (a.unify b).Covers b := by
  unfold unify
  split
  · rename_i hab
    subst hab
    exact ⟨.refl a, .refl a⟩
  · split
    · rename_i hmixed
      rcases hmixed with ⟨rfl, rfl⟩ | ⟨rfl, rfl⟩
      · exact ⟨.inr (.inr ⟨rfl, rfl⟩), .refl _⟩
      · exact ⟨.refl _, .inr (.inr ⟨rfl, rfl⟩)⟩
    · exact ⟨.inl rfl, .inl rfl⟩

theorem Covers.fits (hab : a.Covers b) (hv : v.Fits b) : v.Fits a := by
  rcases hab with rfl | rfl | ⟨rfl, rfl⟩
  · exact .inl rfl
  · exact hv
  · rcases hv with h | ⟨h, _⟩ | ⟨rfl, _⟩ | h | ⟨h, _⟩
    · cases h
    · cases h
    · exact .inr (.inr (.inl ⟨rfl, nofun⟩))
    · exact .inr (.inr (.inr (.inr ⟨rfl, h⟩)))
    · cases h

end Kind

namespace Expr
variable {ω η : Type} {ns : Namespace ω η} {scope : Option String} {I : Memos → Prop}

/-- A term whose kind covers whatever it can yield. Nothing is asked of parts whose values go
elsewhere: arguments, guards, and the left sides of operations. -/
inductive Term.Kinded : Term ω η → Prop
  | literal (v : Value) : Kinded (.literal v)
  | call {m : Member ω η} {args piped slot position} : Kinded (.call m args piped slot position)
  | conditional {bs : List (Term ω η × Term ω η)} {otherwise : Option (Term ω η)} {kind : Kind}
      (bodies : ∀ b ∈ bs, Kinded b.2) (covers : ∀ b ∈ bs, kind.Covers b.2.kind)
      (last : ∀ t ∈ otherwise, Kinded t) (covers_last : ∀ t ∈ otherwise, kind.Covers t.kind) :
      Kinded (.conditional bs otherwise kind false)
  | operation {op : Operator} {l r : Term ω η} (right : op = .chain ∨ op = .sequence → Kinded r) :
      Kinded (.operation op l r (Typing.resultKind r.kind op))

/-- The kind of a conditional covers what its bodies yield. -/
theorem Term.Kinded.fits_of_body {bs : List (Term ω η × Term ω η)} {otherwise : Option (Term ω η)}
    {kind : Kind} {fallThrough : Bool} {v : Value}
    (h : (Term.conditional bs otherwise kind fallThrough).Kinded)
    (hv : ∃ b ∈ bs, b.2.Kinded → v.Fits b.2.kind) : v.Fits kind := by
  obtain ⟨b, hb, hfits⟩ := hv
  cases h with
  | conditional bodies covers _ _ => exact (covers b hb).fits (hfits (bodies b hb))

namespace Typing

theorem kinded_finishCall {m : Member ω η} {args : List (Term ω η)} {piped : Option Kind}
    {position n n' : Nat} {t : Term ω η} (h : finishCall m args piped position n = (.ok t, n')) :
    t.Kinded := by
  obtain ⟨slot, rfl⟩ := finishCall_ok h
  exact .call

mutual

/-- Only in a place whose result is discarded can a conditional fall through. -/
theorem kinded_term (ns : Namespace ω η) (scope : Option String) :
    ∀ (e : Ast) {expected : Kind} {piped : Option Kind} {n n' : Nat} {t : Term ω η},
      expected ≠ .unit → term ns scope expected piped e n = (.ok t, n') → t.Kinded
  | .literal v _, _, _, _, _, _, _, h => by
    cases h
    exact .literal v
  | .call form owner name args position, _, _, _, _, _, _, h => by
    obtain ⟨m, ts, n₁, _, _, hcall⟩ := term_call_ok h
    exact kinded_finishCall hcall
  | .conditional bs none _, _, _, _, _, _, hexpected, h => by
    obtain ⟨kind, bs', hbs, rfl⟩ := term_conditional_none_ok h
    have hbodies := (kinded_branches ns scope bs hexpected hbs).1
    rw [beq_false_of_ne hexpected]
    refine .conditional (fun b hb => (hbodies b hb).1) ?_ nofun nofun
    intro b hb
    obtain ⟨_, k, rfl, hk⟩ := hbodies b hb
    exact hk
  | .conditional bs (some other) _, _, _, _, _, _, hexpected, h => by
    obtain ⟨kind, bs', n₁, last, hbs, hlast, _, rfl⟩ := term_conditional_some_ok h
    have hbodies := (kinded_branches ns scope bs hexpected hbs).1
    rw [beq_false_of_ne hexpected]
    refine .conditional (fun b hb => (hbodies b hb).1) ?_ ?_ ?_
    · intro b hb
      obtain ⟨_, k, rfl, hk⟩ := hbodies b hb
      exact (Kind.covers_unify k last.kind).1.trans hk
    · rintro _ ⟨⟩
      exact kinded_term ns scope other hexpected hlast
    · rintro _ ⟨⟩
      cases kind with
      | none => exact .refl _
      | some k => exact (Kind.covers_unify k last.kind).2
  | .operation op left right _, _, _, _, _, _, hexpected, h => by
    obtain ⟨l, n₁, r, hl, hr, _, rfl⟩ := term_operation_ok h
    refine .operation fun hop => kinded_term ns scope right ?_ hr
    rcases hop with rfl | rfl <;> exact hexpected
termination_by structural e => e

theorem kinded_branches (ns : Namespace ω η) (scope : Option String) :
    ∀ (bs : List (Ast × Ast)) {expected : Kind} {kind kind' : Option Kind} {n n' : Nat}
      {bs' : List (Term ω η × Term ω η)}, expected ≠ .unit →
      branches ns scope expected kind bs n = (.ok (kind', bs'), n') →
      (∀ b ∈ bs', b.2.Kinded ∧ ∃ k, kind' = some k ∧ k.Covers b.2.kind) ∧
        ∀ k, kind = some k → ∃ k', kind' = some k' ∧ k'.Covers k
  | [], _, _, _, _, _, _, _, h => by
    cases h
    exact ⟨nofun, fun k hk => ⟨k, hk, .refl k⟩⟩
  | (guard, body) :: bs, _, kind, _, _, _, _, hexpected, h => by
    obtain ⟨g, n₁, b, n₂, rest, _, _, hb, _, hrest, rfl⟩ := branches_cons_ok h
    obtain ⟨hbodies, hkind⟩ := kinded_branches ns scope bs hexpected hrest
    obtain ⟨k', rfl, hk'⟩ := hkind _ rfl
    refine ⟨?_, ?_⟩
    · intro x hx
      rcases List.mem_cons.1 hx with rfl | hx
      · refine ⟨kinded_term ns scope body hexpected hb, k', rfl, hk'.trans ?_⟩
        cases kind with
        | none => exact .refl _
        | some k => exact (Kind.covers_unify k b.kind).2
      · exact hbodies x hx
    · rintro k rfl
      exact ⟨k', rfl, hk'.trans (Kind.covers_unify k b.kind).1⟩
termination_by structural bs => bs

end
end Typing

/-- Results in memory fit what the members at their calls return. -/
def Remembers (sites : List (CallSite ω η)) (memos : Memos) : Prop :=
  ∀ site ∈ sites, ∀ k c v, site.slot = some k → memos.stored k = some (c, v) →
    v.Fits site.member.returns

namespace Eval
variable {sites : List (CallSite ω η)} {s : Situation}

theorem ensures_run {m : Member ω η} {args : List Value} {input : Value} :
    Ensures I (run s m args input) fun v => v.Fits m.returns := by
  unfold run
  have hreturn (produced : Value) :
      Ensures I (conform m.returns produced : Eval ω η Value) fun v => v.Fits m.returns :=
    ensures_conform.imp fun _ h => Value.fits_of_convert h
  refine ensures_conformAll.bind fun args _ => ?_
  cases m.body with
  | function body => exact ensures_perform.bind fun produced _ => hreturn produced
  | generator body =>
    exact ensures_conform.bind fun input _ => ensures_perform.bind fun next _ =>
      ensures_perform.bind fun produced _ => hreturn produced

theorem ensures_remembered {site : CallSite ω η} (hsite : site ∈ sites) :
    Ensures (Remembers sites) (remembered s site.member site.slot) fun o =>
      ∀ v, o = some v → v.Fits site.member.returns := by
  intro memory r memory' hr hI
  cases hr
  refine ⟨hI, ?_⟩
  rintro _ ⟨⟩ v hv
  obtain ⟨k, e, hk, _, hstored⟩ := stored_of_recalled hv
  exact hI site hsite k _ v hk hstored

/-- A slot belongs to one call only, so that a write concerns no other member. -/
theorem ensures_remember {site : CallSite ω η} {v : Value}
    (hslots : (sites.filterMap CallSite.slot).Nodup) (hsite : site ∈ sites)
    (hv : v.Fits site.member.returns) :
    Ensures (Remembers sites) (remember s site.member site.slot v) fun _ => True := by
  intro memory r memory' hr hI
  rw [remember_eq] at hr
  cases hr
  refine ⟨?_, fun _ _ => trivial⟩
  intro site' hsite' k c w hk hstored
  rcases stored_recorded hstored with hold | ⟨hk', hp⟩
  · exact hI site' hsite' k c w hk hold
  · cases hp
    cases eq_of_nodup_filterMap hslots hsite' hsite hk hk'
    exact hv

theorem ensures_compareValues {op : Operator} {l r : Value} :
    Ensures I (compareValues op l r : Eval ω η Value) fun v => v.Fits .bool := by
  unfold compareValues
  split
  · exact .pure (Value.fits_bool _)
  · exact .pure (Value.fits_bool _)
  · split
    · exact .pure (Value.fits_bool _)
    · exact .throw

mutual

/-- An evaluation keeps the memories in order, and what it yields fits a kind that was given with
care. -/
theorem ensures_term (hslots : (sites.filterMap CallSite.slot).Nodup) (s : Situation) :
    ∀ (t : Term ω η) (piped : Option Value), t.calls ⊆ sites →
      Ensures (Remembers sites) (term s piped t) fun v => t.Kinded → v.Fits t.kind
  | .literal v, _, _ => .pure fun _ => v.fits_kind
  | .call m args p slot position, piped, hsub => by
    have hsite : CallSite.mk m p slot position ∈ sites := hsub List.mem_cons_self
    rw [term]
    refine (ensures_remembered hsite).bind fun o ho => ?_
    cases o with
    | some v => exact .pure fun _ => ho v rfl
    | none =>
      have hargs := ensures_terms hslots s args fun _ h => hsub (List.mem_cons_of_mem _ h)
      refine hargs.bind fun values _ => ensures_run.bind fun v hv => ?_
      exact (ensures_remember hslots hsite hv).bind fun _ _ => .pure fun _ => hv
  | .conditional bs none kind fallThrough, _, hsub => by
    rw [term]
    refine (ensures_branches hslots s bs hsub).bind fun o ho => ?_
    cases o with
    | some v => exact .pure fun hk => hk.fits_of_body (ho v rfl)
    | none =>
      cases fallThrough with
      | true => exact .pure nofun
      | false => exact .throw
  | .conditional bs (some last) kind _, _, hsub => by
    obtain ⟨hbs, hlast⟩ := List.append_subset.1 hsub
    rw [term]
    refine (ensures_branches hslots s bs hbs).bind fun o ho => ?_
    cases o with
    | some v => exact .pure fun hk => hk.fits_of_body (ho v rfl)
    | none =>
      refine (ensures_term hslots s last none hlast).imp fun v hv hk => ?_
      cases hk with
      | conditional _ _ hlast covers_last => exact (covers_last last rfl).fits (hv (hlast last rfl))
  | .operation op left right kind, _, hsub => by
    obtain ⟨hleft, hright⟩ := List.append_subset.1 hsub
    have hl := ensures_term hslots s left none hleft
    have hr (input : Option Value) := ensures_term hslots s right input hright
    -- Logical operators end in one of two ways, both in a truth value.
    have hbool (b : Bool) : Ensures (Remembers sites) (pure (.bool b) : Eval ω η Value)
      fun v => v.Fits .bool := .pure (Value.fits_bool b)
    have hlast : Ensures (Remembers sites)
        (do return Value.bool (← truth (← term s none right)) : Eval ω η Value)
        fun v => v.Fits .bool :=
      (hr none).bind fun _ _ => ensures_truth.bind fun b _ => hbool b
    cases op with
    | sequence =>
      refine hl.bind fun _ _ => (hr none).imp fun v hv hk => ?_
      cases hk with
      | operation right => exact hv (right (Or.inr rfl))
    | chain =>
      refine hl.bind fun input _ => (hr (some input)).imp fun v hv hk => ?_
      cases hk with
      | operation right => exact hv (right (Or.inl rfl))
    | or =>
      refine Ensures.imp (P := fun v => v.Fits .bool)
        (hl.bind fun _ _ => ensures_truth.bind fun b _ => ?_) fun v hv hk => ?_
      · cases b
        · exact hlast
        · exact hbool true
      · cases hk
        exact hv
    | and =>
      refine Ensures.imp (P := fun v => v.Fits .bool)
        (hl.bind fun _ _ => ensures_truth.bind fun b _ => ?_) fun v hv hk => ?_
      · cases b
        · exact hbool false
        · exact hlast
      · cases hk
        exact hv
    | _ =>
      refine hl.bind fun l _ => (hr none).bind fun r _ => ensures_compareValues.imp fun v hv hk => ?_
      cases hk
      exact hv
termination_by structural t => t

theorem ensures_terms (hslots : (sites.filterMap CallSite.slot).Nodup) (s : Situation) :
    ∀ (ts : List (Term ω η)), Term.callsOfAll ts ⊆ sites →
      Ensures (Remembers sites) (terms s ts) fun _ => True
  | [], _ => .pure trivial
  | t :: ts, hsub => by
    obtain ⟨ht, hts⟩ := List.append_subset.1 hsub
    rw [terms]
    exact (ensures_term hslots s t none ht).bind fun _ _ =>
      (ensures_terms hslots s ts hts).bind fun _ _ => .pure trivial
termination_by structural ts => ts

theorem ensures_branches (hslots : (sites.filterMap CallSite.slot).Nodup) (s : Situation) :
    ∀ (bs : List (Term ω η × Term ω η)), Term.callsOfBranches bs ⊆ sites →
      Ensures (Remembers sites) (branches s bs) fun o => ∀ v, o = some v →
        ∃ b ∈ bs, b.2.Kinded → v.Fits b.2.kind
  | [], _ => .pure nofun
  | (guard, body) :: bs, hsub => by
    obtain ⟨hsub, hbs⟩ := List.append_subset.1 hsub
    obtain ⟨hguard, hbody⟩ := List.append_subset.1 hsub
    rw [branches]
    refine (ensures_term hslots s guard none hguard).bind fun c _ => ensures_truth.bind fun b _ => ?_
    split
    · refine (ensures_term hslots s body none hbody).bind fun v hv => .pure ?_
      rintro _ ⟨⟩
      exact ⟨_, List.mem_cons_self, hv⟩
    · refine (ensures_branches hslots s bs hbs).imp fun o ho v hv => ?_
      obtain ⟨b, hb, hfits⟩ := ho v hv
      exact ⟨b, List.mem_cons_of_mem _ hb, hfits⟩
termination_by structural bs => bs

end
end Eval

theorem remembers_of_written {requests : List Request} {memos : Memos}
    (h : Written (compiled ns requests) memos) : Remembers (callsOf (compiled ns requests)) memos := by
  induction h with
  | empty => exact fun _ _ _ _ _ _ h => nomatch h
  | @evaluate x memory s hx _ ih =>
    have hterm := Eval.ensures_term (nodup_slots ns requests) s x.term none (calls_subset_callsOf hx)
    have hx' : Eval.Ensures (Remembers (callsOf (compiled ns requests))) (x.evaluate s) fun _ => True :=
      hterm.bind fun _ _ => Eval.ensures_conform.imp fun _ _ => trivial
    exact (hx' memory _ _ rfl ih).1

/-- Whatever was evaluated before, the value of a compiled term fits the kind that the compiler gave
to it, unless the term stands where its result is discarded. -/
theorem value_fits_kind {requests : List Request} {x : Expression ω η} {s : Situation}
    {memory memory' : Memory ω η} {v : Value} (hx : x ∈ compiled ns requests)
    (hexpected : x.expected ≠ .unit) (hmemos : Written (compiled ns requests) memory.memos)
    (hv : Eval.term s none x.term memory = (.ok v, memory')) : v.Fits x.term.kind := by
  obtain ⟨scope, e, n, n', ht, _⟩ := mem_compiled hx
  have hkinded := Typing.kinded_term ns scope e hexpected ht
  have hterm := Eval.ensures_term (nodup_slots ns requests) s x.term none (calls_subset_callsOf hx)
  exact (hterm memory _ memory' hv (remembers_of_written hmemos)).2 v rfl hkinded

/-- A member whose every run gives another number, of which one event sees only the first. -/
def ticket : Member Nat Unit :=
  { Member.function "Desk" "ticket" [] .int (fun _ _ store =>
      (.ok (.int (.ofNat store.world)), { store with world := store.world + 1 })) with
    caching := .perEvent }

def desk : Namespace Nat Unit := Namespace.empty.register ticket

def ticketOrTwo : Request :=
  .tree none .float (.conditional
    [(.literal (.bool true) 0, .call .reference (some "Desk") "ticket" none 0)]
    (some (.literal (.float (.ofInt 2)) 0)) 0)

def someTicket : Expression Nat Unit :=
  ⟨.conditional [(.literal (.bool true), .call ticket [] false (some 0) 0)]
    (some (.literal (.float (.ofInt 2)))) .float false, .float, none⟩

/-- An event is handled while ticket number five is the next one. -/
def atDesk : Situation := ⟨some ⟨7, 1, .text "next"⟩, []⟩

def freshDesk : Memory Nat Unit := ⟨⟨∅, none, 5⟩, .empty⟩

/-- The second evaluation under one event serves an integer where a float is expected. -/
theorem served_ticket_fits : compiled desk [ticketOrTwo] = [someTicket] ∧
    (Eval.term atDesk none someTicket.term (someTicket.evaluate atDesk freshDesk).2).1 =
      .ok (.int 5) ∧
    (Value.int 5).Fits someTicket.term.kind := by
  have hcompiled : compiled desk [ticketOrTwo] = [someTicket] := rfl
  have hx : someTicket ∈ compiled desk [ticketOrTwo] := hcompiled ▸ List.mem_singleton_self _
  have hwritten : Written _ (someTicket.evaluate atDesk freshDesk).2.memos := .evaluate atDesk hx .empty
  have hserved : Eval.term atDesk none someTicket.term (someTicket.evaluate atDesk freshDesk).2 =
      (.ok (.int 5), (someTicket.evaluate atDesk freshDesk).2) := rfl
  exact ⟨hcompiled, congrArg Prod.fst hserved, value_fits_kind hx nofun hwritten hserved⟩

end Expr
end ChatFlow
