import ChatFlow.Expr.Typing
import ChatFlow.Proofs.Results

/-! Taking a compilation apart: what each part of it goes through, and in which order. -/
namespace ChatFlow.Expr
variable {ω η α β : Type} {ns : Namespace ω η} {scope : Option String} {expected : Kind}
  {piped : Option Kind} {n n₁ n₂ n' position : Nat}

namespace Typing
variable {t : Term ω η}

/-- A part of a compilation that only looks whether something is allowed. It neither hands out slots
nor asks how many there are. -/
def Checks (m : Typing α) : Prop := ∃ r, ∀ n, m n = (r, n)

theorem Checks.pure (a : α) : Checks (pure a : Typing α) := ⟨.ok a, fun _ => rfl⟩

theorem Checks.fail (reason : ParseReason) (position : Nat) :
    Checks (fail reason position : Typing α) := ⟨.error ⟨reason, position⟩, fun _ => rfl⟩

theorem Checks.bind_ok {m : Typing α} {f : α → Typing β} {b : β} (hm : Checks m)
    (h : (m >>= f) n = (.ok b, n')) : ∃ a, m n = (.ok a, n) ∧ f a n = (.ok b, n') := by
  obtain ⟨r, hr⟩ := hm
  obtain ⟨a, n₁, ha, hf⟩ := bind_ends_ok h
  have hn : n₁ = n := congrArg Prod.snd (ha.symm.trans (hr n))
  rw [hn] at ha hf
  exact ⟨a, ha, hf⟩

theorem checks_check {found : Kind} : Checks (check expected found position) := by
  unfold check
  split
  · exact .pure ()
  · exact .fail _ _

theorem check_ok {found : Kind} (h : check expected found position n = (.ok (), n')) :
    expected.accepts found = true := by
  unfold check at h
  split at h
  · assumption
  · cases h

theorem checks_resolve {owner : Option String} {name : String} {arity : Nat} {form : CallForm} :
    Checks (resolve ns scope owner name arity form piped position) := by
  unfold resolve
  split
  · exact .fail _ _
  · split
    · exact .pure _
    · dsimp only
      generalize (if form = .generator then _ else _) = wanted
      split
      · exact .pure _
      · exact .fail _ _

/-- A call of a member that remembers its results takes the next slot, any other call none. -/
theorem finishCall_eq (m : Member ω η) (args : List (Term ω η)) (piped : Option Kind)
    (position n : Nat) :
    finishCall m args piped position n = match m.caching with
      | .perEvent => (.ok (.call m args piped.isSome (some n) position), n + 1)
      | .never => (.ok (.call m args piped.isSome none position), n) := by
  unfold finishCall
  cases m.caching <;> rfl

/-- No parentheses are the same as no arguments. -/
theorem term_call (form : CallForm) (owner : Option String) (name : String)
    (args : Option (List Ast)) (position : Nat) :
    term ns scope expected piped (.call form owner name args position) = (do
      let m ← resolve ns scope owner name (args.getD []).length form piped position
      let ts ← arguments ns scope m.qualifiedName (pipedArity form piped)
        (m.params.drop (pipedArity form piped)) (args.getD [])
      finishCall m ts piped position) := by
  cases args <;> rfl

/-- Only a call may stand on the right of a chain. -/
def checkTarget (op : Operator) (right : Ast) : Typing Unit :=
  match op, right with
  | .chain, .call .. => pure ()
  | .chain, right => fail .illegalChainTarget right.position
  | _, _ => pure ()

/-- The sides of a logical operator are booleans. -/
def checkLogical (op : Operator) (found : Kind) (position : Nat) : Typing Unit :=
  match op with
  | .and | .or => check .bool found position
  | _ => pure ()

/-- The sides of a comparison have an order, as far as their kinds tell. -/
def checkOrdered (op : Operator) (left right : Kind) (position : Nat) : Typing Unit :=
  match op with
  | .greater | .greaterOrEqual | .less | .lessOrEqual =>
    if comparable left right then pure () else fail (.typeMismatch left right) position
  | _ => pure ()

/-- Kind that the left side of an operator is compiled for. -/
def leftKind : Operator → Kind
  | .sequence => .unit
  | .and | .or => .bool
  | _ => .any

/-- Kind that the right side of an operator is compiled for, in a place of the expected kind. -/
def rightKind (expected : Kind) : Operator → Kind
  | .chain | .sequence => expected
  | .and | .or => .bool
  | _ => .any

/-- Kind of an operation: a chain and a sequence have the value of their right side, all other
operations a truth value. -/
def resultKind (right : Kind) : Operator → Kind
  | .chain | .sequence => right
  | _ => .bool

/-- The operators differ in what they check and in the kinds that they ask for; the order of steps
is the same for all of them. -/
theorem term_operation (op : Operator) (left right : Ast) (position : Nat) :
    term ns scope expected piped (.operation op left right position) = (do
      checkTarget op right
      let l ← term ns scope (leftKind op) none left
      checkLogical op l.kind left.position
      let r ← term ns scope (rightKind expected op) (if op = .chain then some l.kind else none) right
      checkLogical op r.kind right.position
      checkOrdered op l.kind r.kind position
      return .operation op l r (resultKind r.kind op)) := by
  cases op with
  | chain => cases right <;> rfl
  | greater | greaterOrEqual | less | lessOrEqual =>
    refine congrArg (term ns scope .any none left >>= ·) (funext fun l => ?_)
    refine congrArg (term ns scope .any none right >>= ·) (funext fun r => ?_)
    cases hc : comparable l.kind r.kind <;> simp only [checkOrdered, hc] <;> rfl
  | _ => rfl

theorem checks_target {op : Operator} {right : Ast} : Checks (checkTarget op right) := by
  unfold checkTarget
  split
  · exact .pure ()
  · exact .fail _ _
  · exact .pure ()

theorem checks_logical {op : Operator} {found : Kind} :
    Checks (checkLogical op found position) := by
  unfold checkLogical
  split
  · exact checks_check
  · exact checks_check
  · exact .pure ()

theorem checks_ordered {op : Operator} {left right : Kind} :
    Checks (checkOrdered op left right position) := by
  unfold checkOrdered
  split
  case h_5 => exact .pure ()
  all_goals
    split
    · exact .pure ()
    · exact .fail _ _

/-! What a part of a successful compilation has gone through. -/

theorem arguments_cons_ok {reference : String} {index : Nat} {params : List Kind} {e : Ast}
    {es : List Ast} {ts : List (Term ω η)}
    (h : arguments ns scope reference index params (e :: es) n = (.ok ts, n')) :
    ∃ t n₁ rest, term ns scope (params.headD .any) none e n = (.ok t, n₁) ∧
      (params.headD .any).accepts t.kind = true ∧
      arguments ns scope reference (index + 1) params.tail es n₁ = (.ok rest, n') ∧
      ts = t :: rest := by
  rw [arguments] at h
  obtain ⟨t, n₁, ht, h⟩ := bind_ends_ok h
  split at h
  · rename_i hacc
    obtain ⟨rest, n₂, hrest, h⟩ := bind_ends_ok h
    cases h
    exact ⟨t, n₁, rest, ht, hacc, hrest, rfl⟩
  · cases h

theorem branches_cons_ok {kind kind' : Option Kind} {guard body : Ast} {bs : List (Ast × Ast)}
    {bs' : List (Term ω η × Term ω η)}
    (h : branches ns scope expected kind ((guard, body) :: bs) n = (.ok (kind', bs'), n')) :
    ∃ g n₁ b n₂ rest, term ns scope .bool none guard n = (.ok g, n₁) ∧
      Kind.bool.accepts g.kind = true ∧
      term ns scope expected none body n₁ = (.ok b, n₂) ∧ expected.accepts b.kind = true ∧
      branches ns scope expected (some (join kind b.kind)) bs n₂ = (.ok (kind', rest), n') ∧
      bs' = (g, b) :: rest := by
  rw [branches] at h
  obtain ⟨g, n₁, hg, h⟩ := bind_ends_ok h
  obtain ⟨⟨⟩, hgk, h⟩ := checks_check.bind_ok h
  obtain ⟨b, n₂, hb, h⟩ := bind_ends_ok h
  obtain ⟨⟨⟩, hbk, h⟩ := checks_check.bind_ok h
  obtain ⟨⟨kind₁, rest⟩, n₃, hrest, h⟩ := bind_ends_ok h
  cases h
  exact ⟨g, n₁, b, n₂, rest, hg, check_ok hgk, hb, check_ok hbk, hrest, rfl⟩

theorem term_call_ok {form : CallForm} {owner : Option String} {name : String}
    {args : Option (List Ast)}
    (h : term ns scope expected piped (.call form owner name args position) n = (.ok t, n')) :
    ∃ m ts n₁,
      resolve ns scope owner name (args.getD []).length form piped position n = (.ok m, n) ∧
      arguments ns scope m.qualifiedName (pipedArity form piped)
        (m.params.drop (pipedArity form piped)) (args.getD []) n = (.ok ts, n₁) ∧
      finishCall m ts piped position n₁ = (.ok t, n') := by
  rw [term_call] at h
  obtain ⟨m, hm, h⟩ := checks_resolve.bind_ok h
  obtain ⟨ts, n₁, hts, h⟩ := bind_ends_ok h
  exact ⟨m, ts, n₁, hm, hts, h⟩

theorem term_conditional_none_ok {bs : List (Ast × Ast)}
    (h : term ns scope expected piped (.conditional bs none position) n = (.ok t, n')) :
    ∃ kind bs', branches ns scope expected none bs n = (.ok (kind, bs'), n') ∧
      t = .conditional bs' none (kind.getD .any) (expected == .unit) := by
  rw [term] at h
  obtain ⟨⟨kind, bs'⟩, n₁, hbs, h⟩ := bind_ends_ok h
  cases h
  exact ⟨kind, bs', hbs, rfl⟩

theorem term_conditional_some_ok {bs : List (Ast × Ast)} {other : Ast}
    (h : term ns scope expected piped (.conditional bs (some other) position) n = (.ok t, n')) :
    ∃ kind bs' n₁ last, branches ns scope expected none bs n = (.ok (kind, bs'), n₁) ∧
      term ns scope expected none other n₁ = (.ok last, n') ∧
      expected.accepts last.kind = true ∧
      t = .conditional bs' (some last) (join kind last.kind) (expected == .unit) := by
  rw [term] at h
  obtain ⟨⟨kind, bs'⟩, n₁, hbs, h⟩ := bind_ends_ok h
  obtain ⟨last, n₂, hlast, h⟩ := bind_ends_ok h
  obtain ⟨⟨⟩, hkind, h⟩ := checks_check.bind_ok h
  cases h
  exact ⟨kind, bs', n₁, last, hbs, hlast, check_ok hkind, rfl⟩

theorem term_operation_ok {op : Operator} {left right : Ast}
    (h : term ns scope expected piped (.operation op left right position) n = (.ok t, n')) :
    ∃ l n₁ r, term ns scope (leftKind op) none left n = (.ok l, n₁) ∧
      term ns scope (rightKind expected op) (if op = .chain then some l.kind else none) right n₁ =
        (.ok r, n') ∧
      (op = .and ∨ op = .or → Kind.bool.accepts l.kind = true ∧ Kind.bool.accepts r.kind = true) ∧
      t = .operation op l r (resultKind r.kind op) := by
  rw [term_operation] at h
  obtain ⟨_, _, h⟩ := checks_target.bind_ok h
  obtain ⟨l, n₁, hl, h⟩ := bind_ends_ok h
  obtain ⟨_, hleft, h⟩ := checks_logical.bind_ok h
  obtain ⟨r, n₂, hr, h⟩ := bind_ends_ok h
  obtain ⟨_, hright, h⟩ := checks_logical.bind_ok h
  obtain ⟨_, _, h⟩ := checks_ordered.bind_ok h
  cases h
  refine ⟨l, n₁, r, hl, hr, ?_, rfl⟩
  rintro (rfl | rfl) <;> exact ⟨check_ok hleft, check_ok hright⟩

theorem compile_ok {e : Ast} {x : Expression ω η}
    (h : compile ns scope expected e n = (.ok x, n')) :
    ∃ t, term ns scope expected none e n = (.ok t, n') ∧ expected.accepts t.kind = true ∧
      x = ⟨t, expected, none⟩ := by
  obtain ⟨t, n₁, ht, h⟩ := bind_ends_ok h
  obtain ⟨⟨⟩, hk, h⟩ := checks_check.bind_ok h
  cases h
  exact ⟨t, ht, check_ok hk, rfl⟩

end Typing

namespace Namespace
variable {owner : Option String} {name : String} {arity : Nat} {form : CallForm} {m : Member ω η}

theorem mem_candidates_of_resolve (h : ns.resolve scope owner name arity form = .ok m) :
    m ∈ ns.candidates scope owner name arity form := by
  unfold resolve at h
  split at h
  · rename_i m' hone
    cases h
    rw [hone]
    exact List.mem_singleton.2 rfl
  · cases h
  · cases h

theorem form_of_resolve (h : ns.resolve scope owner name arity form = .ok m) : m.form = form := by
  have hcandidate := (List.mem_filter.1 (mem_candidates_of_resolve h)).2
  simp only [Bool.and_eq_true] at hcandidate
  exact eq_of_beq hcandidate.2

end Namespace

/-! What stands at the calls of a successful compilation. -/

namespace Typing

theorem resolve_ok {owner : Option String} {name : String} {arity : Nat} {form : CallForm}
    {m : Member ω η} (h : resolve ns scope owner name arity form piped position n = (.ok m, n')) :
    ns.resolve scope owner name (arity + pipedArity form piped) form = .ok m ∧
      ∀ found, piped = some found →
        (if form = .generator then m.input else m.params.headD .any).accepts found = true := by
  unfold resolve at h
  cases hm : ns.resolve scope owner name (arity + pipedArity form piped) form with
  | error reason =>
    rw [hm] at h
    cases h
  | ok m' =>
    rw [hm] at h
    cases piped with
    | none =>
      cases h
      exact ⟨rfl, nofun⟩
    | some found =>
      dsimp only at h
      generalize hw : (if form = .generator then m'.input else m'.params.headD .any) = wanted at h
      split at h
      · rename_i hacc
        cases h
        refine ⟨rfl, ?_⟩
        rintro _ ⟨⟩
        rw [hw, hacc]
      · cases h

variable {t : Term ω η} {Q : Nat → Nat → List (CallSite ω η) → Prop}

theorem finishCall_ok {m : Member ω η} {args : List (Term ω η)}
    (h : finishCall m args piped position n = (.ok t, n')) :
    ∃ slot, t = .call m args piped.isSome slot position := by
  rw [finishCall_eq] at h
  cases hc : m.caching <;> rw [hc] at h <;> cases h <;> exact ⟨_, rfl⟩

/-- What holds of all calls that a compilation in a scope makes between two numbers of slots, since it
holds of no calls, of those of two compilations in a row, and of a call with those of its arguments. -/
structure Gathers (ns : Namespace ω η) (scope : Option String)
    (Q : Nat → Nat → List (CallSite ω η) → Prop) : Prop where
  nil : ∀ n, Q n n []
  append : ∀ {n n₁ n' : Nat} {calls calls' : List (CallSite ω η)},
    Q n n₁ calls → Q n₁ n' calls' → Q n n' (calls ++ calls')
  finish : ∀ {owner : Option String} {name : String} {arity : Nat} {form : CallForm} {m : Member ω η}
    {piped : Option Kind} {position n n₁ n' : Nat} {args : List (Term ω η)} {t : Term ω η},
    ns.resolve scope owner name arity form = .ok m → Q n n₁ (Term.callsOfAll args) →
    finishCall m args piped position n₁ = (.ok t, n') → Q n n' t.calls

mutual

theorem Gathers.term (hq : Gathers ns scope Q) :
    ∀ (e : Ast) {expected : Kind} {piped : Option Kind} {n n' : Nat} {t : Term ω η},
      Typing.term ns scope expected piped e n = (.ok t, n') → Q n n' t.calls
  | .literal v _, _, _, _, _, _, h => by
    cases h
    exact hq.nil _
  | .call form owner name none position, _, _, _, _, _, h => by
    obtain ⟨m, ts, n₁, hm, hts, hcall⟩ := term_call_ok h
    cases hts
    exact hq.finish (resolve_ok hm).1 (hq.nil _) hcall
  | .call form owner name (some args) position, _, _, _, _, _, h => by
    obtain ⟨m, ts, n₁, hm, hts, hcall⟩ := term_call_ok h
    exact hq.finish (resolve_ok hm).1 (hq.arguments args hts) hcall
  | .conditional bs none _, _, _, _, _, _, h => by
    obtain ⟨kind, bs', hbs, rfl⟩ := term_conditional_none_ok h
    exact hq.branches bs hbs
  | .conditional bs (some other) _, _, _, _, _, _, h => by
    obtain ⟨kind, bs', n₁, last, hbs, hlast, _, rfl⟩ := term_conditional_some_ok h
    exact hq.append (hq.branches bs hbs) (hq.term other hlast)
  | .operation op left right _, _, _, _, _, _, h => by
    obtain ⟨l, n₁, r, hl, hr, _, rfl⟩ := term_operation_ok h
    exact hq.append (hq.term left hl) (hq.term right hr)
termination_by structural e => e

theorem Gathers.arguments (hq : Gathers ns scope Q) :
    ∀ (es : List Ast) {reference : String} {index : Nat} {params : List Kind} {n n' : Nat}
      {ts : List (Term ω η)}, Typing.arguments ns scope reference index params es n = (.ok ts, n') →
      Q n n' (Term.callsOfAll ts)
  | [], _, _, _, _, _, _, h => by
    cases h
    exact hq.nil _
  | e :: es, _, _, _, _, _, _, h => by
    obtain ⟨t, n₁, rest, ht, _, hrest, rfl⟩ := arguments_cons_ok h
    exact hq.append (hq.term e ht) (hq.arguments es hrest)
termination_by structural es => es

theorem Gathers.branches (hq : Gathers ns scope Q) :
    ∀ (bs : List (Ast × Ast)) {expected : Kind} {kind kind' : Option Kind} {n n' : Nat}
      {bs' : List (Term ω η × Term ω η)},
      Typing.branches ns scope expected kind bs n = (.ok (kind', bs'), n') →
      Q n n' (Term.callsOfBranches bs')
  | [], _, _, _, _, _, _, h => by
    cases h
    exact hq.nil _
  | (guard, body) :: bs, _, _, _, _, _, _, h => by
    obtain ⟨g, n₁, b, n₂, rest, hg, _, hb, _, hrest, rfl⟩ := branches_cons_ok h
    exact hq.append (hq.append (hq.term guard hg) (hq.term body hb)) (hq.branches bs hrest)
termination_by structural bs => bs

end
end Typing

/-- What a compilation in a scope makes of a reference: a call of the member that it denotes, with a
slot if the member remembers its results. -/
structure CallSite.Made (ns : Namespace ω η) (scope : Option String) (site : CallSite ω η) : Prop where
  resolved : ∃ owner name arity form, ns.resolve scope owner name arity form = .ok site.member
  slot_isSome : site.slot.isSome = true ↔ site.member.caching = .perEvent

namespace Typing
variable {t : Term ω η}

theorem made_finishCall {m : Member ω η} {args : List (Term ω η)} {owner : Option String}
    {name : String} {arity : Nat} {form : CallForm}
    (hm : ns.resolve scope owner name arity form = .ok m)
    (hargs : ∀ site ∈ Term.callsOfAll args, site.Made ns scope)
    (h : finishCall m args piped position n = (.ok t, n')) : ∀ site ∈ t.calls, site.Made ns scope := by
  rw [finishCall_eq] at h
  cases hc : m.caching <;> rw [hc] at h <;> cases h
  · exact List.forall_mem_cons.2 ⟨⟨⟨owner, name, arity, form, hm⟩, by simp [hc]⟩, hargs⟩
  · exact List.forall_mem_cons.2 ⟨⟨⟨owner, name, arity, form, hm⟩, by simp [hc]⟩, hargs⟩

theorem gathers_made (ns : Namespace ω η) (scope : Option String) :
    Gathers ns scope fun _ _ calls => ∀ site ∈ calls, site.Made ns scope where
  nil := fun _ _ hsite => absurd hsite List.not_mem_nil
  append := fun hcalls hcalls' => List.forall_mem_append.2 ⟨hcalls, hcalls'⟩
  finish := fun hm hargs h => made_finishCall hm hargs h

theorem made_term (ns : Namespace ω η) (scope : Option String) (e : Ast) {expected : Kind}
    {piped : Option Kind} {n n' : Nat} {t : Term ω η}
    (h : term ns scope expected piped e n = (.ok t, n')) : ∀ site ∈ t.calls, site.Made ns scope :=
  (gathers_made ns scope).term e h

end Typing
end ChatFlow.Expr
