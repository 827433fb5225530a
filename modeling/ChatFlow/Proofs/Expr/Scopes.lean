import ChatFlow.Proofs.Expr.Typing

/-! Members that run against a handler are only called where this handler is in scope. -/
namespace ChatFlow.Expr
variable {ω η : Type} {ns : Namespace ω η} {m : Member ω η} {scope owner : Option String}
  {name : String} {arity : Nat} {form : CallForm}

/-- Whether a call may be made in a scope: a member that runs against a handler is the owner's in
scope. -/
def CallSite.InScope (scope : Option String) (call : CallSite ω η) : Prop :=
  call.member.ofInstance = true → scope = some call.member.owner

/-- Whether all calls of an expression may be made in a scope. -/
def Expression.ScopedTo (scope : Option String) (e : Expression ω η) : Prop :=
  ∀ call ∈ e.term.calls, call.InScope scope

namespace Namespace

theorem scope_of_visible (h : visible scope owner m = true) (hm : m.ofInstance = true) :
    scope = some m.owner := by
  unfold visible at h
  cases owner with
  | some owner => simp [hm] at h
  | none => simpa [hm] using h

theorem visible_of_resolve (h : ns.resolve scope owner name arity form = .ok m) :
    visible scope owner m = true := by
  have hvisible := (List.mem_filter.1 (mem_candidates_of_resolve h)).2
  simp only [Bool.and_eq_true] at hvisible
  exact hvisible.1.1.2

end Namespace

/-- A compilation in a scope makes calls that may be made there. -/
theorem CallSite.Made.inScope {site : CallSite ω η} (h : site.Made ns scope) : site.InScope scope := by
  obtain ⟨owner, name, arity, form, hm⟩ := h.resolved
  exact Namespace.scope_of_visible (Namespace.visible_of_resolve hm)

namespace Typing
variable {n n' : Nat}

/-- Whatever is compiled in a scope calls nothing that needs another handler. -/
theorem scoped_compileText {expected : Kind} {text : String} {e : Expression ω η}
    (h : compileText ns scope expected text n = (.ok e, n')) : e.ScopedTo scope := by
  rw [compileText] at h
  cases hp : parseText text with
  | error e =>
    rw [hp] at h
    cases h
  | ok tree =>
    rw [hp] at h
    obtain ⟨e₁, n₁, hcompile, h⟩ := bind_ends_ok h
    obtain ⟨t, ht, _, rfl⟩ := compile_ok hcompile
    cases h
    exact fun call hcall => (made_term ns scope tree ht call hcall).inScope

end Typing
end ChatFlow.Expr
