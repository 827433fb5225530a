import ChatFlow.Proofs.Results
import ChatFlow.Session.Handle

/-! Taking a run apart into its steps, and what every run of a session goes through. -/
namespace ChatFlow
open Flow Expr
variable {ω η α β : Type}

namespace Run
variable {m : Run ω η α} {f : α → Run ω η β} {k : FlowError → Run ω η α} {l l' : Live ω η}
  {R : Live ω η → Live ω η → Prop}

/-- A run of two steps fails in the first, or goes on where the first has ended. -/
theorem bind_eq {r : Except FlowError β} (h : (m >>= f) l = (r, l')) :
    (∃ a l₁, m l = (.ok a, l₁) ∧ f a l₁ = (r, l')) ∨ ∃ e, m l = (.error e, l') ∧ r = .error e :=
  bind_ends h

theorem bind_eq_ok {b : β} (h : (m >>= f) l = (.ok b, l')) :
    ∃ a l₁, m l = (.ok a, l₁) ∧ f a l₁ = (.ok b, l') :=
  bind_ends_ok h

theorem modify_eq (f : Live ω η → Live ω η) (l : Live ω η) :
    (modify f : Run ω η Unit) l = (.ok (), f l) :=
  rfl

/-- A caught failure goes on where it happened. -/
theorem tryCatch_eq {r : Except FlowError α} (h : tryCatch m k l = (r, l')) :
    (∃ a, m l = (.ok a, l') ∧ r = .ok a) ∨ ∃ e l₁, m l = (.error e, l₁) ∧ k e l₁ = (r, l') := by
  rcases hm : m l with ⟨e | a, l₁⟩
  · rw [tryCatch_of_error hm] at h
    exact Or.inr ⟨e, l₁, rfl, h⟩
  · rw [tryCatch_of_ok hm] at h
    cases h
    exact Or.inl ⟨a, rfl, rfl⟩

/-- However a run ends, it relates the state before to that after. -/
def Within (R : Live ω η → Live ω η → Prop) (m : Run ω η α) : Prop :=
  ∀ l r l', m l = (r, l') → R l l'

theorem within_pure (hR : ∀ l, R l l) (a : α) : Within R (pure a : Run ω η α) := by
  intro l r l' h
  cases h
  exact hR l

theorem within_throw (hR : ∀ l, R l l) (e : FlowError) : Within R (throw e : Run ω η α) := by
  intro l r l' h
  cases h
  exact hR l

theorem within_bind (hR : ∀ {l₁ l₂ l₃}, R l₁ l₂ → R l₂ l₃ → R l₁ l₃) (hm : Within R m)
    (hf : ∀ a, Within R (f a)) : Within R (m >>= f) := by
  intro l r l' h
  rcases bind_eq h with ⟨a, l₁, h₁, h₂⟩ | ⟨e, h₁, _⟩
  · exact hR (hm l _ l₁ h₁) (hf a l₁ r l' h₂)
  · exact hm l _ l' h₁

theorem within_tryCatch (hR : ∀ {l₁ l₂ l₃}, R l₁ l₂ → R l₂ l₃ → R l₁ l₃) (hm : Within R m)
    (hk : ∀ e, Within R (k e)) : Within R (tryCatch m k) := by
  intro l r l' h
  rcases tryCatch_eq h with ⟨a, h₁, _⟩ | ⟨e, l₁, h₁, h₂⟩
  · exact hm l _ l' h₁
  · exact hR (hm l _ l₁ h₁) (hk e l₁ r l' h₂)

theorem within_modify {f : Live ω η → Live ω η} (h : ∀ l, R l (f l)) :
    Within R (modify f : Run ω η Unit) := by
  intro l r l' h'
  cases h'
  exact h l

theorem within_modifySession {f : Session η → Session η}
    (h : ∀ l : Live ω η, R l { l with session := f l.session }) :
    Within R (modifySession f : Run ω η Unit) :=
  within_modify h

theorem within_session (hR : ∀ l, R l l) : Within R (session : Run ω η (Session η)) := by
  intro l r l' h
  cases h
  exact hR l

theorem within_firstSelected {select : NodeId → Run ω η Bool} {ids : List NodeId} (hrefl : ∀ l, R l l)
    (htrans : ∀ {l₁ l₂ l₃}, R l₁ l₂ → R l₂ l₃ → R l₁ l₃) (hs : ∀ id ∈ ids, Within R (select id)) :
    Within R (firstSelected select ids) := by
  induction ids with
  | nil => exact within_pure hrefl none
  | cons id rest ih =>
    unfold firstSelected
    refine within_bind htrans (hs id List.mem_cons_self) ?_
    intro go
    split
    · exact within_pure hrefl (some id)
    · exact ih fun id' h => hs id' (List.mem_cons_of_mem _ h)

end Run

/-- What can happen to a session. An event meets the world as it is by then. -/
inductive Input (ω : Type) where
  | event (event : Event) (world : ω)
  | role (role : Option String)
  | reset

namespace Session

theorem handle_eq (sc : Scenario ω η) (event : Event) (s : Session η) (world : ω) :
    handle sc event s world =
      let l := Run.handle sc event (.start s world)
      (l.1, l.2.session, l.2.world) := by
  unfold handle
  rcases hr : Run.handle sc event (.start s world) with ⟨r, l⟩
  rw [show ExceptT.run (Run.handle sc event) (.start s world) = (r, l) from hr]

def step (sc : Scenario ω η) (s : Session η) : Input ω → Session η
  | .event event world => (handle sc event s world).2.1
  | .role role => s.setRole role
  | .reset => s.reset

def run (sc : Scenario ω η) (s : Session η) (inputs : List (Input ω)) : Session η :=
  inputs.foldl (step sc) s

theorem run_append (sc : Scenario ω η) (s : Session η) (past : List (Input ω)) (input : Input ω) :
    run sc s (past ++ [input]) = step sc (run sc s past) input := by
  rw [run, List.foldl_append]
  rfl

/-- What holds of a session and is kept by whatever can happen to it holds throughout. -/
theorem run_induction {sc : Scenario ω η} {P : Session η → Prop} {s : Session η} (hs : P s)
    (hstep : ∀ s input, P s → P (step sc s input)) (inputs : List (Input ω)) :
    P (run sc s inputs) := by
  induction inputs generalizing s with
  | nil => exact hs
  | cons input rest ih => exact ih (hstep s input hs)

end Session
end ChatFlow
