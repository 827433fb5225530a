import ChatFlow.Document.Content
import ChatFlow.Proofs.Results

/-! What reading yields when it succeeds, built up along the steps of a reader. -/
namespace ChatFlow.Document
variable {α β : Type} {P : α → Prop} {Q : β → Prop} {m : Reading α}

/-- Every value that a reader yields has a property. -/
def Yields (m : Reading α) (P : α → Prop) : Prop := ∀ n a n', m.run n = .ok (a, n') → P a

theorem yields_trivial (m : Reading α) : Yields m fun _ => True := fun _ _ _ _ => trivial

theorem yields_pure {a : α} (h : P a) : Yields (pure a) P := by
  intro n a' n' hr
  cases hr
  exact h

theorem yields_lift {x : Except LoadError α} (h : ∀ a, x = .ok a → P a) :
    Yields (liftM x) P := by
  intro n a n' hr
  obtain ⟨b, hb, hr⟩ := bind_eq_ok.1 (show (x >>= fun b => pure (b, n)) = _ from hr)
  cases pure_eq_ok.1 hr
  exact h a hb

theorem yields_bind {f : α → Reading β} (hm : Yields m P) (hf : ∀ a, P a → Yields (f a) Q) :
    Yields (m >>= f) Q := by
  intro n b n' hr
  rw [StateT.run_bind] at hr
  obtain ⟨⟨a, n₁⟩, ha, hr⟩ := bind_eq_ok.1 hr
  exact hf a (hm n a n₁ ha) n₁ b n' hr

/-- A check that may refuse adds nothing to what is yielded. -/
theorem yields_check {c : Prop} [Decidable c] {x : Except LoadError Unit} {k : Unit → Reading α}
    (h : Yields (k ()) P) : Yields (if c then liftM x >>= k else k ()) P := by
  split
  · exact yields_bind (yields_trivial _) fun _ _ => h
  · exact h

/-- Past a check that refuses, what it has checked does not hold. -/
theorem yields_unless {c : Prop} [Decidable c] {x : Except LoadError Unit} {k : Unit → Reading α}
    (hx : ∀ u, x ≠ .ok u) (h : ¬ c → Yields (k ()) P) :
    Yields (if c then liftM x >>= k else k ()) P := by
  split
  · exact yields_bind (P := fun _ => False) (yields_lift fun u hu => hx u hu) fun _ h => h.elim
  · exact h ‹_›

theorem yields_mapM {f : α → Reading β} {l : List α} (h : ∀ a ∈ l, Yields (f a) Q) :
    Yields (l.mapM f) fun bs => ∀ b ∈ bs, Q b := by
  induction l with
  | nil =>
    rw [List.mapM_nil]
    exact yields_pure (by simp)
  | cons a rest ih =>
    rw [List.mapM_cons]
    refine yields_bind (h a List.mem_cons_self) ?_
    intro b hb
    refine yields_bind (ih fun a' ha' => h a' (List.mem_cons_of_mem _ ha')) ?_
    intro bs hbs
    refine yields_pure ?_
    intro b' hb'
    rcases List.mem_cons.1 hb' with rfl | hb'
    · exact hb
    · exact hbs b' hb'

/-! What reading one input says of the input holds of all inputs that are read in a row. -/

theorem yields_each_mapM {f : α → Reading β} {l : List α} {R : α → Prop}
    (h : ∀ a ∈ l, Yields (f a) fun _ => R a) : Yields (l.mapM f) fun _ => ∀ a ∈ l, R a := by
  induction l with
  | nil => exact fun _ _ _ _ a ha => nomatch ha
  | cons a rest ih =>
    rw [List.mapM_cons]
    refine yields_bind (h a List.mem_cons_self) fun b ha => ?_
    refine yields_bind (ih fun a' ha' => h a' (List.mem_cons_of_mem _ ha')) fun bs hrest => ?_
    exact yields_pure (List.forall_mem_cons.2 ⟨ha, hrest⟩)

theorem yields_each_foldlM {f : β → α → Reading β} {l : List α} {b : β} {R : α → Prop}
    (h : ∀ b, ∀ a ∈ l, Yields (f b a) fun _ => R a) : Yields (l.foldlM f b) fun _ => ∀ a ∈ l, R a := by
  induction l generalizing b with
  | nil => exact fun _ _ _ _ a ha => nomatch ha
  | cons a rest ih =>
    rw [List.foldlM_cons]
    refine yields_bind (h b a List.mem_cons_self) fun b' ha => ?_
    intro n b₁ n' hr
    exact List.forall_mem_cons.2 ⟨ha, ih (fun b a ha => h b a (List.mem_cons_of_mem _ ha)) n b₁ n' hr⟩

/-- What holds at the start of a fold and is kept by every step holds in the end. -/
theorem yields_foldlM {f : β → α → Reading β} {l : List α} {b : β} (hb : Q b)
    (hf : ∀ b a, a ∈ l → Q b → Yields (f b a) Q) : Yields (l.foldlM f b) Q := by
  induction l generalizing b with
  | nil =>
    rw [List.foldlM_nil]
    exact yields_pure hb
  | cons a rest ih =>
    rw [List.foldlM_cons]
    exact yields_bind (hf b a List.mem_cons_self hb) fun b' hb' =>
      ih hb' fun b a ha => hf b a (List.mem_cons_of_mem _ ha)

end ChatFlow.Document
