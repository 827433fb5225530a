/-! Taking apart the result of a computation that may fail, alone or over a state. -/
namespace ChatFlow
variable {ε ε' σ α β γ : Type}

theorem bind_eq_ok {x : Except ε α} {f : α → Except ε β} {b : β} :
    (x >>= f) = .ok b ↔ ∃ a, x = .ok a ∧ f a = .ok b := by
  cases x <;> simp [bind, Except.bind]

theorem pure_eq_ok {a b : α} : (pure a : Except ε α) = .ok b ↔ a = b := by
  simp [pure, Except.pure]

theorem map_eq_ok {f : α → β} {x : Except ε α} {b : β} :
    f <$> x = .ok b ↔ ∃ a, x = .ok a ∧ f a = b := by
  cases x <;> simp [Functor.map, Except.map]

theorem map_eq_error {f : α → β} {x : Except ε α} {e : ε} :
    f <$> x = .error e ↔ x = .error e := by
  cases x <;> simp [Functor.map, Except.map]

theorem mapError_eq_ok {f : ε → ε'} {x : Except ε α} {a : α} :
    x.mapError f = .ok a ↔ x = .ok a := by
  cases x with
  | error e => exact ⟨nofun, nofun⟩
  | ok b =>
    constructor <;>
    · intro h
      cases h
      rfl

theorem eq_ok_of_isOk [Inhabited α] {x : Except ε α} (h : x.isOk = true) :
    x = .ok (x.toOption.getD default) := by
  cases x with
  | error e => cases h
  | ok a => rfl

theorem ok_of_any {x : Except ε α} {p : α → Bool} (h : x.toOption.any p = true) :
    ∃ a, x = .ok a ∧ p a = true := by
  cases x with
  | error e => cases h
  | ok a => exact ⟨a, rfl, h⟩

theorem eq_error_of_isOk {x : Except ε α} (h : x.isOk = false) : ∃ e, x = .error e := by
  cases x with
  | error e => exact ⟨e, rfl⟩
  | ok a => cases h

/-- What holds at the start of a fold and is kept by every step holds in the end. -/
theorem foldlM_ok {P : β → Prop} {f : β → α → Except ε β} {l : List α} {b b' : β} (hb : P b)
    (hf : ∀ b a b', P b → f b a = .ok b' → P b') (h : l.foldlM f b = .ok b') : P b' := by
  induction l generalizing b with
  | nil =>
    rw [List.foldlM_nil] at h
    exact pure_eq_ok.1 h ▸ hb
  | cons a rest ih =>
    rw [List.foldlM_cons] at h
    obtain ⟨b₁, hb₁, h⟩ := bind_eq_ok.1 h
    exact ih (hf b a b₁ hb hb₁) h

/-- A fold that succeeds has taken a step with each input. -/
theorem forall_mem_foldlM {R : α → Prop} {f : β → α → Except ε β} {l : List α} {b b' : β}
    (hf : ∀ b a b', f b a = .ok b' → R a) (h : l.foldlM f b = .ok b') : ∀ a ∈ l, R a := by
  induction l generalizing b with
  | nil => exact fun _ ha => nomatch ha
  | cons a rest ih =>
    rw [List.foldlM_cons] at h
    obtain ⟨b₁, hb₁, h⟩ := bind_eq_ok.1 h
    exact List.forall_mem_cons.2 ⟨hf b a b₁ hb₁, ih h⟩

theorem exists_of_mem_mapM {f : α → Except ε β} {l : List α} {bs : List β} (h : l.mapM f = .ok bs) :
    ∀ b ∈ bs, ∃ a ∈ l, f a = .ok b := by
  induction l generalizing bs with
  | nil =>
    rw [List.mapM_nil] at h
    cases pure_eq_ok.1 h
    exact fun _ hb => nomatch hb
  | cons a rest ih =>
    rw [List.mapM_cons] at h
    obtain ⟨b, hb, h⟩ := bind_eq_ok.1 h
    obtain ⟨bs, hbs, h⟩ := bind_eq_ok.1 h
    cases pure_eq_ok.1 h
    intro b' hb'
    rcases List.mem_cons.1 hb' with rfl | hb'
    · exact ⟨a, List.mem_cons_self, hb⟩
    · obtain ⟨a', ha', hfa⟩ := ih hbs b' hb'
      exact ⟨a', List.mem_cons_of_mem _ ha', hfa⟩

theorem mapM_cons_ok {f : α → Except ε β} {a : α} {l : List α} {bs : List β} :
    (a :: l).mapM f = .ok bs ↔ ∃ b rest, f a = .ok b ∧ l.mapM f = .ok rest ∧ bs = b :: rest := by
  rw [List.mapM_cons, bind_eq_ok]
  constructor
  · rintro ⟨b, hb, h⟩
    obtain ⟨rest, hrest, h⟩ := bind_eq_ok.1 h
    exact ⟨b, rest, hb, hrest, (pure_eq_ok.1 h).symm⟩
  · rintro ⟨b, rest, hb, hrest, rfl⟩
    exact ⟨b, hb, bind_eq_ok.2 ⟨rest, hrest, rfl⟩⟩

theorem forall_mem_mapM {R : α → Prop} {f : α → Except ε β} (hf : ∀ a b, f a = .ok b → R a)
    {l : List α} {bs : List β} (h : l.mapM f = .ok bs) : ∀ a ∈ l, R a := by
  induction l generalizing bs with
  | nil => exact fun _ ha => nomatch ha
  | cons a l ih =>
    obtain ⟨b, rest, hb, hrest, rfl⟩ := mapM_cons_ok.1 h
    exact List.forall_mem_cons.2 ⟨hf a b hb, ih hrest⟩

theorem mapM_ok_imp {f : α → Except ε β} {f' : α → Except ε γ} {r : β → γ}
    (hf : ∀ a b, f a = .ok b → f' a = .ok (r b)) {l : List α} {bs : List β} (h : l.mapM f = .ok bs) :
    l.mapM f' = .ok (bs.map r) := by
  induction l generalizing bs with
  | nil =>
    cases pure_eq_ok.1 h
    rfl
  | cons a l ih =>
    obtain ⟨b, rest, hb, hrest, rfl⟩ := mapM_cons_ok.1 h
    exact mapM_cons_ok.2 ⟨r b, rest.map r, hf a b hb, ih hrest, rfl⟩

theorem option_mapM_ok {f : α → Except ε β} {o : Option α} {r : Option β} :
    o.mapM f = .ok r ↔ (o = none ∧ r = none) ∨ ∃ a b, o = some a ∧ f a = .ok b ∧ r = some b := by
  cases o with
  | none =>
    rw [Option.mapM_none, pure_eq_ok]
    simp [eq_comm (a := r)]
  | some a =>
    rw [Option.mapM_some, map_eq_ok]
    simp [eq_comm (a := r)]

theorem option_mapM_ok_imp {f : α → Except ε β} {f' : α → Except ε γ} {r : β → γ}
    (hf : ∀ a b, f a = .ok b → f' a = .ok (r b)) {o : Option α} {o' : Option β}
    (h : o.mapM f = .ok o') : o.mapM f' = .ok (o'.map r) := by
  refine option_mapM_ok.2 ?_
  rcases option_mapM_ok.1 h with ⟨rfl, rfl⟩ | ⟨a, b, rfl, hb, rfl⟩
  · exact Or.inl ⟨rfl, rfl⟩
  · exact Or.inr ⟨a, r b, rfl, hf a b hb, rfl⟩

/-- The results do not depend on the order, and neither does whether there are any. -/
theorem mapM_perm {f : α → Except ε β} {l l' : List α} (h : l.Perm l') {bs : List β}
    (hbs : l.mapM f = .ok bs) : ∃ bs', l'.mapM f = .ok bs' ∧ bs.Perm bs' := by
  induction h generalizing bs with
  | nil => exact ⟨bs, hbs, .refl _⟩
  | cons a _ ih =>
    obtain ⟨b, rest, hb, hrest, rfl⟩ := mapM_cons_ok.1 hbs
    obtain ⟨rest', hrest', hperm⟩ := ih hrest
    exact ⟨b :: rest', mapM_cons_ok.2 ⟨b, rest', hb, hrest', rfl⟩, hperm.cons b⟩
  | swap a a' l =>
    obtain ⟨b', rest', hb', hrest', rfl⟩ := mapM_cons_ok.1 hbs
    obtain ⟨b, rest, hb, hrest, rfl⟩ := mapM_cons_ok.1 hrest'
    refine ⟨b :: b' :: rest, mapM_cons_ok.2 ⟨b, _, hb, ?_, rfl⟩, .swap ..⟩
    exact mapM_cons_ok.2 ⟨b', rest, hb', hrest, rfl⟩
  | trans _ _ ih ih' =>
    obtain ⟨bs₁, hbs₁, hperm⟩ := ih hbs
    obtain ⟨bs₂, hbs₂, hperm'⟩ := ih' hbs₁
    exact ⟨bs₂, hbs₂, hperm.trans hperm'⟩

section State
variable {m : ExceptT ε (StateM σ) α} {f : α → ExceptT ε (StateM σ) β} {s s' : σ}

theorem bind_of_ok {a : α} (h : m s = (.ok a, s')) : (m >>= f) s = f a s' := by
  change ExceptT.bindCont f (m s).1 (m s).2 = _
  rw [h]
  rfl

theorem bind_of_error {e : ε} (h : m s = (.error e, s')) : (m >>= f) s = (.error e, s') := by
  change ExceptT.bindCont f (m s).1 (m s).2 = _
  rw [h]
  rfl

/-- Two computations in a row fail in the first, or the second goes on where the first has ended. -/
theorem bind_ends {r : Except ε β} (h : (m >>= f) s = (r, s')) :
    (∃ a s₁, m s = (.ok a, s₁) ∧ f a s₁ = (r, s')) ∨ ∃ e, m s = (.error e, s') ∧ r = .error e := by
  rcases hm : m s with ⟨e | a, s₁⟩
  · rw [bind_of_error hm] at h
    cases h
    exact Or.inr ⟨e, rfl, rfl⟩
  · rw [bind_of_ok hm] at h
    exact Or.inl ⟨a, s₁, rfl, h⟩

theorem bind_ends_ok {b : β} (h : (m >>= f) s = (.ok b, s')) :
    ∃ a s₁, m s = (.ok a, s₁) ∧ f a s₁ = (.ok b, s') := by
  rcases bind_ends h with h | ⟨e, _, he⟩
  · exact h
  · cases he

theorem tryCatch_of_ok {k : ε → ExceptT ε (StateM σ) α} {a : α} (h : m s = (.ok a, s')) :
    tryCatch m k s = (.ok a, s') := by
  simp only [tryCatch, tryCatchThe, MonadExceptOf.tryCatch, ExceptT.tryCatch, ExceptT.mk, bind, StateT.bind]
  rw [h]
  rfl

theorem tryCatch_of_error {k : ε → ExceptT ε (StateM σ) α} {e : ε} (h : m s = (.error e, s')) :
    tryCatch m k s = k e s' := by
  simp only [tryCatch, tryCatchThe, MonadExceptOf.tryCatch, ExceptT.tryCatch, ExceptT.mk, bind, StateT.bind]
  rw [h]

end State
end ChatFlow
