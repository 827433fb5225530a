/-!
Finite maps that remember the order in which their keys first came. The keys are distinct, so a
table's size counts its keys.
-/
namespace ChatFlow

/-- A finite map as its pairs, keys in the order of their first insertion. -/
structure Table (κ : Type) (α : Type) [DecidableEq κ] where
  entries : List (κ × α)
  nodup : (entries.map Prod.fst).Nodup

namespace Table
variable {κ α β : Type} [DecidableEq κ]

def empty : Table κ α := ⟨[], by simp⟩

instance : EmptyCollection (Table κ α) := ⟨empty⟩
instance : Inhabited (Table κ α) := ⟨empty⟩

def keys (t : Table κ α) : List κ := t.entries.map Prod.fst

def values (t : Table κ α) : List α := t.entries.map Prod.snd

def size (t : Table κ α) : Nat := t.entries.length

def isEmpty (t : Table κ α) : Bool := t.entries.isEmpty

/-- The value at a key of a list of pairs. -/
def find? (k : κ) : List (κ × α) → Option α
  | [] => none
  | (k', a) :: rest => if k' = k then some a else find? k rest

/-- Value of a key, if it has one. -/
def get? (t : Table κ α) (k : κ) : Option α := find? k t.entries

def contains (t : Table κ α) (k : κ) : Bool := (t.get? k).isSome

/-- Puts a value at the place of its key, or at the end. -/
def put (k : κ) (a : α) : List (κ × α) → List (κ × α)
  | [] => [(k, a)]
  | (k', a') :: rest => if k' = k then (k, a) :: rest else (k', a') :: put k a rest

theorem mem_keys_put {k x : κ} {a : α} {l : List (κ × α)} :
    x ∈ (put k a l).map Prod.fst ↔ x = k ∨ x ∈ l.map Prod.fst := by
  induction l with
  | nil => simp [put]
  | cons p rest ih =>
    by_cases h : p.1 = k
    · simp [put, h]
    · simp [put, h, ih, or_left_comm]

theorem nodup_put {k : κ} {a : α} {l : List (κ × α)} (h : (l.map Prod.fst).Nodup) :
    ((put k a l).map Prod.fst).Nodup := by
  induction l with
  | nil => simp [put]
  | cons p rest ih =>
    obtain ⟨hp, hrest⟩ := List.nodup_cons.1 h
    by_cases hk : p.1 = k
    · subst hk
      simpa [put] using h
    · simp only [put, if_neg hk, List.map_cons, List.nodup_cons]
      refine ⟨fun hmem => ?_, ih hrest⟩
      rcases mem_keys_put.1 hmem with hx | hx
      · exact hk hx
      · exact hp hx

/-- Binds a key, replacing the value that it had. -/
def insert (t : Table κ α) (k : κ) (a : α) : Table κ α :=
  ⟨put k a t.entries, nodup_put t.nodup⟩

/-- Forgets a key. -/
def erase (t : Table κ α) (k : κ) : Table κ α :=
  ⟨t.entries.filter (·.1 ≠ k), t.nodup.sublist (List.filter_sublist.map _)⟩

/-- Keeps the keys that satisfy a test. -/
def restrict (t : Table κ α) (p : κ → Bool) : Table κ α :=
  ⟨t.entries.filter fun e => p e.1, t.nodup.sublist (List.filter_sublist.map _)⟩

/-- Applies a function to the value of a key, if it has one. -/
def modify (t : Table κ α) (k : κ) (f : α → α) : Table κ α where
  entries := t.entries.map fun e => if e.1 = k then (e.1, f e.2) else e
  nodup := by
    have h : (fun e : κ × α => (if e.1 = k then (e.1, f e.2) else e).1) = Prod.fst := by
      funext e; split <;> rfl
    simpa [Function.comp_def, h] using t.nodup

/-- Binds each key of a list of pairs in turn. -/
def insertAll (t : Table κ α) (l : List (κ × α)) : Table κ α :=
  l.foldl (fun t e => t.insert e.1 e.2) t

def ofList (l : List (κ × α)) : Table κ α := insertAll ∅ l

theorem find?_put {k x : κ} {a : α} {l : List (κ × α)} :
    find? x (put k a l) = if x = k then some a else find? x l := by
  induction l with
  | nil => simp [put, find?, eq_comm]
  | cons p rest ih =>
    by_cases hk : p.1 = k
    · by_cases hx : x = k
      · simp [put, find?, hk, hx]
      · simp [put, find?, hk, hx, Ne.symm hx]
    · by_cases hx : p.1 = x
      · subst hx
        simp [put, find?, hk]
      · simp [put, find?, hk, hx, ih]

theorem find?_filter {p : κ → Bool} {x : κ} {l : List (κ × α)} :
    find? x (l.filter fun e => p e.1) = if p x then find? x l else none := by
  induction l with
  | nil => simp [find?]
  | cons e rest ih =>
    by_cases hx : e.1 = x
    · subst hx
      cases hp : p e.1 <;> simp [hp, find?, ih]
    · cases hp : p e.1 <;> simp [hp, find?, hx, ih]

theorem find?_map {f : κ → α → α} {x : κ} {l : List (κ × α)} :
    find? x (l.map fun e => (e.1, f e.1 e.2)) = (find? x l).map (f x) := by
  induction l with
  | nil => simp [find?]
  | cons e rest ih =>
    by_cases hx : e.1 = x
    · subst hx
      simp [find?]
    · simp [find?, hx, ih]

theorem find?_eq_some {k : κ} {a : α} {l : List (κ × α)} (h : (l.map Prod.fst).Nodup) :
    find? k l = some a ↔ (k, a) ∈ l := by
  induction l with
  | nil => simp [find?]
  | cons e rest ih =>
    obtain ⟨he, hrest⟩ := List.nodup_cons.1 h
    by_cases hk : e.1 = k
    · subst hk
      have hnot : (e.1, a) ∉ rest := fun hmem => he (List.mem_map.2 ⟨_, hmem, rfl⟩)
      simp [find?, hnot, Prod.ext_iff, eq_comm]
    · simp [find?, hk, ih hrest, Prod.ext_iff, Ne.symm hk]

@[simp] theorem get?_empty {k : κ} : (∅ : Table κ α).get? k = none := rfl

theorem get?_eq_some {t : Table κ α} {k : κ} {a : α} : t.get? k = some a ↔ (k, a) ∈ t.entries :=
  find?_eq_some t.nodup

theorem get?_insert {t : Table κ α} {k x : κ} {a : α} :
    (t.insert k a).get? x = if x = k then some a else t.get? x := find?_put

theorem get?_restrict {t : Table κ α} {p : κ → Bool} {x : κ} :
    (t.restrict p).get? x = if p x then t.get? x else none := find?_filter

theorem get?_erase {t : Table κ α} {k x : κ} :
    (t.erase k).get? x = if x = k then none else t.get? x := by
  have h := find?_filter (p := fun y => decide (y ≠ k)) (x := x) (l := t.entries)
  by_cases hx : x = k <;> simpa [get?, erase, hx] using h

theorem get?_modify {t : Table κ α} {k x : κ} {f : α → α} :
    (t.modify k f).get? x = if x = k then (t.get? x).map f else t.get? x := by
  have he : (fun e : κ × α => if e.1 = k then (e.1, f e.2) else e) =
      fun e => (e.1, (if e.1 = k then f else id) e.2) := by
    funext e; split <;> simp
  have h := find?_map (f := fun y => if y = k then f else id) (x := x) (l := t.entries)
  simp only [get?, modify, he, h]
  by_cases hx : x = k <;> simp [hx]

/-- The last binding of a key wins over the earlier ones. -/
theorem get?_insertAll {t : Table κ α} {l : List (κ × α)} {x : κ} :
    (t.insertAll l).get? x =
      ((l.filter fun e => e.1 = x).getLast?.map Prod.snd <|> t.get? x) := by
  induction l generalizing t with
  | nil => simp [insertAll]
  | cons e rest ih =>
    have hcons : t.insertAll (e :: rest) = (t.insert e.1 e.2).insertAll rest := rfl
    rw [hcons, ih, get?_insert]
    by_cases hx : e.1 = x
    · simp only [hx, List.filter_cons, decide_true, if_true, List.getLast?_cons]
      cases (rest.filter fun e => decide (e.1 = x)).getLast? <;> simp
    · simp [hx, Ne.symm hx]

end Table
end ChatFlow
