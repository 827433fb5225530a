import ChatFlow.Proofs.Expr.Memory
import Mathlib.Data.List.Induction
import Mathlib.Data.Set.Card

/-! The memories of a session are a table of last writes: whatever has been done to them, a slot serves
what was last written to it since they were cleared, for the event that it was written under. -/
namespace ChatFlow.Expr.Memos

/-- Something done to the memories of a session. -/
inductive Access where
  | write (slot : Nat) (caching : Caching) (v : Value) (capture : Capture)
  | lookup (slot : Nat) (caching : Caching) (current : Option Capture)
  | clear

/-- What it leaves of the memories. -/
def access (memos : Memos) : Access → Memos
  | .write slot caching v capture => memos.write slot caching v capture
  | .lookup .. => memos
  | .clear => memos.clear

/-- The memories of a session after some accesses, the earliest first. -/
def after (history : List Access) : Memos := history.foldl access .empty

/-- Whether an access writes to a slot what may be served again. -/
def Access.Updates (slot : Nat) (a : Access) : Prop :=
  ∃ v capture, a = .write slot .perEvent v capture

/-- What was last written to a slot, with nothing cleared since. -/
def LastWrite (history : List Access) (slot : Nat) (capture : Capture) (v : Value) : Prop :=
  ∃ before since, history = before ++ .write slot .perEvent v capture :: since ∧
    ∀ a ∈ since, a ≠ .clear ∧ ¬ a.Updates slot

variable {memos : Memos} {history : List Access} {a : Access} {slot k : Nat}
  {caching : Caching} {capture : Capture} {current : Option Capture} {v : Value}

theorem not_lastWrite_nil : ¬ LastWrite [] slot capture v := by
  rintro ⟨before, since, h, -⟩
  simp at h

/-- The access made last is itself the last write to a slot, or it neither clears nor updates the slot
and the last write is an earlier one. -/
theorem lastWrite_concat :
    LastWrite (history ++ [a]) slot capture v ↔
      a = .write slot .perEvent v capture ∨
        (a ≠ .clear ∧ ¬ a.Updates slot) ∧ LastWrite history slot capture v := by
  constructor
  · rintro ⟨before, since, h, hsince⟩
    rcases List.eq_nil_or_concat since with rfl | ⟨since, b, rfl⟩
    · exact Or.inl (List.singleton_inj.1 (List.append_inj' h rfl).2)
    · rw [List.concat_eq_append, ← List.cons_append, ← List.append_assoc] at h
      obtain ⟨rfl, hb⟩ := List.append_inj' h rfl
      cases hb
      have hmem : a ∈ since.concat a := by simp
      exact Or.inr ⟨hsince a hmem, before, since, rfl, fun b hb => hsince b (by simp [hb])⟩
  · rintro (rfl | ⟨ha, before, since, rfl, hsince⟩)
    · exact ⟨history, [], rfl, nofun⟩
    · refine ⟨before, since ++ [a], by simp, fun b hb => ?_⟩
      rcases List.mem_append.1 hb with hb | hb
      · exact hsince b hb
      · exact List.mem_singleton.1 hb ▸ ha

theorem lastWrite_concat_write {w : Value} {written : Capture} :
    LastWrite (history ++ [.write slot .perEvent w written]) slot capture v ↔
      w = v ∧ written = capture := by
  have hupdates : (Access.write slot .perEvent w written).Updates slot := ⟨w, written, rfl⟩
  simp [lastWrite_concat, hupdates]

theorem lastWrite_concat_of_ne (hclear : a ≠ .clear) (hupdate : ¬ a.Updates slot) :
    LastWrite (history ++ [a]) slot capture v ↔ LastWrite history slot capture v := by
  have hwrite : a ≠ .write slot .perEvent v capture := fun h => hupdate ⟨v, capture, h⟩
  simp [lastWrite_concat, hclear, hupdate, hwrite]

theorem after_concat : after (history ++ [a]) = (after history).access a := by
  simp [after]

theorem uniform_after (history : List Access) : (after history).Uniform := by
  induction history using List.reverseRecOn with
  | nil => exact uniform_empty
  | append_singleton history a ih =>
    rw [after_concat]
    cases a with
    | write slot caching v capture => exact ih.write
    | lookup slot caching current => exact ih
    | clear => exact uniform_empty

/-- An access that neither clears nor updates a slot leaves what it holds. -/
theorem stored_access (h : memos.Uniform) (hclear : a ≠ .clear) (hupdate : ¬ a.Updates slot) :
    (memos.access a).stored slot = memos.stored slot := by
  cases a with
  | write k caching v capture =>
    cases caching with
    | never => rfl
    | perEvent =>
      have hne : slot ≠ k := by
        rintro rfl
        exact hupdate ⟨v, capture, rfl⟩
      exact h.stored_write.trans (if_neg hne)
  | lookup k caching current => rfl
  | clear => exact absurd rfl hclear

/-- A slot holds its last write, unless that was made without circumstances. -/
theorem stored_after (history : List Access) (slot : Nat) (capture : Capture) (v : Value) :
    (after history).stored slot = some (capture, v) ↔
      LastWrite history slot capture v ∧ capture ≠ .invalid := by
  induction history using List.reverseRecOn with
  | nil => simp [after, not_lastWrite_nil]
  | append_singleton history a ih =>
    have huniform := uniform_after history
    rw [after_concat]
    by_cases hclear : a = .clear
    · subst hclear
      simp [access, clear, lastWrite_concat]
    by_cases hupdate : a.Updates slot
    · obtain ⟨w, written, rfl⟩ := hupdate
      rw [access, huniform.stored_write, if_pos rfl, lastWrite_concat_write]
      by_cases hinvalid : written = .invalid
      · -- the write erases what the slot held
        rw [if_pos hinvalid]
        exact ⟨nofun, fun h => absurd hinvalid (h.1.2 ▸ h.2)⟩
      · rw [if_neg hinvalid, Option.some.injEq, Prod.mk.injEq, and_comm]
        exact ⟨fun h => ⟨h, h.2 ▸ hinvalid⟩, And.left⟩
    · rw [stored_access huniform hclear hupdate, lastWrite_concat_of_ne hclear hupdate]
      exact ih

/-- The size counts the slots that hold something. -/
theorem encard_stored (memos : Memos) :
    {slot | ∃ p, memos.stored slot = some p}.encard = memos.size := by
  let held := memos.slots.entries.filter fun e => !e.2.isEmpty
  have hnodup : (held.map Prod.fst).Nodup :=
    memos.slots.nodup.sublist (List.filter_sublist.map _)
  have hslots : {slot | ∃ p, memos.stored slot = some p} =
      ((held.map Prod.fst).toFinset : Set Nat) := by
    ext slot
    simp only [Set.mem_ofPred_eq, List.coe_toFinset, stored, Option.bind_eq_some_iff,
      Table.get?_eq_some, List.mem_map, held, List.mem_filter]
    constructor
    · rintro ⟨p, memo, hmem, hp⟩
      exact ⟨(slot, memo), ⟨hmem, by simp [Memo.isEmpty, hp]⟩, rfl⟩
    · rintro ⟨⟨_, memo⟩, ⟨hmem, hsome⟩, rfl⟩
      obtain ⟨p, hp⟩ := Option.isSome_iff_exists.1 (by simpa [Memo.isEmpty] using hsome)
      exact ⟨p, memo, hmem, hp⟩
  rw [hslots, Set.encard_coe_eq_coe_finsetCard, List.toFinset_card_of_nodup hnodup, List.length_map]
  simp [size, Table.values, List.filter_map, held, Function.comp_def]

/-- Whatever has been done to the memories of a new session, a look-up finds exactly what was last
written to its slot since they were cleared, if that was written for the current event; and their
size is the number of slots whose last write was made under any circumstances. -/
theorem memories_are_last_writes (history : List Access) (slot : Nat) (caching : Caching)
    (current : Option Capture) (v : Value) :
    ((after history).lookup slot caching current = some v ↔
      caching = .perEvent ∧
        ∃ id, LastWrite history slot (.event id) v ∧ current = some (.event id)) ∧
      {slot | ∃ capture v, LastWrite history slot capture v ∧ capture ≠ .invalid}.encard =
        (after history).size := by
  constructor
  · rw [(uniform_after history).lookup_iff]
    simp [stored_after]
  · rw [← encard_stored]
    congr 1
    ext slot
    simp [← stored_after]

/-- Two writes to one slot, one that is erased at once, and one without an event. -/
def errands : List Access :=
  [.write 0 .perEvent (.int 1) (.event 7), .write 1 .perEvent (.int 2) .invalid,
    .lookup 0 .perEvent (some (.event 7)), .write 0 .perEvent (.int 3) (.event 8),
    .write 2 .perEvent (.int 4) (.node 5)]

/-- Only the last of the errands for an event can be looked up; the one without an event is counted. -/
theorem errands_last_writes :
    (after errands).lookup 0 .perEvent (some (.event 8)) = some (.int 3) ∧
      LastWrite errands 0 (.event 8) (.int 3) ∧
      (after errands).lookup 0 .perEvent (some (.event 7)) = none ∧
      {slot | ∃ capture v, LastWrite errands slot capture v ∧ capture ≠ .invalid}.encard = 2 := by
  have hfound : (after errands).lookup 0 .perEvent (some (.event 8)) = some (.int 3) := rfl
  obtain ⟨hlookup, hsize⟩ :=
    memories_are_last_writes errands 0 .perEvent (some (.event 8)) (.int 3)
  obtain ⟨-, id, hlast, hid⟩ := hlookup.1 hfound
  cases hid
  exact ⟨hfound, hlast, rfl, hsize⟩

end ChatFlow.Expr.Memos
