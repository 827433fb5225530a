import ChatFlow.Form.Read
import ChatFlow.Proofs.Results
import Mathlib.Data.List.TakeWhile

/-! What the atoms of a document are: all that is known of a form because it has been read. -/
namespace ChatFlow.Form
variable {start pos finish finish' : Nat} {c : Char} {cs rest : List Char} {f g : Form} {fs : List Form}
  {kind : LexemeKind} {n n' : Nesting} {l : Lexeme} {P : Form → Prop}

mutual

/-- The forms in a form that are no lists, from left to right. -/
def atoms : Form → List Form
  | symbol name => [symbol name]
  | keyword name => [keyword name]
  | string text => [string text]
  | int number => [int number]
  | float number => [float number]
  | bool flag => [bool flag]
  | list items => atomsOfAll items
termination_by structural f => f

def atomsOfAll : List Form → List Form
  | [] => []
  | f :: fs => atoms f ++ atomsOfAll fs
termination_by structural fs => fs

end

theorem atomsOfAll_eq_flatMap : ∀ fs : List Form, atomsOfAll fs = fs.flatMap atoms
  | [] => rfl
  | f :: fs => by rw [atomsOfAll, atomsOfAll_eq_flatMap, List.flatMap_cons]

/-- Whether a form is one of some forms, or inside of one. -/
inductive Within (f : Form) : List Form → Prop where
  | here {fs : List Form} (h : f ∈ fs) : Within f fs
  | inside {items fs : List Form} (hitems : list items ∈ fs) (h : Within f items) : Within f fs

theorem Within.forall_atoms (h : f.Within fs) (hfs : ∀ g ∈ fs, ∀ a ∈ g.atoms, P a) :
    ∀ a ∈ f.atoms, P a := by
  induction h with
  | here h => exact hfs _ h
  | @inside items fs hitems _ ih =>
    have hlist := hfs _ hitems
    rw [atoms, atomsOfAll_eq_flatMap] at hlist
    exact ih fun g hg a ha => hlist a (List.mem_flatMap.2 ⟨g, hg, ha⟩)

/-- Whether characters are read as one word with a meaning, where no symbol character follows. -/
structure IsWordOf (cs : List Char) (f : Form) : Prop where
  ne_nil : cs ≠ []
  isSymbolChar : ∀ c ∈ cs, Lexeme.isSymbolChar c = true
  not_keyword : ∀ c ∈ cs.head?, c ≠ ':'
  word_eq : ∀ finish, Lexeme.word finish cs = .ok f

/-- Whether the name of an atom can be written down. -/
def Nameable : Form → Prop
  | symbol name => IsWordOf name.toList (symbol name)
  | keyword name => name.toList ≠ [] ∧ ∀ c ∈ name.toList, Lexeme.isSymbolChar c = true
  | _ => True

namespace Lexeme

theorem isSymbolChar_iff : isSymbolChar c = true ↔
    Text.isBlank c = false ∧ c ≠ ';' ∧ c ≠ '(' ∧ c ≠ ')' ∧ c ≠ '"' := by
  simp only [isSymbolChar, Bool.not_eq_true', Bool.or_eq_false_iff, beq_eq_false_iff_ne]
  grind

/-- Where a word ends is of no importance for what it means. -/
theorem number?_congr (finish finish' : Nat) (cs : List Char) :
    (number? finish cs).map Except.toOption = (number? finish' cs).map Except.toOption := by
  unfold number?
  dsimp only
  generalize (if (cs.head? == some '-' || cs.head? == some '+') = true then _ else cs) = unsigned
  split
  · rfl
  · split
    · split <;> rfl
    · split <;> rfl
    · rfl

theorem word_congr (h : word finish cs = .ok f) (finish' : Nat) : word finish' cs = .ok f := by
  have hsame := number?_congr finish finish' cs
  unfold word at h ⊢
  cases hn : number? finish cs with
  | none =>
    rw [hn, Option.map_none, eq_comm, Option.map_eq_none_iff] at hsame
    rw [hn] at h
    rwa [hsame]
  | some r =>
    rw [hn] at h
    change r = _ at h
    subst h
    rw [hn] at hsame
    cases hn' : number? finish' cs with
    | none => rw [hn'] at hsame; cases hsame
    | some r' =>
      rw [hn'] at hsame
      cases r' <;> cases hsame
      rfl

theorem word_cases (h : word finish cs = .ok f) :
    (∃ n, f = .int n) ∨ (∃ x, f = .float x) ∨ (∃ b, f = .bool b) ∨ f = .symbol (String.ofList cs) := by
  unfold word at h
  split at h
  · next r hr =>
    subst h
    unfold number? at hr
    dsimp only at hr
    generalize (if (cs.head? == some '-' || cs.head? == some '+') = true then _ else cs) = unsigned at hr
    split at hr
    · cases hr
    · split at hr
      · split at hr <;> cases hr
        exact Or.inl ⟨_, rfl⟩
      · split at hr <;> cases hr
        exact Or.inr (Or.inl ⟨_, rfl⟩)
      · cases hr
  · split at h <;> cases h
    · exact Or.inr (Or.inr (Or.inl ⟨_, rfl⟩))
    · exact Or.inr (Or.inr (Or.inl ⟨_, rfl⟩))
    · exact Or.inr (Or.inr (Or.inr rfl))

/-- An atom that has been read can be written down under its name. -/
theorem nameable_of_scanOne (hblank : Text.isBlank c = false) (hcomment : c ≠ ';')
    (h : (scanOne start c cs).kind = .atom f) : ∀ a ∈ f.atoms, a.Nameable := by
  have hspan : ∀ d ∈ cs.takeWhile isSymbolChar, isSymbolChar d = true :=
    fun d => List.mem_takeWhile_imp
  unfold scanOne at h
  split at h
  · cases h
  · cases h
  · unfold scanString at h
    split at h <;> cases h
    simp [atoms, Nameable]
  · dsimp only at h
    split at h
    · cases h
    · next hne =>
      cases h
      simp only [atoms, List.mem_singleton, forall_eq, Nameable, String.toList_ofList]
      exact ⟨hne, hspan⟩
  · next hopening hclosing hquote hcolon =>
    dsimp only at h
    cases hw : word (start + Text.byteLength (c :: cs.takeWhile isSymbolChar))
        (c :: cs.takeWhile isSymbolChar) with
    | error e =>
      rw [hw] at h
      cases h
    | ok g =>
      rw [hw] at h
      cases h
      rcases word_cases hw with ⟨n, rfl⟩ | ⟨x, rfl⟩ | ⟨b, rfl⟩ | rfl
      · simp [atoms, Nameable]
      · simp [atoms, Nameable]
      · simp [atoms, Nameable]
      · simp only [atoms, List.mem_singleton, forall_eq, Nameable, String.toList_ofList]
        refine ⟨List.cons_ne_nil _ _, List.forall_mem_cons.2 ⟨?_, hspan⟩, ?_, word_congr hw⟩
        · exact isSymbolChar_iff.2 ⟨hblank, hcomment, hopening, hclosing, hquote⟩
        · rintro d ⟨⟩
          exact hcolon

theorem nameable_of_scan (hl : l ∈ scan pos cs) (h : l.kind = .atom f) :
    ∀ a ∈ f.atoms, a.Nameable := by
  fun_induction scan pos cs with
  | case1 => cases hl
  | case2 pos c cs hc ih => exact ih hl
  | case3 pos cs _ ih => exact ih hl
  | case4 pos c cs hc hcomment s ih =>
    rcases List.mem_cons.1 hl with rfl | hl
    · exact nameable_of_scanOne (by simpa using hc) hcomment h
    · exact ih hl

end Lexeme

/-- Whether all atoms that have been read so far have a property. -/
structure Nesting.Holds (P : Form → Prop) (n : Nesting) : Prop where
  finished : ∀ f ∈ n.finished, ∀ a ∈ f.atoms, P a
  items : ∀ o ∈ n.lists, ∀ f ∈ o.items, ∀ a ∈ f.atoms, P a

namespace Nesting

theorem Holds.place (h : n.Holds P) (hf : ∀ a ∈ f.atoms, P a) : (n.place f).Holds P := by
  obtain ⟨finished, _ | ⟨o, lists⟩⟩ := n
  · exact ⟨List.forall_mem_cons.2 ⟨hf, h.finished⟩, h.items⟩
  · obtain ⟨ho, hlists⟩ := List.forall_mem_cons.1 h.items
    exact ⟨h.finished, List.forall_mem_cons.2 ⟨List.forall_mem_cons.2 ⟨hf, ho⟩, hlists⟩⟩

theorem Holds.step (h : n.Holds P) (hl : ∀ f, l.kind = .atom f → ∀ a ∈ f.atoms, P a)
    (hstep : n.step l = .ok n') : n'.Holds P := by
  unfold Nesting.step at hstep
  split at hstep
  · next f hf =>
    cases hstep
    exact h.place (hl f hf)
  · cases hstep
    exact ⟨h.finished, List.forall_mem_cons.2 ⟨nofun, h.items⟩⟩
  · split at hstep
    · cases hstep
    · next o lists hlists =>
      cases hstep
      obtain ⟨ho, hrest⟩ := List.forall_mem_cons.1 (hlists ▸ h.items)
      refine Holds.place ⟨h.finished, hrest⟩ ?_
      rw [atoms, atomsOfAll_eq_flatMap]
      intro a ha
      obtain ⟨f, hf, ha⟩ := List.mem_flatMap.1 ha
      exact ho f (List.mem_reverse.1 hf) a ha
  · cases hstep

theorem Holds.steps {ls : List Lexeme} (h : n.Holds P)
    (hls : ∀ l ∈ ls, ∀ f, l.kind = .atom f → ∀ a ∈ f.atoms, P a)
    (hsteps : ls.foldlM Nesting.step n = .ok n') : n'.Holds P := by
  induction ls generalizing n with
  | nil =>
    cases hsteps
    exact h
  | cons l ls ih =>
    rw [List.foldlM_cons] at hsteps
    obtain ⟨n₁, hstep, hsteps⟩ := bind_eq_ok.1 hsteps
    obtain ⟨hl, hls⟩ := List.forall_mem_cons.1 hls
    exact ih (h.step hl hstep) hls hsteps

end Nesting

theorem nameable_of_readAll {text : String} (h : readAll text = .ok fs) :
    ∀ f ∈ fs, ∀ a ∈ f.atoms, a.Nameable := by
  obtain ⟨n, hsteps, hfinish⟩ := bind_eq_ok.1 h
  have hempty : Nesting.empty.Holds Nameable := by
    constructor <;> rintro _ ⟨⟩
  have hn := hempty.steps (fun l hl f hf => Lexeme.nameable_of_scan hl hf) hsteps
  unfold Nesting.finish at hfinish
  split at hfinish
  · cases hfinish
    exact fun f hf => hn.finished f (List.mem_reverse.1 hf)
  · cases hfinish

end ChatFlow.Form
