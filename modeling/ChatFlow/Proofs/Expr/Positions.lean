import ChatFlow.Expr.Gather
import ChatFlow.Proofs.Expr.Bytewise
import ChatFlow.Proofs.Results

/-!
Where tokens stand. In reading order each token starts behind the one before it, and all of them as well as
the place of a fault are boundaries of characters.
-/
namespace ChatFlow.Expr
open Text
variable {text : String} {pos : Nat} {cs : List Char} {l : Lexeme} {ls : List Lexeme} {g g' : Gathered}
  {c : OpenCall} {t : Token} {e : LexError} {P : Nat → Prop}

mutual

/-- Positions of a token and of those in its list of arguments, in the order in which they are read. -/
def Token.positions : Token → List Nat
  | .mk kind position => position :: kind.positions
termination_by structural t => t

def TokenKind.positions : TokenKind → List Nat
  | .call _ _ _ (some args) => Token.allPositions args
  | .literal _ | .call _ _ _ none | .operator _ | .opening | .closing | .keyword _ => []
termination_by structural kind => kind

def Token.allPositions : List Token → List Nat
  | [] => []
  | t :: ts => t.positions ++ Token.allPositions ts
termination_by structural ts => ts

end

theorem Token.allPositions_append (ts us : List Token) :
    allPositions (ts ++ us) = allPositions ts ++ allPositions us := by
  induction ts with
  | nil => rfl
  | cons t ts ih => rw [List.cons_append, allPositions, allPositions, ih, List.append_assoc]

theorem Token.allPositions_reverse_cons (t : Token) (ts : List Token) :
    allPositions (t :: ts).reverse = allPositions ts.reverse ++ t.positions := by
  rw [List.reverse_cons, allPositions_append, allPositions, allPositions, List.append_nil]

namespace Lexeme

/-- From an offset on, each lexeme stands behind the one before it, all of them between characters. -/
theorem scan_positions (h : RestAt text pos cs) :
    ((scan pos cs).map (·.position)).Pairwise (· < ·) ∧
      ∀ l ∈ scan pos cs, pos ≤ l.position ∧ IsBoundary text l.position ∧ l.kind.Anchored text := by
  induction hlength : cs.length using Nat.strongRecOn generalizing pos cs with
  | ind n ih =>
    subst hlength
    obtain ⟨-, hscan⟩ | ⟨c, ds, hrest, hshorter, hscan⟩ := scan_cases h
    · rw [hscan]
      exact ⟨.nil, nofun⟩
    · have hpos := le_skipWhile isBlank text pos
      have hlast := scanOne_length (skipWhile isBlank text pos) c ds
      obtain ⟨-, hanchored, hnext⟩ := agrees_lexeme hrest
      rw [hscan, List.map_cons, List.pairwise_cons, List.forall_mem_cons]
      generalize scanOne (skipWhile isBlank text pos) c ds = s at hnext hlast hanchored ⊢
      obtain ⟨kind, next, rest⟩ := s
      have htail : ((scan next rest).map (·.position)).Pairwise (· < ·) ∧
          ∀ l ∈ scan next rest, skipWhile isBlank text pos < l.position ∧
            IsBoundary text l.position ∧ l.kind.Anchored text := by
        cases kind with
        | fault e =>
          simp only at hnext
          rw [hnext, scan]
          exact ⟨.nil, nofun⟩
        | literal | call | operator | opening | closing | comma | keyword =>
          have hprogress := hrest.lt hnext (Nat.lt_succ_of_le hlast)
          obtain ⟨hincreasing, hbehind⟩ := ih rest.length (hlast.trans_lt hshorter) hnext rfl
          exact ⟨hincreasing, fun l hl => (hbehind l hl).imp_left hprogress.trans_le⟩
      obtain ⟨hincreasing, hbehind⟩ := htail
      refine ⟨⟨?_, hincreasing⟩, ⟨hpos, hrest.isBoundary, hanchored⟩, fun l hl => ?_⟩
      · simpa using fun l hl => (hbehind l hl).1
      · exact ⟨hpos.trans (hbehind l hl).1.le, (hbehind l hl).2⟩

end Lexeme

namespace OpenCall

def positions (c : OpenCall) : List Nat := c.position :: Token.allPositions c.args.reverse

end OpenCall

namespace Gathered

/-- Positions of what has been gathered, in the order in which it was read. -/
def positions (g : Gathered) : List Nat :=
  Token.allPositions g.finished.reverse ++ g.calls.reverse.flatMap OpenCall.positions

theorem positions_place (g : Gathered) (t : Token) :
    (g.place t).positions = g.positions ++ t.positions := by
  obtain ⟨finished, _ | ⟨c, calls⟩⟩ := g
  · simp [place, positions, ← Token.allPositions_reverse_cons]
  · simp [place, positions, OpenCall.positions, ← Token.allPositions_reverse_cons]

theorem positions_openCall (g : Gathered) (hc : c.args = []) :
    (g.openCall c).positions = g.positions ++ [c.position] := by
  simp [openCall, positions, OpenCall.positions, hc, Token.allPositions]

/-- What a lexeme does: it is a token of its own, opens a list of arguments, or goes on with or closes the
innermost open one. -/
inductive Does (g : Gathered) (l : Lexeme) : Gathered → Prop where
  | placed (t : Token) (ht : t.positions = [l.position]) : Does g l (g.place t)
  | opened (c : OpenCall) (hc : c.position = l.position) (hargs : c.args = [])
      (hl : l.kind = .call c.form c.owner c.name (some c.openedAt)) : Does g l (g.openCall c)
  | separated (c : OpenCall) (calls : List OpenCall) (hg : g.calls = c :: calls) :
      Does g l { g with calls := { c with awaited := .argument } :: calls }
  | closed (c : OpenCall) (calls : List OpenCall) (hg : g.calls = c :: calls) :
      Does g l ({ g with calls := calls }.place c.close)

theorem does_of_stepArgument? (h : g.stepArgument? l = some g') : g.Does l g' := by
  unfold stepArgument? at h
  split at h
  · cases h; exact .placed _ rfl
  · cases h; exact .placed _ rfl
  · next hl => cases h; exact .opened _ rfl rfl hl
  · cases h

theorem does_of_argument (h : (match g.stepArgument? l with
    | some g => Except.ok g
    | none => refuse l) = .ok g') : g.Does l g' := by
  split at h
  · next harg => cases h; exact does_of_stepArgument? harg
  · cases h

theorem step_does (h : g.step l = .ok g') : g.Does l g' := by
  unfold step at h
  split at h
  · unfold stepOutside at h
    split at h
    case h_5 => cases h
    case h_6 => exact does_of_argument h
    all_goals cases h; exact .placed _ rfl
  · next c calls hg =>
    unfold stepInside at h
    split at h
    · cases h; exact .separated c calls hg
    · cases h; exact .closed c calls hg
    · cases h; exact .closed c calls hg
    · cases h
    · cases h
    · exact does_of_argument h

/-- A lexeme that is not allowed where it stands, or at fault itself. -/
theorem step_error (h : g.step l = .error e) : e.position = l.position ∨ l.kind = .fault e := by
  have hargument (h : (match g.stepArgument? l with
      | some g => Except.ok g
      | none => refuse l) = .error e) : e.position = l.position := by
    split at h
    · cases h
    · cases h; rfl
  unfold step at h
  split at h
  · unfold stepOutside at h
    split at h
    case h_5 => next e' hl => cases h; exact Or.inr hl
    case h_6 => exact Or.inl (hargument h)
    all_goals cases h
  · unfold stepInside at h
    split at h
    case h_4 => cases h; exact Or.inl rfl
    case h_5 => cases h; exact Or.inr ‹_›
    case h_6 => exact Or.inl (hargument h)
    all_goals cases h

/-- Positions are read one after another; a comma or a parenthesis that closes a list has no token. -/
theorem Does.positions (h : g.Does l g') :
    g'.positions = g.positions ∨ g'.positions = g.positions ++ [l.position] := by
  cases h with
  | placed t ht => exact Or.inr (ht ▸ positions_place g t)
  | opened c hc hargs => exact Or.inr (hc ▸ positions_openCall g hargs)
  | separated c calls hg =>
    left
    simp [Gathered.positions, hg, OpenCall.positions]
  | closed c calls hg =>
    left
    rw [positions_place]
    simp [Gathered.positions, hg, OpenCall.positions, OpenCall.close, Token.positions,
      TokenKind.positions]

/-- Whether each open list of arguments has been opened between characters. -/
def Anchored (text : String) (g : Gathered) : Prop := ∀ c ∈ g.calls, IsBoundary text c.openedAt

theorem Anchored.place (h : g.Anchored text) (t : Token) : (g.place t).Anchored text := by
  obtain ⟨finished, _ | ⟨c, calls⟩⟩ := g
  · exact h
  · exact List.forall_mem_cons.2 (List.forall_mem_cons.1 h)

theorem Anchored.does (h : g.Anchored text) (hl : l.kind.Anchored text) (hdoes : g.Does l g') :
    g'.Anchored text := by
  cases hdoes with
  | placed t => exact h.place t
  | opened c hc hargs hkind =>
    rw [hkind] at hl
    exact List.forall_mem_cons.2 ⟨hl _ rfl, h⟩
  | separated c calls hg =>
    rw [Anchored, hg] at h
    exact List.forall_mem_cons.2 (List.forall_mem_cons.1 h)
  | closed c calls hg =>
    rw [Anchored, hg] at h
    have hcalls : Anchored text { g with calls := calls } := (List.forall_mem_cons.1 h).2
    exact hcalls.place _

/-- A run reads some of the positions of its lexemes, in their order. -/
theorem steps_positions (hls : ∀ l ∈ ls, IsBoundary text l.position ∧ l.kind.Anchored text)
    (hg : g.Anchored text) :
    match ls.foldlM step g with
    | .ok g' => g'.Anchored text ∧
        ∃ read, read.Sublist (ls.map (·.position)) ∧ g'.positions = g.positions ++ read
    | .error e => IsBoundary text e.position := by
  induction ls generalizing g with
  | nil => exact ⟨hg, [], .slnil, (List.append_nil _).symm⟩
  | cons l ls ih =>
    obtain ⟨hl, hls⟩ := List.forall_mem_cons.1 hls
    rw [List.foldlM_cons]
    cases hstep : g.step l with
    | error e =>
      change IsBoundary text e.position
      obtain he | he := step_error hstep
      · exact he ▸ hl.1
      · have hanchored := hl.2
        rwa [he] at hanchored
    | ok g₁ =>
      have hdoes := step_does hstep
      have hrun := ih hls (hg.does hl.2 hdoes)
      change match ls.foldlM step g₁ with | .ok g' => _ | .error e => _
      split at hrun
      · next g' hsteps =>
        obtain ⟨hopen, read, hread, hpositions⟩ := hrun
        refine ⟨hopen, ?_⟩
        obtain hsame | hnew := hdoes.positions
        · exact ⟨read, hread.cons _, by rw [hpositions, hsame]⟩
        · exact ⟨l.position :: read, hread.cons_cons _, by rw [hpositions, hnew, List.append_assoc]; rfl⟩
      · exact hrun

end Gathered

/-- Tokens stand between characters, each one behind those that are read before it. A text without tokens
has its fault between characters, too. -/
theorem tokenize_positions (text : String) :
    match tokenize text with
    | .ok ts => (Token.allPositions ts).Pairwise (· < ·) ∧ ∀ i ∈ Token.allPositions ts, IsBoundary text i
    | .error e => IsBoundary text e.position := by
  obtain ⟨hincreasing, hlexemes⟩ := Lexeme.scan_positions (RestAt.start text)
  have hsteps := Gathered.steps_positions (g := .empty) (fun l hl => (hlexemes l hl).2) nofun
  rw [tokenize, gather]
  cases hrun : (Lexeme.scan 0 text.toList).foldlM Gathered.step .empty with
  | error e => rw [hrun] at hsteps; exact hsteps
  | ok g =>
    rw [hrun] at hsteps
    obtain ⟨hopen, read, hread, hpositions⟩ := hsteps
    change match g.finish with | .ok ts => _ | .error e => _
    obtain ⟨finished, _ | ⟨c, calls⟩⟩ := g
    · have hread' : Token.allPositions finished.reverse = read := by
        simpa [Gathered.positions, Gathered.empty, Token.allPositions] using hpositions
      change (Token.allPositions finished.reverse).Pairwise _ ∧
        ∀ i ∈ Token.allPositions finished.reverse, _
      rw [hread']
      refine ⟨hincreasing.sublist hread, fun i hi => ?_⟩
      obtain ⟨l, hl, rfl⟩ := List.mem_map.1 (hread.subset hi)
      exact (hlexemes l hl).2.1
    · exact hopen c List.mem_cons_self

end ChatFlow.Expr
