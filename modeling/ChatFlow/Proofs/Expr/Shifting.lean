import ChatFlow.Expr.Gather

/-! What stands after another text is tokenized as on its own, and only its positions move. -/
namespace ChatFlow.Expr
variable {α β : Type} {k start pos : Nat} {c : Char} {cs : List Char} {form : CallForm}
  {owner : Option String} {g : Gathered} {l : Lexeme} {t : Token}

mutual

/-- A token and those in its list of arguments, moved by a number of bytes. -/
def Token.shift (k : Nat) : Token → Token
  | .mk kind position => .mk (kind.shift k) (position + k)
termination_by structural t => t

def TokenKind.shift (k : Nat) : TokenKind → TokenKind
  | .literal value => .literal value
  | .call form owner name none => .call form owner name none
  | .call form owner name (some args) => .call form owner name (some (Token.shiftAll k args))
  | .operator op => .operator op
  | .opening => .opening
  | .closing => .closing
  | .keyword word => .keyword word
termination_by structural kind => kind

def Token.shiftAll (k : Nat) : List Token → List Token
  | [] => []
  | t :: ts => Token.shift k t :: Token.shiftAll k ts
termination_by structural ts => ts

end

theorem Token.shiftAll_eq_map (k : Nat) : ∀ ts : List Token, shiftAll k ts = ts.map (shift k)
  | [] => rfl
  | t :: ts => by rw [shiftAll, shiftAll_eq_map, List.map_cons]

def LexError.shift (k : Nat) (e : LexError) : LexError := { e with position := e.position + k }

/-- A result of which tokens move, or the fault instead. -/
def shifted (k : Nat) (f : α → β) : Except LexError α → Except LexError β
  | .ok a => .ok (f a)
  | .error e => .error (e.shift k)

def LexemeKind.shift (k : Nat) : LexemeKind → LexemeKind
  | .call form owner name argsAt => .call form owner name (argsAt.map (· + k))
  | .fault e => .fault (e.shift k)
  | kind => kind

def Lexeme.shift (k : Nat) (l : Lexeme) : Lexeme := ⟨l.kind.shift k, l.first, l.position + k⟩

def Scanned.shift (k : Nat) (s : Scanned) : Scanned := ⟨s.kind.shift k, s.next + k, s.rest⟩

namespace Lexeme

/-- A string literal is read alike wherever it stands. -/
theorem readString_shift (quote : Char) (k start pos : Nat) (cs : List Char) :
    readString quote (start + k) (pos + k) cs =
      shifted k (fun r => (r.1, r.2.1 + k, r.2.2)) (readString quote start pos cs) := by
  fun_induction readString quote start pos cs with
  | case1 => rfl
  | case2 pos cs =>
    rw [readString.eq_def]
    simp [shifted, Nat.add_right_comm]
  | case3 pos hq =>
    rw [readString.eq_def]
    simp [hq, shifted, LexError.shift]
  | case4 pos e cs hnone hq =>
    have hplace : pos + k + 1 + e.utf8Size = pos + 1 + e.utf8Size + k := by omega
    rw [readString.eq_def]
    simp [hq, hnone, shifted, LexError.shift, hplace]
  | case5 pos e cs v hsome hq ih =>
    have hplace : pos + k + 1 + e.utf8Size = pos + 1 + e.utf8Size + k := by omega
    rw [readString.eq_def]
    simp only [if_neg hq, if_true, hsome, hplace, ih]
    cases readString quote start (pos + 1 + e.utf8Size) cs <;> rfl
  | case6 pos c cs hq hplain ih =>
    rw [readString.eq_def]
    simp only [if_neg hq, if_neg hplain, Nat.add_right_comm pos k, ih]
    cases readString quote start (pos + c.utf8Size) cs <;> rfl

theorem scanString_shift (quote : Char) (k start : Nat) (cs : List Char) :
    scanString quote (start + k) cs = (scanString quote start cs).shift k := by
  unfold scanString
  rw [Nat.add_right_comm, readString_shift]
  cases readString quote start (start + 1) cs <;> rfl

theorem scanNumber_shift (k start : Nat) (c : Char) (cs : List Char) :
    scanNumber (start + k) c cs = (scanNumber start c cs).shift k := by
  simp only [scanNumber]
  split
  · simp [Scanned.shift, LexemeKind.shift, Nat.add_right_comm]
  · rfl

theorem scanMember_shift (form : CallForm) (owner : Option String) (k start pos : Nat)
    (cs : List Char) :
    scanMember form owner (start + k) (pos + k) cs = (scanMember form owner start pos cs).shift k := by
  simp only [scanMember, Nat.add_right_comm pos k]
  split
  · rfl
  · split
    · simp [Scanned.shift, LexemeKind.shift, Nat.add_right_comm]
    · rfl

theorem word?_shift (k : Nat) {word : String} {kind : LexemeKind} (h : word? word = some kind) :
    kind.shift k = kind := by
  unfold word? at h
  split at h
  case h_4 => split at h <;> cases h <;> rfl
  all_goals
    cases h
    rfl

theorem scanWord_shift (k start : Nat) (c : Char) (cs : List Char) :
    scanWord (start + k) c cs = (scanWord start c cs).shift k := by
  simp only [scanWord, Nat.add_right_comm start k]
  split
  · rw [Nat.add_right_comm _ k, scanMember_shift]
  · rw [Nat.add_right_comm _ k, scanMember_shift]
  · split
    · next hword => simp [Scanned.shift, word?_shift k hword]
    · rfl

theorem scanOne_shift (k start : Nat) (c : Char) (cs : List Char) :
    scanOne (start + k) c cs = (scanOne start c cs).shift k := by
  unfold scanOne
  split
  case h_1 | h_2 => rw [Nat.add_right_comm, scanMember_shift]
  case h_3 | h_4 => exact scanString_shift ..
  case h_16 =>
    split
    · exact scanNumber_shift ..
    · split
      · exact scanWord_shift ..
      · rfl
  all_goals simp [Scanned.shift, LexemeKind.shift, Nat.add_right_comm]

theorem scan_shift (k pos : Nat) (cs : List Char) :
    scan (pos + k) cs = (scan pos cs).map (Lexeme.shift k) := by
  fun_induction scan pos cs with
  | case1 => simp [scan]
  | case2 pos c cs hc ih => rw [scan, if_pos hc, Nat.add_right_comm, ih]
  | case3 pos c cs hc s ih =>
    rw [scan, if_neg hc, scanOne_shift, List.map_cons]
    exact congrArg _ ih

end Lexeme

def OpenCall.shift (k : Nat) (c : OpenCall) : OpenCall :=
  { c with
    position := c.position + k
    openedAt := c.openedAt + k
    args := c.args.map (Token.shift k) }

theorem OpenCall.close_shift (k : Nat) (c : OpenCall) : (c.shift k).close = c.close.shift k := by
  simp [close, shift, Token.shift, TokenKind.shift, Token.shiftAll_eq_map]

namespace Gathered

/-- What has been gathered from a text that stands `k` bytes further, after some tokens that have been
finished before it. -/
def behind (k : Nat) (before : List Token) (g : Gathered) : Gathered :=
  ⟨g.finished.map (Token.shift k) ++ before, g.calls.map (OpenCall.shift k)⟩

theorem place_behind (k : Nat) (before : List Token) (g : Gathered) (t : Token) :
    (g.behind k before).place (t.shift k) = (g.place t).behind k before := by
  obtain ⟨finished, _ | ⟨c, calls⟩⟩ := g <;> rfl

theorem stepArgument?_behind (k : Nat) (before : List Token) (g : Gathered) (l : Lexeme) :
    (g.behind k before).stepArgument? (l.shift k) = (g.stepArgument? l).map (behind k before) := by
  obtain ⟨kind, first, position⟩ := l
  cases kind with
  | literal value => exact congrArg some (place_behind k before g (.mk (.literal value) position))
  | call form owner name argsAt =>
    cases argsAt with
    | none => exact congrArg some (place_behind k before g (.mk (.call form owner name none) position))
    | some openedAt => rfl
  | operator | opening | closing | comma | keyword | fault => rfl

/-- Where only arguments may stand, they move and all else is refused at its new place. -/
theorem argument_behind (k : Nat) (before : List Token) (g : Gathered) (l : Lexeme) :
    (match (g.behind k before).stepArgument? (l.shift k) with
      | some g => .ok g
      | none => refuse (l.shift k)) =
    shifted k (behind k before) (match g.stepArgument? l with
      | some g => .ok g
      | none => refuse l) := by
  rw [stepArgument?_behind]
  cases g.stepArgument? l <;> rfl

theorem stepOutside_behind (k : Nat) (before : List Token) (g : Gathered) (l : Lexeme) :
    (g.behind k before).stepOutside (l.shift k) = shifted k (behind k before) (g.stepOutside l) := by
  have hargument := argument_behind k before g l
  obtain ⟨kind, first, position⟩ := l
  have hplace (kind : TokenKind) := place_behind k before g (.mk kind position)
  cases kind with
  | literal | call | comma => exact hargument
  | operator op => exact congrArg Except.ok (hplace (.operator op))
  | opening => exact congrArg Except.ok (hplace .opening)
  | closing => exact congrArg Except.ok (hplace .closing)
  | keyword word => exact congrArg Except.ok (hplace (.keyword word))
  | fault => rfl

theorem stepInside_behind (k : Nat) (before : List Token) (g : Gathered) (c : OpenCall)
    (calls : List OpenCall) (l : Lexeme) :
    (g.behind k before).stepInside (c.shift k) (calls.map (OpenCall.shift k)) (l.shift k) =
      shifted k (behind k before) (g.stepInside c calls l) := by
  have hargument := argument_behind k before g l
  have hclose := place_behind k before ⟨g.finished, calls⟩ c.close
  rw [← OpenCall.close_shift] at hclose
  obtain ⟨kind, first, position⟩ := l
  cases hc : c.awaited with
  | separator =>
    have hc' : (c.shift k).awaited = .separator := hc
    simp only [stepInside, hc, hc']
    cases kind with
    | closing => exact congrArg Except.ok hclose
    | literal | call | operator | opening | comma | keyword | fault => rfl
  | firstArgument =>
    have hc' : (c.shift k).awaited = .firstArgument := hc
    simp only [stepInside, hc, hc']
    cases kind with
    | closing => exact congrArg Except.ok hclose
    | fault => rfl
    | literal | call | operator | opening | comma | keyword => exact hargument
  | argument =>
    have hc' : (c.shift k).awaited = .argument := hc
    simp only [stepInside, hc, hc']
    cases kind with
    | fault => rfl
    | literal | call | operator | opening | closing | comma | keyword => exact hargument

theorem step_behind (k : Nat) (before : List Token) (g : Gathered) (l : Lexeme) :
    (g.behind k before).step (l.shift k) = shifted k (behind k before) (g.step l) := by
  obtain ⟨finished, _ | ⟨c, calls⟩⟩ := g
  · exact stepOutside_behind ..
  · exact stepInside_behind ..

theorem steps_behind (k : Nat) (before : List Token) (g : Gathered) (ls : List Lexeme) :
    (ls.map (Lexeme.shift k)).foldlM step (g.behind k before) =
      shifted k (behind k before) (ls.foldlM step g) := by
  induction ls generalizing g with
  | nil => rfl
  | cons l ls ih =>
    rw [List.map_cons, List.foldlM_cons, List.foldlM_cons, step_behind]
    cases g.step l with
    | error e => rfl
    | ok g' => exact ih g'

theorem finish_behind (k : Nat) (before : List Token) (g : Gathered) :
    (g.behind k before).finish =
      shifted k (fun ts => before.reverse ++ ts.map (Token.shift k)) g.finish := by
  obtain ⟨finished, _ | ⟨c, calls⟩⟩ := g
  · simp [finish, behind, shifted]
  · rfl

end Gathered
end ChatFlow.Expr
