import ChatFlow.Proofs.Expr.Positions
import ChatFlow.Proofs.Form.Bytewise

/-! Reading a text by its bytes stays on the boundaries of its characters. -/
namespace ChatFlow
open Text ChatFlow.Expr

/-- Whatever characters a text has, readers that go by its bytes cut it between characters and within its
end only: they have the tokens and the forms that the characters make up. All tokens, arguments too, and
the place of a fault are between characters as well, and in the order of reading each token is behind the
last one. -/
theorem reading_stays_on_boundaries (text : String) :
    tokenizeBytes text = some (tokenize text) ∧ Form.readBytes text = some (Form.readAll text) ∧
      (∀ ts, tokenize text = .ok ts → (Token.allPositions ts).Pairwise (· < ·) ∧
        ∀ i ∈ Token.allPositions ts, IsBoundary text i ∧ i ≤ text.utf8ByteSize) ∧
      ∀ e, tokenize text = .error e → IsBoundary text e.position ∧ e.position ≤ text.utf8ByteSize := by
  have hpositions := tokenize_positions text
  refine ⟨tokenizeBytes_eq text, Form.readBytes_eq text, fun ts hts => ?_, fun e he => ?_⟩
  · rw [hts] at hpositions
    exact ⟨hpositions.1, fun i hi => ⟨hpositions.2 i hi, (hpositions.2 i hi).le⟩⟩
  · rw [he] at hpositions
    exact ⟨hpositions, hpositions.le⟩

/-- Two characters of two and of four bytes in nested arguments, and an escape that does not exist. -/
theorem reading_accentedTexts :
    tokenize "#f('é', A#g('😀'))" = .ok [.mk (.call .reference none "f" (some [
      .mk (.literal (.str "é")) 3,
      .mk (.call .reference (some "A") "g" (some [.mk (.literal (.str "😀")) 13])) 9])) 0] ∧
    [0, 3, 9, 13].Pairwise (· < ·) ∧ IsBoundary "#f('é', A#g('😀'))" 13 ∧
    tokenize "#f('\\ü')" = .error ⟨.invalidEscape 'ü', 7⟩ ∧ IsBoundary "#f('\\ü')" 7 := by
  have hcall : tokenize "#f('é', A#g('😀'))" = .ok [.mk (.call .reference none "f" (some [
      .mk (.literal (.str "é")) 3,
      .mk (.call .reference (some "A") "g" (some [.mk (.literal (.str "😀")) 13])) 9])) 0] := by
    have htext : "#f('é', A#g('😀'))" = String.ofList ['#', 'f', '(', '\'', 'é', '\'', ',', ' ', 'A', '#',
      'g', '(', '\'', '😀', '\'', ')', ')'] := rfl
    rw [tokenize, gather, htext, String.toList_ofList]
    with_unfolding_all rfl
  have hfault : tokenize "#f('\\ü')" = .error ⟨.invalidEscape 'ü', 7⟩ := by
    have htext : "#f('\\ü')" = String.ofList ['#', 'f', '(', '\'', '\\', 'ü', '\'', ')'] := rfl
    rw [tokenize, gather, htext, String.toList_ofList]
    with_unfolding_all rfl
  obtain ⟨-, -, hok, -⟩ := reading_stays_on_boundaries "#f('é', A#g('😀'))"
  obtain ⟨-, -, -, herror⟩ := reading_stays_on_boundaries "#f('\\ü')"
  obtain ⟨hincreasing, hboundary⟩ := hok _ hcall
  exact ⟨hcall, hincreasing, (hboundary 13 (by decide)).1, hfault, (herror _ hfault).1⟩

end ChatFlow
