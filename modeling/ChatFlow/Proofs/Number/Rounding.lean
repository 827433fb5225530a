import ChatFlow.Number.Binary64
import Mathlib.Tactic.Ring

/-!
Integers as double-precision numbers. Conversion keeps 53 significant bits and rounds what is below
them, a half to the even neighbour; so it never turns an order around, and is exact up to 2^53.
-/
namespace ChatFlow.Binary64
variable {m n a den : Nat}

theorem le_roundHalfEven (hden : 0 < den) (h : a * den ≤ n) : a ≤ roundHalfEven n den := by
  have hdiv := (Nat.le_div_iff_mul_le hden).2 h
  unfold roundHalfEven
  dsimp only
  split <;> omega

theorem roundHalfEven_le (hden : 0 < den) (h : n ≤ a * den) : roundHalfEven n den ≤ a := by
  have hdiv : n / den ≤ a := Nat.div_le_of_le_mul (by rwa [Nat.mul_comm])
  rcases Nat.lt_or_eq_of_le hdiv with hlt | heq
  · unfold roundHalfEven
    dsimp only
    split <;> omega
  · have hrest : n % den = 0 := by
      have hsplit := Nat.div_add_mod n den
      rw [heq, Nat.mul_comm] at hsplit
      omega
    have hround : roundHalfEven n den = n / den := if_pos (Or.inl (by omega))
    rw [hround, heq]

theorem roundHalfEven_mul (hden : 0 < den) : roundHalfEven (a * den) den = a :=
  Nat.le_antisymm (roundHalfEven_le hden (Nat.le_refl _)) (le_roundHalfEven hden (Nat.le_refl _))

theorem roundHalfEven_one : roundHalfEven n 1 = n := by
  have h := roundHalfEven_mul (a := n) Nat.one_pos
  rwa [Nat.mul_one] at h

theorem roundHalfEven_mono (hden : 0 < den) (h : m ≤ n) :
    roundHalfEven m den ≤ roundHalfEven n den := by
  rcases Nat.lt_or_eq_of_le (Nat.div_le_div_right h : m / den ≤ n / den) with hlt | heq
  · have hm : m ≤ (m / den + 1) * den := by
      have hsplit := Nat.div_add_mod m den
      have hrest := Nat.mod_lt m hden
      rw [Nat.add_mul, Nat.mul_comm]
      omega
    exact (roundHalfEven_le hden hm).trans
      (le_roundHalfEven hden ((Nat.le_div_iff_mul_le hden).1 hlt))
  · -- with the same quotient, the greater remainder is rounded down only if the lesser is
    have hrest : m % den ≤ n % den := by
      have hm := Nat.div_add_mod m den
      have hn := Nat.div_add_mod n den
      rw [heq] at hm
      omega
    unfold roundHalfEven
    dsimp only
    rw [heq]
    split <;> split <;> omega

/-- How many bits of a natural number lie below its first 53. -/
def excess (n : Nat) : Nat := n.log2 - 52

/-- A natural number rounded to 53 significant bits. -/
def toSignificant (n : Nat) : Nat := roundHalfEven n (2 ^ excess n) * 2 ^ excess n

theorem le_toSignificant (h : a * 2 ^ excess n ≤ n) : a * 2 ^ excess n ≤ toSignificant n :=
  Nat.mul_le_mul_right _ (le_roundHalfEven (Nat.two_pow_pos _) h)

theorem toSignificant_le (h : n ≤ a * 2 ^ excess n) : toSignificant n ≤ a * 2 ^ excess n :=
  Nat.mul_le_mul_right _ (roundHalfEven_le (Nat.two_pow_pos _) h)

theorem toSignificant_of_dvd (h : 2 ^ excess n ∣ n) : toSignificant n = n := by
  rw [toSignificant]
  obtain ⟨a, ha⟩ := h
  generalize excess n = k at ha
  rw [Nat.mul_comm] at ha
  rw [ha, roundHalfEven_mul (Nat.two_pow_pos _)]

theorem toSignificant_of_le (h : n ≤ 2 ^ 53) : toSignificant n = n := by
  apply toSignificant_of_dvd
  rcases Nat.lt_or_eq_of_le h with hlt | rfl
  · have hexcess : excess n = 0 := by
      rcases Nat.eq_zero_or_pos n with rfl | hpos
      · rfl
      · have hlog := (Nat.log2_lt (by omega)).2 hlt
        exact Nat.sub_eq_zero_of_le (by omega)
    rw [hexcess]
    exact Nat.one_dvd n
  · exact ⟨2 ^ 52, by decide +kernel⟩

/-- Rounding keeps an order, also where the greater number loses more bits. -/
theorem toSignificant_mono (h : m ≤ n) : toSignificant m ≤ toSignificant n := by
  rcases Nat.eq_zero_or_pos m with rfl | hpos
  · exact (toSignificant_of_le (Nat.zero_le _)).trans_le (Nat.zero_le _)
  · have hm := Nat.log2_self_le (n := m) (by omega)
    have hn := Nat.log2_self_le (n := n) (by omega)
    have hm' := Nat.lt_log2_self (n := m)
    have hlog : m.log2 ≤ n.log2 := by
      have hlt := Nat.lt_of_le_of_lt (hm.trans h) (Nat.lt_log2_self (n := n))
      have := (Nat.pow_lt_pow_iff_right (by decide)).1 hlt
      omega
    have hexcess : excess m ≤ excess n := Nat.sub_le_sub_right hlog 52
    rcases Nat.eq_or_lt_of_le hexcess with heq | hlt
    · rw [toSignificant, toSignificant, heq]
      exact Nat.mul_le_mul_right _ (roundHalfEven_mono (Nat.two_pow_pos _) h)
    · -- the power of two between them is kept on both scales
      simp only [excess] at hlt
      have hpow : 2 ^ n.log2 = 2 ^ (n.log2 - excess m) * 2 ^ excess m := by
        rw [← Nat.pow_add]
        exact congrArg _ (by unfold excess; omega)
      have hpow' : 2 ^ n.log2 = 2 ^ 52 * 2 ^ excess n := by
        rw [← Nat.pow_add]
        exact congrArg _ (by unfold excess; omega)
      have hle : m ≤ 2 ^ n.log2 :=
        hm'.le.trans (Nat.pow_le_pow_right (by decide) (by omega))
      calc toSignificant m ≤ 2 ^ n.log2 := hpow ▸ toSignificant_le (hpow ▸ hle)
        _ ≤ toSignificant n := hpow' ▸ le_toSignificant (hpow' ▸ hn)

/-! The bit pattern of a converted integer. -/

variable {negative : Bool} {pattern scale s : Nat}

theorem toNat_ofPattern (h : pattern < 2 ^ 63) :
    (ofPattern negative pattern).bits.toNat = if negative then 2 ^ 63 + pattern else pattern := by
  cases negative <;> (simp [ofPattern]; omega)

theorem isNegative_ofPattern (h : pattern < 2 ^ 63) :
    (ofPattern negative pattern).isNegative = negative := by
  rw [isNegative, toNat_ofPattern h]
  cases negative with
  | false => exact decide_eq_false (by simpa using h)
  | true => exact decide_eq_true (by simp)

theorem exponentField_ofPattern (h : pattern < 2 ^ 63) :
    (ofPattern negative pattern).exponentField = pattern / 2 ^ 52 := by
  rw [exponentField, toNat_ofPattern h, Nat.shiftRight_eq_div_pow]
  cases negative <;> (simp; omega)

theorem fractionField_ofPattern (h : pattern < 2 ^ 63) :
    (ofPattern negative pattern).fractionField = pattern % 2 ^ 52 := by
  rw [fractionField, toNat_ofPattern h]
  cases negative with
  | false => rfl
  | true =>
    change (2 ^ 63 + pattern) % 2 ^ 52 = pattern % 2 ^ 52
    omega

/-- A scale and a significand of 53 bits leave the sign bit alone. -/
theorem pattern_lt (hscale : scale ≤ 2044) (hhi : s ≤ 2 ^ 53) : scale <<< 52 + s < 2 ^ 63 := by
  rw [Nat.shiftLeft_eq]
  omega

/-- A significand of 53 bits above the exponent field is read back with its scale, also if it has
been rounded up to the next power of two. -/
theorem magnitude_ofPattern (hscale : scale ≤ 2044) (hlo : 2 ^ 52 ≤ s) (hhi : s ≤ 2 ^ 53) :
    (ofPattern negative (scale <<< 52 + s)).magnitude = s * 2 ^ scale := by
  have hpattern := pattern_lt hscale hhi
  rw [magnitude, significand, spacing, exponentField_ofPattern hpattern,
    fractionField_ofPattern hpattern, Nat.shiftLeft_eq]
  rcases Nat.lt_or_eq_of_le hhi with hlt | rfl
  · have hexp : (scale * 2 ^ 52 + s) / 2 ^ 52 = scale + 1 := by omega
    have hfrac : (scale * 2 ^ 52 + s) % 2 ^ 52 = s - 2 ^ 52 := by omega
    rw [hexp, hfrac, if_neg (Nat.succ_ne_zero _), Nat.add_sub_cancel, Nat.shiftLeft_eq, Nat.one_mul,
      Nat.shiftLeft_eq, Nat.one_mul, Nat.add_sub_cancel' hlo]
  · have hexp : (scale * 2 ^ 52 + 2 ^ 53) / 2 ^ 52 = scale + 2 := by omega
    have hfrac : (scale * 2 ^ 52 + 2 ^ 53) % 2 ^ 52 = 0 := by omega
    rw [hexp, hfrac, if_neg (Nat.succ_ne_zero _), Nat.shiftLeft_eq, Nat.shiftLeft_eq]
    have hpow : 2 ^ (scale + 2 - 1) = 2 * 2 ^ scale := by
      rw [show scale + 2 - 1 = scale + 1 from rfl, Nat.pow_succ, Nat.mul_comm]
    rw [hpow]
    ring

theorem isFinite_ofPattern (hscale : scale ≤ 2044) (hhi : s ≤ 2 ^ 53) :
    (ofPattern negative (scale <<< 52 + s)).isFinite = true := by
  have hpattern := pattern_lt hscale hhi
  rw [isFinite, exponentField_ofPattern hpattern, Nat.shiftLeft_eq]
  exact decide_eq_true (by omega)

/-- How many units of 2^-1074 make a one. -/
def unitsOfOne : Nat := 2 ^ (52 + 1022)

theorem unitsOfOne_pos : 0 < unitsOfOne := by
  unfold unitsOfOne
  apply Nat.pow_pos
  decide

/-- The significand to which a natural number is rounded. -/
def integerSignificand (n : Nat) : Nat :=
  roundHalfEven (n <<< (52 - n.log2)) (1 <<< (n.log2 - 52))

theorem floorLog2_one (h : n ≠ 0) : floorLog2 n 1 = n.log2 := by
  have hle := Nat.log2_self_le h
  have hone : Nat.log2 1 = 0 := by decide
  simp [floorLog2, hone, Nat.shiftLeft_eq, hle]

theorem integerSignificand_bounds (h : n ≠ 0) :
    2 ^ 52 ≤ integerSignificand n ∧ integerSignificand n ≤ 2 ^ 53 := by
  have hlo := Nat.log2_self_le h
  have hhi := (Nat.lt_log2_self (n := n)).le
  have hden : 0 < 1 <<< (n.log2 - 52) := by
    rw [Nat.shiftLeft_eq]
    exact Nat.mul_pos Nat.one_pos (Nat.two_pow_pos _)
  constructor
  · refine le_roundHalfEven hden ?_
    rw [Nat.shiftLeft_eq, Nat.shiftLeft_eq, Nat.one_mul, ← Nat.pow_add]
    calc 2 ^ (52 + (n.log2 - 52)) = 2 ^ n.log2 * 2 ^ (52 - n.log2) := by
          rw [← Nat.pow_add]
          exact congrArg _ (by omega)
      _ ≤ n * 2 ^ (52 - n.log2) := Nat.mul_le_mul_right _ hlo
  · refine roundHalfEven_le hden ?_
    rw [Nat.shiftLeft_eq, Nat.shiftLeft_eq, Nat.one_mul, ← Nat.pow_add]
    calc n * 2 ^ (52 - n.log2) ≤ 2 ^ (n.log2 + 1) * 2 ^ (52 - n.log2) := Nat.mul_le_mul_right _ hhi
      _ = 2 ^ (53 + (n.log2 - 52)) := by
          rw [← Nat.pow_add]
          exact congrArg _ (by omega)

/-- Significand and scale together say what the number is rounded to. -/
theorem integerSignificand_mul (n k : Nat) :
    integerSignificand n * 2 ^ (n.log2 + k) = toSignificant n * 2 ^ (52 + k) := by
  unfold integerSignificand toSignificant excess
  rcases Nat.le_total n.log2 52 with hle | hle
  · rw [Nat.sub_eq_zero_of_le hle, Nat.shiftLeft_zero, Nat.pow_zero, roundHalfEven_one,
      roundHalfEven_one, Nat.mul_one, Nat.shiftLeft_eq, Nat.mul_assoc, ← Nat.pow_add]
    exact congrArg (n * 2 ^ ·) (by omega)
  · have hsplit : n.log2 + k = n.log2 - 52 + (52 + k) := by omega
    rw [Nat.sub_eq_zero_of_le hle, Nat.shiftLeft_zero, Nat.shiftLeft_eq, Nat.one_mul, hsplit,
      Nat.pow_add 2 (n.log2 - 52), Nat.mul_assoc]

theorem ofRatio_one (h : n ≠ 0) (hlog : n.log2 ≤ 1022) :
    ofRatio negative n 1 =
      ofPattern negative ((n.log2 + 1022) <<< 52 + integerSignificand n) := by
  have hscale : max (-1074) (floorLog2 n 1 - 52) = (n.log2 : Int) - 52 := by
    rw [floorLog2_one h]
    omega
  have hup : (-((n.log2 : Int) - 52)).toNat = 52 - n.log2 := by omega
  have hdown : ((n.log2 : Int) - 52).toNat = n.log2 - 52 := by omega
  have hfield : ((n.log2 : Int) - 52 + 1074).toNat = n.log2 + 1022 := by omega
  have hfinite : (n.log2 + 1022) <<< 52 + integerSignificand n ≤ infinityPattern := by
    have hhi := (integerSignificand_bounds h).2
    rw [infinityPattern, Nat.shiftLeft_eq, Nat.shiftLeft_eq]
    omega
  rw [ofRatio, if_neg h]
  dsimp only
  rw [hscale, hup, hdown, hfield]
  exact congrArg (ofPattern negative) (Nat.min_eq_right hfinite)

/-- An integer rounded to 53 significant bits. -/
def rounded (n : Int) : Int :=
  if n < 0 then -(toSignificant n.natAbs : Int) else toSignificant n.natAbs

theorem rounded_of_le {n : Int} (h : n.natAbs ≤ 2 ^ 53) : rounded n = n := by
  rw [rounded, toSignificant_of_le h]
  split <;> omega

theorem rounded_mono {m n : Int} (h : m ≤ n) : rounded m ≤ rounded n := by
  unfold rounded
  split <;> split
  · exact Int.neg_le_neg (Int.ofNat_le.2 (toSignificant_mono (by omega)))
  · omega
  · omega
  · exact Int.ofNat_le.2 (toSignificant_mono (by omega))

/-- What an integer is converted to: the number that is `rounded`, in units of 2^-1074. -/
theorem ofInt_spec {n : Int} (hlog : n.natAbs.log2 ≤ 1022) :
    (ofInt n).isFinite = true ∧ (ofInt n).units = rounded n * unitsOfOne := by
  rcases eq_or_ne n 0 with rfl | hn
  · have hzero : rounded 0 = 0 := rounded_of_le (by decide)
    rw [hzero, Int.zero_mul]
    exact ⟨by decide, by decide⟩
  · have hnat := Int.natAbs_ne_zero.2 hn
    obtain ⟨hlo, hhi⟩ := integerSignificand_bounds hnat
    have hscale : n.natAbs.log2 + 1022 ≤ 2044 := by omega
    rw [ofInt, ofRatio_one hnat hlog]
    refine ⟨isFinite_ofPattern hscale hhi, ?_⟩
    rw [units, isNegative_ofPattern (pattern_lt hscale hhi), magnitude_ofPattern hscale hlo hhi,
      integerSignificand_mul, rounded, ← unitsOfOne]
    by_cases hneg : n < 0
    · rw [if_pos hneg, if_pos (decide_eq_true hneg), Int.natCast_mul, Int.neg_mul]
    · rw [if_neg hneg, if_neg (by simpa using hneg), Int.natCast_mul]

end ChatFlow.Binary64
