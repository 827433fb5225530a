import ChatFlow.Expr.Eval
import ChatFlow.Proofs.Number.Rounding

/-!
Comparison of integers and floats. Two integers are compared exactly, an integer and a float after
the integer has been converted. So the laws of an order hold, except where a float stands between two
integers that are both converted to it.
-/
namespace ChatFlow

namespace Binary64
variable {x y : Binary64}

theorem isNaN_of_isFinite (h : x.isFinite = true) : x.isNaN = false := by
  have hlt := of_decide_eq_true h
  have hne : x.exponentField ≠ 2047 := by omega
  simp [isNaN, hne]

/-- Finite numbers are ordered as their values are. -/
theorem order?_of_isFinite (hx : x.isFinite = true) (hy : y.isFinite = true) :
    x.order? y = some (compare x.units y.units) := by
  simp [order?, isNaN_of_isFinite hx, isNaN_of_isFinite hy]

theorem equals_iff (hx : x.isFinite = true) (hy : y.isFinite = true) :
    x.equals y = true ↔ x.units = y.units := by
  simp [equals, order?_of_isFinite hx hy]

theorem ofInt_int64 (n : Int64) : (ofInt n.toInt).isFinite = true ∧
    (ofInt n.toInt).units = rounded n.toInt * unitsOfOne := by
  refine ofInt_spec ?_
  have hlo := n.le_toInt
  have hhi := n.toInt_lt
  rcases Nat.eq_zero_or_pos n.toInt.natAbs with hzero | hpos
  · rw [hzero]
    decide
  · have hlt : n.toInt.natAbs < 2 ^ 64 := by omega
    have hlog := (Nat.log2_lt (by omega)).2 hlt
    omega

end Binary64

namespace Value
variable {a b c : Value} {m n : Int64}

/-- Whether a value is an integer or a finite float. -/
def isFiniteNumber : Value → Bool
  | int _ => true
  | float x => x.isFinite
  | _ => false

/-- Whether `<=` holds in expressions. -/
def AtMost (a b : Value) : Prop := (a.order? b).any (Expr.Eval.holds .lessOrEqual) = true

instance : Decidable (AtMost a b) := inferInstanceAs (Decidable (_ = true))

/-- Two integers, which are compared as they are. All other numbers are compared as floats. -/
def BothInts (a b : Value) : Prop := ∃ m n, a = int m ∧ b = int n

/-- A number as it is compared with a float. -/
def asFloat : Value → Binary64
  | int n => .ofInt n.toInt
  | float x => x
  | _ => default

/-- Value of a number as a float, in units of 2^-1074. -/
def level (v : Value) : Int := v.asFloat.units

theorem isFinite_asFloat (h : a.isFiniteNumber = true) : a.asFloat.isFinite = true := by
  cases a with
  | int n => exact (Binary64.ofInt_int64 n).1
  | float x => exact h
  | _ => cases h

/-- Conversion never turns the order of integers around. -/
theorem level_mono (h : m.toInt ≤ n.toInt) : (int m).level ≤ (int n).level := by
  simp only [level, asFloat, Binary64.ofInt_int64]
  exact Int.mul_le_mul_of_nonneg_right (Binary64.rounded_mono h) (Int.natCast_nonneg _)

/-- Up to 2^53 an integer is a float. -/
theorem level_of_le (h : n.toInt.natAbs ≤ 2 ^ 53) :
    (int n).level = n.toInt * Binary64.unitsOfOne := by
  simp only [level, asFloat, Binary64.ofInt_int64, Binary64.rounded_of_le h]

/-- All that a comparison sees of numbers is their levels, unless both are integers. -/
theorem compared_as_floats (ha : a.isFiniteNumber = true) (hb : b.isFiniteNumber = true)
    (h : ¬ BothInts a b) :
    a.order? b = some (compare a.level b.level) ∧
      (a.looselyEqual b = true ↔ a.level = b.level) := by
  have hx := isFinite_asFloat ha
  have hy := isFinite_asFloat hb
  cases a with
  | int m =>
    cases b with
    | int n => exact absurd ⟨m, n, rfl, rfl⟩ h
    | float y => exact ⟨Binary64.order?_of_isFinite hx hy, Binary64.equals_iff hx hy⟩
    | _ => cases hb
  | float x =>
    cases b with
    | int n => exact ⟨Binary64.order?_of_isFinite hx hy, (Binary64.equals_iff hy hx).trans eq_comm⟩
    | float y => exact ⟨Binary64.order?_of_isFinite hx hy, Binary64.equals_iff hx hy⟩
    | _ => cases hb
  | _ => cases ha

theorem looselyEqual_int : (int m).looselyEqual (int n) = true ↔ m = n := beq_iff_eq

theorem holds_compare {i j : Int} :
    Expr.Eval.holds .lessOrEqual (compare i j) = true ↔ i ≤ j := by
  simp only [Expr.Eval.holds, bne_iff_ne, ne_eq, Int.compare_eq_gt]
  omega

theorem atMost_int : AtMost (int m) (int n) ↔ m.toInt ≤ n.toInt := holds_compare

theorem atMost_iff_level (ha : a.isFiniteNumber = true) (hb : b.isFiniteNumber = true)
    (h : ¬ BothInts a b) : AtMost a b ↔ a.level ≤ b.level := by
  rw [AtMost, (compared_as_floats ha hb h).1]
  exact holds_compare

theorem level_le (ha : a.isFiniteNumber = true) (hb : b.isFiniteNumber = true) (h : AtMost a b) :
    a.level ≤ b.level := by
  by_cases hints : BothInts a b
  · obtain ⟨m, n, rfl, rfl⟩ := hints
    exact level_mono (atMost_int.1 h)
  · exact (atMost_iff_level ha hb hints).1 h

theorem level_eq (ha : a.isFiniteNumber = true) (hb : b.isFiniteNumber = true)
    (h : a.looselyEqual b = true) : a.level = b.level := by
  by_cases hints : BothInts a b
  · obtain ⟨m, n, rfl, rfl⟩ := hints
    rw [looselyEqual_int.1 h]
  · exact (compared_as_floats ha hb hints).2.1 h

/-- Order and equality agree on what is equal. -/
theorem order?_eq_iff (ha : a.isFiniteNumber = true) (hb : b.isFiniteNumber = true) :
    a.order? b = some .eq ↔ a.looselyEqual b = true := by
  by_cases hints : BothInts a b
  · obtain ⟨m, n, rfl, rfl⟩ := hints
    simp [looselyEqual_int, order?, Int64.toInt_inj]
  · obtain ⟨horder, hequal⟩ := compared_as_floats ha hb hints
    simp [horder, hequal]

/-- Two different integers, and a float between them that both are converted to. -/
def Blurred (a b c : Value) : Prop :=
  ∃ m n y, a = int m ∧ b = float y ∧ c = int n ∧ m ≠ n ∧
    (Binary64.ofInt m.toInt).equals y = true ∧ (Binary64.ofInt n.toInt).equals y = true

theorem blurred_of_level {y : Binary64} (hy : y.isFinite = true) (hne : m ≠ n)
    (hm : (int m).level = (float y).level) (hn : (int n).level = (float y).level) :
    Blurred (int m) (float y) (int n) :=
  ⟨m, n, y, rfl, rfl, rfl, hne, (Binary64.equals_iff (Binary64.ofInt_int64 m).1 hy).2 hm,
    (Binary64.equals_iff (Binary64.ofInt_int64 n).1 hy).2 hn⟩

/-- Integers up to 2^53 are converted to different floats. -/
theorem Blurred.beyond (hb : b.isFiniteNumber = true) (h : Blurred a b c) :
    ∃ n, (a = int n ∨ c = int n) ∧ 2 ^ 53 < n.toInt.natAbs := by
  obtain ⟨m, n, y, rfl, rfl, rfl, hne, hm, hn⟩ := h
  by_contra hsmall
  have hm53 : m.toInt.natAbs ≤ 2 ^ 53 :=
    Nat.le_of_not_lt fun hlt => hsmall ⟨m, Or.inl rfl, hlt⟩
  have hn53 : n.toInt.natAbs ≤ 2 ^ 53 :=
    Nat.le_of_not_lt fun hlt => hsmall ⟨n, Or.inr rfl, hlt⟩
  have hlevel : (int m).level = (int n).level :=
    ((Binary64.equals_iff (Binary64.ofInt_int64 m).1 hb).1 hm).trans
      ((Binary64.equals_iff (Binary64.ofInt_int64 n).1 hb).1 hn).symm
  rw [level_of_le hm53, level_of_le hn53] at hlevel
  have hunits : (Binary64.unitsOfOne : Int) ≠ 0 :=
    Int.natCast_ne_zero.2 Binary64.unitsOfOne_pos.ne'
  exact hne (Int64.toInt_inj.1 (Int.eq_of_mul_eq_mul_right hunits hlevel))

/-- The order is transitive or blurred. -/
theorem atMost_trans (ha : a.isFiniteNumber = true) (hb : b.isFiniteNumber = true)
    (hc : c.isFiniteNumber = true) (hab : AtMost a b) (hbc : AtMost b c) :
    AtMost a c ∨ Blurred a b c ∧ AtMost c a := by
  have hlab := level_le ha hb hab
  have hlbc := level_le hb hc hbc
  by_cases hints : BothInts a c
  · obtain ⟨m, n, rfl, rfl⟩ := hints
    cases b with
    | int k => exact Or.inl (atMost_int.2 ((atMost_int.1 hab).trans (atMost_int.1 hbc)))
    | float y =>
      rcases Int.lt_or_le n.toInt m.toInt with hlt | hle
      · -- converted, they are in the right order too, so they have one level with the float
        have hlevel := level_mono hlt.le
        have hne : m ≠ n := fun he => (he ▸ hlt).ne rfl
        exact Or.inr ⟨blurred_of_level hb hne (by omega) (by omega), atMost_int.2 hlt.le⟩
      · exact Or.inl (atMost_int.2 hle)
    | _ => cases hb
  · exact Or.inl ((atMost_iff_level ha hc hints).2 (hlab.trans hlbc))

theorem looselyEqual_trans (ha : a.isFiniteNumber = true) (hb : b.isFiniteNumber = true)
    (hc : c.isFiniteNumber = true) (hab : a.looselyEqual b = true) (hbc : b.looselyEqual c = true) :
    a.looselyEqual c = true ∨ Blurred a b c := by
  have hlab := level_eq ha hb hab
  have hlbc := level_eq hb hc hbc
  by_cases hints : BothInts a c
  · obtain ⟨m, n, rfl, rfl⟩ := hints
    cases b with
    | int k =>
      have he := (looselyEqual_int.1 hab).trans (looselyEqual_int.1 hbc)
      exact Or.inl (looselyEqual_int.2 he)
    | float y =>
      by_cases he : m = n
      · exact Or.inl (looselyEqual_int.2 he)
      · exact Or.inr (blurred_of_level hb he hlab hlbc.symm)
    | _ => cases hb
  · exact Or.inl ((compared_as_floats ha hc hints).2.2 (hlab.trans hlbc))

theorem Blurred.not_looselyEqual (h : Blurred a b c) : ¬ a.looselyEqual c = true := by
  obtain ⟨m, n, y, rfl, rfl, rfl, hne, _⟩ := h
  exact fun he => hne (looselyEqual_int.1 he)

theorem Blurred.not_atMost (h : Blurred a b c) (hca : AtMost c a) : ¬ AtMost a c := by
  obtain ⟨m, n, y, rfl, rfl, rfl, hne, _⟩ := h
  intro hac
  have hle := atMost_int.1 hac
  have hge := atMost_int.1 hca
  exact hne (Int64.toInt_inj.1 (by omega))

/-- Numbers are ordered and equal coherently, whichever of them are floats: the order is transitive,
and so is equality, except exactly where a float stands between different integers that are converted
to it. Then one of the integers lies beyond 2^53. -/
theorem comparisons_cohere (ha : a.isFiniteNumber = true) (hb : b.isFiniteNumber = true)
    (hc : c.isFiniteNumber = true) :
    (AtMost a b → AtMost b c → (AtMost a c ↔ ¬ (Blurred a b c ∧ AtMost c a))) ∧
      (a.looselyEqual b = true → b.looselyEqual c = true →
        (a.looselyEqual c = true ↔ ¬ Blurred a b c)) ∧
      (Blurred a b c → ∃ n, (a = int n ∨ c = int n) ∧ 2 ^ 53 < n.toInt.natAbs) ∧
      (a.order? b = some .eq ↔ a.looselyEqual b = true) := by
  refine ⟨fun hab hbc => ?_, fun hab hbc => ?_, Blurred.beyond hb, order?_eq_iff ha hb⟩
  · exact ⟨fun hac h => h.1.not_atMost h.2 hac, (atMost_trans ha hb hc hab hbc).resolve_right⟩
  · exact ⟨fun hac h => h.not_looselyEqual hac, (looselyEqual_trans ha hb hc hab hbc).resolve_right⟩

/-- The float 2^53. From there on, floats are further apart than integers. -/
def coarse : Value := float ⟨0x4340000000000000⟩

/-- Two integers in the right order, with a float between them that the first is converted to. -/
theorem coarse_between :
    coarse.isFiniteNumber = true ∧ AtMost (int 9007199254740993) coarse ∧
      AtMost coarse (int 9007199254740994) ∧
      AtMost (int 9007199254740993) (int 9007199254740994) := by
  have hfinite : coarse.isFiniteNumber = true := by decide +kernel
  have hab : AtMost (int 9007199254740993) coarse := by decide +kernel
  have hbc : AtMost coarse (int 9007199254740994) := by decide +kernel
  have hca : ¬ AtMost (int 9007199254740994) (int 9007199254740993) := by decide +kernel
  obtain ⟨horder, -⟩ := comparisons_cohere (a := int 9007199254740993)
    (c := int 9007199254740994) rfl hfinite rfl
  exact ⟨hfinite, hab, hbc, (horder hab hbc).2 fun h => hca h.2⟩

/-- The float equals the integer that it is and the next one, which are not equal to each other and in
the wrong order. -/
theorem coarse_blurs :
    coarse.isFiniteNumber = true ∧
      (AtMost (int 9007199254740993) coarse ∧ AtMost coarse (int 9007199254740992) ∧
        ¬ AtMost (int 9007199254740993) (int 9007199254740992)) ∧
      (int 9007199254740993).looselyEqual coarse = true ∧
      coarse.looselyEqual (int 9007199254740992) = true ∧
      (int 9007199254740993).looselyEqual (int 9007199254740992) = false := by
  decide +kernel

end Value
end ChatFlow
