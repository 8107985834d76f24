import Mathlib.Data.Int.Log
import Mathlib.Tactic

/-!
# Rounding to nearest, ties to even

Rounding of a rational number to a number of significant bits, as binary
floating point does it in the range of its normal numbers: the number is scaled
by the power of two that is its last place, rounded to an integer and scaled
back.
-/

namespace TradingMatcher

namespace RoundToNearest

/-- The nearest integer, the even one of two. -/
def halfEven (x : ℚ) : ℤ :=
  if Int.fract x < 1 / 2 then ⌊x⌋
  else if 1 / 2 < Int.fract x then ⌊x⌋ + 1
  else if Even ⌊x⌋ then ⌊x⌋ else ⌊x⌋ + 1

theorem floor_le_halfEven (x : ℚ) : ⌊x⌋ ≤ halfEven x := by
  unfold halfEven
  split_ifs <;> omega

theorem halfEven_le_floor_add_one (x : ℚ) : halfEven x ≤ ⌊x⌋ + 1 := by
  unfold halfEven
  split_ifs <;> omega

@[simp]
theorem halfEven_intCast (n : ℤ) : halfEven n = n := by
  unfold halfEven
  rw [if_pos (by simp), Int.floor_intCast]

@[simp]
theorem halfEven_zero : halfEven 0 = 0 := by
  exact_mod_cast halfEven_intCast 0

theorem abs_halfEven_sub_le (x : ℚ) : |halfEven x - x| ≤ 1 / 2 := by
  have split := Int.floor_add_fract x
  have nonneg := Int.fract_nonneg x
  have small := Int.fract_lt_one x
  unfold halfEven
  rw [abs_le]
  split_ifs <;> push_cast <;> constructor <;> linarith

theorem halfEven_mono {x y : ℚ} (le : x ≤ y) : halfEven x ≤ halfEven y := by
  rcases (Int.floor_le_floor le).lt_or_eq with below | same
  · calc halfEven x ≤ ⌊x⌋ + 1 := halfEven_le_floor_add_one x
      _ ≤ ⌊y⌋ := below
      _ ≤ halfEven y := floor_le_halfEven y
  · have fractLe : Int.fract x ≤ Int.fract y := by
      rw [Int.fract, Int.fract, same]
      exact sub_le_sub_right le _
    unfold halfEven
    rw [same]
    -- The fraction of `x` is on the same side of the half as that of `y`, or
    -- below it.
    split_ifs <;> first | omega | linarith

variable (precision : ℕ)

/-- The unit in the last place. -/
def ulp (x : ℚ) : ℚ := 2 ^ (Int.log 2 |x| + 1 - precision)

/-- The number with `precision` significant bits that is nearest. -/
def round (x : ℚ) : ℚ := halfEven (x / ulp precision x) * ulp precision x

/-- The numbers with at most `precision` significant bits. -/
def Representable (x : ℚ) : Prop :=
  ∃ (m : ℤ) (e : ℤ), |m| ≤ 2 ^ precision ∧ x = m * 2 ^ e

variable {precision} {x y : ℚ}

@[simp]
theorem round_zero : round precision 0 = 0 := by
  simp [round]

theorem ulp_pos (x : ℚ) : 0 < ulp precision x := by
  unfold ulp
  positivity

/-- The last of `precision` places and their number give the power of two above
the number. -/
theorem two_pow_mul_ulp (precision : ℕ) (x : ℚ) :
    2 ^ precision * ulp precision x = 2 ^ (Int.log 2 |x| + 1) := by
  have exponents : (precision : ℤ) + (Int.log 2 |x| + 1 - precision) =
      Int.log 2 |x| + 1 := by ring
  rw [ulp, ← zpow_natCast, ← zpow_add₀ two_ne_zero, exponents]

theorem abs_div_ulp_lt (precision : ℕ) (x : ℚ) :
    |x / ulp precision x| < 2 ^ precision := by
  rw [abs_div, abs_of_pos (ulp_pos x), div_lt_iff₀ (ulp_pos x),
    two_pow_mul_ulp]
  exact_mod_cast Int.lt_zpow_succ_log_self one_lt_two |x|

theorem representable_round (x : ℚ) :
    Representable precision (round precision x) := by
  refine ⟨_, _, ?_, rfl⟩
  have scaled := abs_div_ulp_lt precision x
  generalize x / ulp precision x = y at scaled ⊢
  obtain ⟨least, greatest⟩ := abs_lt.mp scaled
  have lower : -2 ^ precision ≤ ⌊y⌋ := by
    rw [Int.le_floor]
    push_cast
    exact least.le
  have upper : ⌊y⌋ < 2 ^ precision := by
    rw [Int.floor_lt]
    push_cast
    exact greatest
  have := floor_le_halfEven y
  have := halfEven_le_floor_add_one y
  rw [abs_le]
  constructor <;> omega

/-- The relative error of rounding. -/
theorem abs_round_sub_le (precision : ℕ) (x : ℚ) :
    |round precision x - x| ≤ |x| / 2 ^ precision := by
  by_cases zero : x = 0
  · simp [zero]
  · have positive : 0 < ulp precision x := ulp_pos x
    have error : |round precision x - x| =
        |halfEven (x / ulp precision x) - x / ulp precision x| *
          ulp precision x := by
      rw [← abs_of_pos positive, ← abs_mul, abs_of_pos positive, sub_mul,
        div_mul_cancel₀ _ positive.ne', round]
    have half := mul_le_mul_of_nonneg_right
      (abs_halfEven_sub_le (x / ulp precision x)) positive.le
    have above := Int.zpow_log_le_self (b := 2) one_lt_two (abs_pos.mpr zero)
    have halves := two_pow_mul_ulp precision x
    rw [zpow_add_one₀ two_ne_zero] at halves
    push_cast at above
    rw [error, le_div_iff₀ (by positivity)]
    calc |halfEven (x / ulp precision x) - x / ulp precision x| *
          ulp precision x * 2 ^ precision
        ≤ 1 / 2 * ulp precision x * 2 ^ precision := by gcongr
      _ = 2 ^ Int.log 2 |x| := by linarith
      _ ≤ |x| := above

/-- A significand can be taken to be less than its bound. -/
theorem Representable.exists_lt (positive : 0 < precision)
    (representable : Representable precision x) :
    ∃ (m : ℤ) (e : ℤ), |m| < 2 ^ precision ∧ x = m * 2 ^ e := by
  obtain ⟨m, e, bound, rfl⟩ := representable
  rcases bound.lt_or_eq with below | extreme
  · exact ⟨m, e, below, rfl⟩
  · have one : (1 : ℤ) < 2 ^ precision :=
      one_lt_pow₀ one_lt_two positive.ne'
    refine ⟨m.sign, e + precision, ?_, ?_⟩
    · have nonzero : m ≠ 0 := by
        rintro rfl
        simp at extreme
        omega
      rwa [Int.abs_sign_of_ne_zero nonzero]
    · have split : (m : ℚ) = m.sign * 2 ^ precision := by
        have split := Int.sign_mul_abs m
        rw [extreme] at split
        exact_mod_cast split.symm
      rw [zpow_add₀ two_ne_zero, zpow_natCast, split]
      ring

/-- Rounding leaves the representable numbers as they are. -/
theorem Representable.round_eq (positive : 0 < precision)
    (representable : Representable precision x) : round precision x = x := by
  obtain ⟨m, e, bound, same⟩ := representable.exists_lt positive
  by_cases zero : x = 0
  · rw [zero, round_zero]
  · -- The unit in the last place divides the number.
    have small : |x| < 2 ^ (precision + e) := by
      have positive : (0 : ℚ) < 2 ^ e := by positivity
      rw [same, abs_mul, abs_of_pos positive, zpow_add₀ two_ne_zero,
        zpow_natCast]
      gcongr
      exact_mod_cast bound
    have log : Int.log 2 |x| < precision + e := by
      rw [← Int.lt_zpow_iff_log_lt one_lt_two (abs_pos.mpr zero)]
      exact_mod_cast small
    obtain ⟨k, exponent⟩ := Int.eq_ofNat_of_zero_le
      (show 0 ≤ e - (Int.log 2 |x| + 1 - precision) by omega)
    have quotient : x / ulp precision x = (m * 2 ^ k : ℤ) := by
      rw [div_eq_iff (ulp_pos x).ne', ulp]
      push_cast
      rw [mul_assoc, ← zpow_natCast, ← exponent, ← zpow_add₀ two_ne_zero,
        sub_add_cancel]
      exact same
    rw [round, quotient, halfEven_intCast, ← quotient,
      div_mul_cancel₀ _ (ulp_pos x).ne']

theorem representable_of_le {n : ℤ} (bound : |n| ≤ 2 ^ precision) :
    Representable precision n :=
  ⟨n, 0, bound, by simp⟩

theorem Representable.half (representable : Representable precision x) :
    Representable precision (x / 2) := by
  obtain ⟨m, e, bound, rfl⟩ := representable
  refine ⟨m, e - 1, bound, ?_⟩
  rw [zpow_sub₀ two_ne_zero, zpow_one, mul_div_assoc]

/-- Rounding commutes with doubling. -/
theorem round_two_mul (x : ℚ) :
    round precision (2 * x) = 2 * round precision x := by
  by_cases zero : x = 0
  · simp [zero]
  · have positive : 0 < |x| := abs_pos.mpr zero
    have double : |2 * x| = |x| * 2 := by
      rw [abs_mul, abs_two, mul_comm]
    have log : Int.log 2 |2 * x| = Int.log 2 |x| + 1 := by
      rw [double]
      apply le_antisymm
      · rw [← Int.lt_add_one_iff, ← Int.lt_zpow_iff_log_lt one_lt_two
          (by positivity)]
        have below := Int.lt_zpow_succ_log_self (b := 2) one_lt_two |x|
        push_cast at below ⊢
        rw [zpow_add_one₀ two_ne_zero]
        linarith
      · rw [← Int.zpow_le_iff_le_log one_lt_two (by positivity)]
        have above := Int.zpow_log_le_self (b := 2) one_lt_two positive
        push_cast at above ⊢
        rw [zpow_add_one₀ two_ne_zero]
        linarith
    have doubleUlp : ulp precision (2 * x) = 2 * ulp precision x := by
      have exponents : Int.log 2 |x| + 1 + 1 - (precision : ℤ) =
          Int.log 2 |x| + 1 - precision + 1 := by ring
      rw [ulp, ulp, log, exponents, zpow_add_one₀ two_ne_zero, mul_comm]
    rw [round, round, doubleUlp, mul_div_mul_left _ _ two_ne_zero]
    ring

/-- Rounding up does not go past the power of two above. -/
theorem round_le_zpow (x : ℚ) :
    round precision x ≤ 2 ^ (Int.log 2 |x| + 1) := by
  rw [← two_pow_mul_ulp, round]
  apply mul_le_mul_of_nonneg_right _ (ulp_pos x).le
  have scaled := (abs_lt.mp (abs_div_ulp_lt precision x)).2
  have whole : halfEven (2 ^ precision) = 2 ^ precision := by
    exact_mod_cast halfEven_intCast (2 ^ precision)
  have rounded := halfEven_mono scaled.le
  rw [whole] at rounded
  exact_mod_cast rounded

/-- Rounding down does not go past the power of two below. -/
theorem zpow_le_round (positive : 0 < precision) (above : 0 < x) :
    2 ^ Int.log 2 |x| ≤ round precision x := by
  obtain ⟨fewer, rfl⟩ := Nat.exists_eq_succ_of_ne_zero positive.ne'
  have power : (2 : ℚ) ^ Int.log 2 |x| =
      2 ^ fewer * ulp (fewer + 1) x := by
    have halves := two_pow_mul_ulp (fewer + 1) x
    rw [pow_succ, zpow_add_one₀ two_ne_zero] at halves
    linarith
  rw [power, round]
  apply mul_le_mul_of_nonneg_right _ (ulp_pos x).le
  have scaled : 2 ^ fewer ≤ x / ulp (fewer + 1) x := by
    rw [le_div_iff₀ (ulp_pos x), ← power]
    have below := Int.zpow_log_le_self (b := 2) one_lt_two
      (abs_pos.mpr above.ne')
    rw [abs_of_pos above] at below ⊢
    exact_mod_cast below
  have whole : halfEven (2 ^ fewer) = 2 ^ fewer := by
    exact_mod_cast halfEven_intCast (2 ^ fewer)
  have rounded := halfEven_mono scaled
  rw [whole] at rounded
  exact_mod_cast rounded

theorem round_nonneg (above : 0 ≤ x) : 0 ≤ round precision x := by
  have scaled : 0 ≤ x / ulp precision x := div_nonneg above (ulp_pos x).le
  have rounded := halfEven_mono scaled
  rw [halfEven_zero] at rounded
  exact mul_nonneg (by exact_mod_cast rounded) (ulp_pos x).le

/-- Rounding keeps the order. -/
theorem round_mono (positive : 0 < precision) (above : 0 ≤ x) (le : x ≤ y) :
    round precision x ≤ round precision y := by
  rcases above.eq_or_lt with rfl | above
  · rw [round_zero]
    exact round_nonneg le
  · have aboveY := above.trans_le le
    have logs : Int.log 2 |x| ≤ Int.log 2 |y| := by
      rw [abs_of_pos above, abs_of_pos aboveY]
      exact Int.log_mono_right above le
    rcases logs.lt_or_eq with below | same
    · -- A power of two lies between the two.
      calc round precision x ≤ 2 ^ (Int.log 2 |x| + 1) := round_le_zpow x
        _ ≤ 2 ^ Int.log 2 |y| := zpow_le_zpow_right₀ one_le_two below
        _ ≤ round precision y := zpow_le_round positive aboveY
    · have sameUlp : ulp precision x = ulp precision y := by
        rw [ulp, ulp, same]
      rw [round, round, sameUlp]
      apply mul_le_mul_of_nonneg_right _ (ulp_pos y).le
      have scaled : x / ulp precision y ≤ y / ulp precision y :=
        div_le_div_of_nonneg_right le (ulp_pos y).le
      exact_mod_cast halfEven_mono scaled

end RoundToNearest

end TradingMatcher
