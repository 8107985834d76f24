import TradingMatcher.RoundToNearest

/-!
# Relative errors

Two numbers are near if each is within some factors `1 - u` of the other.  The
factors add up along products, quotients and roundings, so that the error of a
computed number is the number of roundings on the way to it.
-/

namespace TradingMatcher

variable {K : Type*} [Field K] [LinearOrder K]

/-- Each number reaches the other one up to `n` factors `1 - u`. -/
structure Near (u : K) (n : ℕ) (x y : K) : Prop where
  le : x * (1 - u) ^ n ≤ y
  ge : y * (1 - u) ^ n ≤ x

namespace Near

variable {u : K} {m n : ℕ} {x y z w : K}

theorem symm (near : Near u n x y) : Near u n y x := ⟨near.ge, near.le⟩

variable [IsStrictOrderedRing K]

theorem pos (small : u < 1) (above : 0 < x) (near : Near u n x y) : 0 < y :=
  (mul_pos above (pow_pos (sub_pos.mpr small) n)).trans_le near.le

theorem refl (nonneg : 0 ≤ u) (small : u ≤ 1) (above : 0 ≤ x) :
    Near u n x x := by
  have factor : (1 - u) ^ n ≤ 1 :=
    pow_le_one₀ (sub_nonneg.mpr small) (sub_le_self 1 nonneg)
  exact ⟨mul_le_of_le_one_right above factor,
    mul_le_of_le_one_right above factor⟩

/-- One half of `trans`. -/
theorem le_chain (small : u ≤ 1) (first : x * (1 - u) ^ m ≤ y)
    (second : y * (1 - u) ^ n ≤ z) : x * (1 - u) ^ (m + n) ≤ z := by
  have factor : 0 ≤ (1 - u) ^ n := pow_nonneg (sub_nonneg.mpr small) n
  calc x * (1 - u) ^ (m + n) = x * (1 - u) ^ m * (1 - u) ^ n := by
        rw [pow_add, mul_assoc]
    _ ≤ y * (1 - u) ^ n := mul_le_mul_of_nonneg_right first factor
    _ ≤ z := second

theorem trans (small : u ≤ 1) (first : Near u m x y) (second : Near u n y z) :
    Near u (m + n) x z := by
  refine ⟨le_chain small first.le second.le, ?_⟩
  rw [add_comm]
  exact le_chain small second.ge first.ge

theorem mono (nonneg : 0 ≤ u) (small : u ≤ 1) (above : 0 ≤ x) (aboveY : 0 ≤ y)
    (fewer : m ≤ n) (near : Near u m x y) : Near u n x y := by
  have factors : (1 - u) ^ n ≤ (1 - u) ^ m :=
    pow_le_pow_of_le_one (sub_nonneg.mpr small) (sub_le_self 1 nonneg) fewer
  exact ⟨(mul_le_mul_of_nonneg_left factors above).trans near.le,
    (mul_le_mul_of_nonneg_left factors aboveY).trans near.ge⟩

/-- One half of `mul`. -/
theorem le_product (small : u ≤ 1) (aboveY : 0 ≤ y) (aboveZ : 0 ≤ z)
    (first : x * (1 - u) ^ m ≤ y) (second : z * (1 - u) ^ n ≤ w) :
    x * z * (1 - u) ^ (m + n) ≤ y * w := by
  have factor : 0 ≤ (1 - u) ^ n := pow_nonneg (sub_nonneg.mpr small) n
  calc x * z * (1 - u) ^ (m + n) = x * (1 - u) ^ m * (z * (1 - u) ^ n) := by
        rw [pow_add, mul_mul_mul_comm]
    _ ≤ y * w := mul_le_mul first second (mul_nonneg aboveZ factor) aboveY

theorem mul (small : u ≤ 1) (aboveX : 0 ≤ x) (aboveY : 0 ≤ y) (aboveZ : 0 ≤ z)
    (aboveW : 0 ≤ w) (first : Near u m x y) (second : Near u n z w) :
    Near u (m + n) (x * z) (y * w) :=
  ⟨le_product small aboveY aboveZ first.le second.le,
    le_product small aboveX aboveW first.ge second.ge⟩

/-- One half of `inv`. -/
theorem le_reciprocal (aboveX : 0 < x) (aboveY : 0 < y)
    (bound : y * (1 - u) ^ n ≤ x) : x⁻¹ * (1 - u) ^ n ≤ y⁻¹ := by
  rw [← div_eq_inv_mul, div_le_iff₀ aboveX, ← div_eq_inv_mul,
    le_div_iff₀ aboveY, mul_comm]
  exact bound

theorem inv (aboveX : 0 < x) (aboveY : 0 < y) (near : Near u n x y) :
    Near u n x⁻¹ y⁻¹ :=
  ⟨le_reciprocal aboveX aboveY near.ge, le_reciprocal aboveY aboveX near.le⟩

theorem div (small : u ≤ 1) (aboveX : 0 ≤ x) (aboveY : 0 ≤ y) (aboveZ : 0 < z)
    (aboveW : 0 < w) (first : Near u m x y) (second : Near u n z w) :
    Near u (m + n) (x / z) (y / w) := by
  rw [div_eq_mul_inv, div_eq_mul_inv]
  exact first.mul small aboveX aboveY (inv_nonneg.mpr aboveZ.le)
    (inv_nonneg.mpr aboveW.le) (second.inv aboveZ aboveW)

/-- A relative error of `u` is one factor. -/
theorem of_abs_sub_le (small : u ≤ 1) (above : 0 ≤ x)
    (close : |y - x| ≤ u * x) : Near u 1 x y := by
  obtain ⟨least, greatest⟩ := abs_le.mp close
  have base : 0 ≤ 1 - u := sub_nonneg.mpr small
  constructor <;> rw [pow_one]
  · linarith
  · calc y * (1 - u) ≤ (x + u * x) * (1 - u) :=
          mul_le_mul_of_nonneg_right (by linarith) base
      _ = x - u ^ 2 * x := by ring
      _ ≤ x := sub_le_self x (mul_nonneg (sq_nonneg u) above)

/-- A few factors are at most as many relative errors below. -/
theorem sub_le (small : u ≤ 1) (above : 0 ≤ x) (near : Near u n x y) :
    x - n * u * x ≤ y := by
  have factors : 1 + n * -u ≤ (1 + -u) ^ n :=
    one_add_mul_le_pow (by linarith) n
  calc x - n * u * x = x * (1 + n * -u) := by ring
    _ ≤ x * (1 + -u) ^ n := mul_le_mul_of_nonneg_left factors above
    _ = x * (1 - u) ^ n := by rw [sub_eq_add_neg]
    _ ≤ y := near.le

/-- Up to a half in all, a factor counts at most twice above. -/
theorem le_add (nonneg : 0 ≤ u) (small : u ≤ 1) (few : n * u ≤ 1 / 2)
    (aboveY : 0 ≤ y) (near : Near u n x y) : y ≤ x + 2 * (n * u) * x := by
  have below := near.symm.sub_le small aboveY
  have errors : 0 ≤ n * u := mul_nonneg n.cast_nonneg nonneg
  have grows : 1 ≤ (1 - n * u) * (1 + 2 * (n * u)) := by
    have gain : 0 ≤ n * u * (1 - 2 * (n * u)) :=
      mul_nonneg errors (by linarith)
    linarith
  calc y = y * 1 := (mul_one y).symm
    _ ≤ y * ((1 - n * u) * (1 + 2 * (n * u))) :=
        mul_le_mul_of_nonneg_left grows aboveY
    _ = (y - n * u * y) * (1 + 2 * (n * u)) := by ring
    _ ≤ x * (1 + 2 * (n * u)) :=
        mul_le_mul_of_nonneg_right below (by linarith)
    _ = x + 2 * (n * u) * x := by ring

end Near

namespace RoundToNearest

/-- Rounding is one factor. -/
theorem round_near (precision : ℕ) {x : ℚ} (above : 0 ≤ x) :
    Near (1 / 2 ^ precision) 1 x (round precision x) := by
  have small : 1 / 2 ^ precision ≤ (1 : ℚ) :=
    div_le_one_of_le₀ (one_le_pow₀ one_le_two) (by positivity)
  apply Near.of_abs_sub_le small above
  have error := abs_round_sub_le precision x
  rw [abs_of_nonneg above] at error
  rwa [one_div_mul_eq_div]

end RoundToNearest

end TradingMatcher
