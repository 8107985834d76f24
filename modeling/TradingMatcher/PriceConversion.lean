import TradingMatcher.LatencyStats

/-!
# Prices as doubles

A price is kept as a whole number of millionths and shown as a double.  The way
back scales, adds a half and drops the fraction, which rounds to the nearest
price only above zero: every negative price comes back one millionth higher.
-/

namespace TradingMatcher

open RoundToNearest SignedArithmetic

/-- `PRICE_SCALE` -/
def priceScale : Int := 1000000

/-- Conversion of a double to an integer, which drops the fraction. -/
def truncate (x : ℚ) : ℤ := if 0 ≤ x then ⌊x⌋ else ⌈x⌉

namespace Order

def priceAsDouble (order : Order) : ℚ :=
  toDouble (toDouble order.priceScaled.toInt / toDouble priceScale)

/-- The price, or `none` where the number is out of its range, for which the
conversion is undefined. -/
def doubleToPrice (price : ℚ) : Option Price :=
  let scaled := truncate
    (toDouble (toDouble (price * toDouble priceScale) + toDouble (1 / 2)))
  if Fits scaled then some (Int64.ofInt scaled) else none

end Order

@[simp]
theorem toDouble_priceScale : toDouble priceScale = 1000000 := by
  rw [toDouble_eq (by decide)]
  rfl

@[simp]
theorem toDouble_one_half : toDouble (1 / 2) = 1 / 2 := by
  have one : toDouble (1 : ℤ) = (1 : ℤ) := toDouble_eq (by decide)
  have half := toDouble_half (1 : ℤ)
  rw [one] at half
  exact half

/-- The error of one operation. -/
theorem toDouble_within {x bound : ℚ} (small : |x| ≤ bound) :
    |toDouble x - x| ≤ bound / 2 ^ 53 :=
  (abs_round_sub_le 53 x).trans
    (div_le_div_of_nonneg_right small (by positivity))

/-- A number strictly between two neighbours is truncated towards zero. -/
theorem truncate_between {x : ℚ} {n : ℤ} (above : n < x) (below : x < n + 1) :
    truncate x = if 0 ≤ n then n else n + 1 := by
  unfold truncate
  by_cases nonneg : 0 ≤ n
  · have positive : 0 ≤ x := by
      have : (0 : ℚ) ≤ n := by exact_mod_cast nonneg
      linarith
    rw [if_pos positive, if_pos nonneg]
    exact Int.floor_eq_iff.mpr ⟨above.le, below⟩
  · have negative : ¬ 0 ≤ x := by
      have : (n : ℚ) + 1 ≤ 0 := by exact_mod_cast Int.not_le.mp nonneg
      linarith
    rw [if_neg negative, if_neg nonneg, Int.ceil_eq_iff]
    push_cast
    constructor <;> linarith

/-- A double within an eighth of a millionth of a price is converted to the
price, or to the next one if the price is negative. -/
theorem doubleToPrice_of_near {price : ℚ} {n : ℤ} (bound : |n| ≤ 2 ^ 50)
    (near : |price * 1000000 - n| ≤ 1 / 8) :
    Order.doubleToPrice price =
      some (Int64.ofInt (if 0 ≤ n then n else n + 1)) := by
  have boundQ : |(n : ℚ)| ≤ 2 ^ 50 := by exact_mod_cast bound
  obtain ⟨least, greatest⟩ := abs_le.mp boundQ
  obtain ⟨nearLeast, nearGreatest⟩ := abs_le.mp near
  have scales : |price * 1000000| ≤ 2 ^ 50 + 1 := by
    rw [abs_le]
    constructor <;> linarith
  have product := toDouble_within scales
  obtain ⟨productLeast, productGreatest⟩ := abs_le.mp product
  have adds : |toDouble (price * 1000000) + 1 / 2| ≤ 2 ^ 50 + 4 := by
    rw [abs_le]
    constructor <;> linarith
  have sum := toDouble_within adds
  obtain ⟨sumLeast, sumGreatest⟩ := abs_le.mp sum
  have above : (n : ℚ) < toDouble (toDouble (price * 1000000) + 1 / 2) := by
    linarith
  have below : toDouble (toDouble (price * 1000000) + 1 / 2) < n + 1 := by
    linarith
  unfold Order.doubleToPrice
  rw [toDouble_priceScale, toDouble_one_half,
    truncate_between above below]
  apply if_pos
  obtain ⟨least, greatest⟩ := abs_le.mp bound
  unfold Fits
  split <;> omega

/-- The double nearest to a price of up to 2^50 millionths is converted back to
the price, and to the next one if the price is negative. -/
theorem doubleToPrice_decimal {n : ℤ} (bound : |n| ≤ 2 ^ 50) :
    Order.doubleToPrice (toDouble (n / 1000000)) =
      some (Int64.ofInt (if 0 ≤ n then n else n + 1)) := by
  apply doubleToPrice_of_near bound
  have boundQ : |(n : ℚ)| ≤ 2 ^ 50 := by exact_mod_cast bound
  have quotient : |(n : ℚ) / 1000000| ≤ 2 ^ 50 / 1000000 := by
    rw [abs_div]
    norm_num
    linarith
  have near := toDouble_within quotient
  rw [abs_le] at near ⊢
  constructor <;> linarith

/-- A price of up to 2^50 millionths survives the way through a double if it is
not negative; a negative one comes back one millionth higher. -/
theorem doubleToPrice_priceAsDouble (order : Order)
    (bound : |order.priceScaled.toInt| ≤ 2 ^ 50) :
    Order.doubleToPrice order.priceAsDouble =
      some (if 0 ≤ order.priceScaled then order.priceScaled
        else order.priceScaled + 1) := by
  have exact : toDouble order.priceScaled.toInt = order.priceScaled.toInt :=
    toDouble_eq (bound.trans (by norm_num))
  rw [Order.priceAsDouble, exact, toDouble_priceScale,
    doubleToPrice_decimal bound]
  congr 1
  by_cases nonneg : 0 ≤ order.priceScaled
  · have : 0 ≤ order.priceScaled.toInt := Int64.le_iff_toInt_le.mp nonneg
    rw [if_pos nonneg, if_pos this, Int64.ofInt_toInt]
  · have : ¬ 0 ≤ order.priceScaled.toInt := fun le =>
      nonneg (Int64.le_iff_toInt_le.mpr le)
    rw [if_neg nonneg, if_neg this, Int64.ofInt_add, Int64.ofInt_toInt]
    rfl

theorem doubleToPrice_priceAsDouble_hundred :
    Order.doubleToPrice (Order.new 1 true 5 100500000 0).priceAsDouble =
        some 100500000 ∧
      Order.doubleToPrice (Order.new 1 true 5 (-100500000) 0).priceAsDouble =
        some (-100499999) :=
  ⟨doubleToPrice_priceAsDouble (Order.new 1 true 5 100500000 0) (by decide),
    doubleToPrice_priceAsDouble (Order.new 1 true 5 (-100500000) 0) (by decide)⟩

/-- The price that the producer of the demonstration computes. -/
def producerPrice (i : Nat) : Option Price :=
  Order.doubleToPrice
    (toDouble (100 + toDouble (toDouble i * toDouble (1 / 10))))

/-- For every `int` that the loop may count to, the price of the producer is the
exact multiple of its tick. -/
theorem producerPrice_eq {i : Nat} (isInt : i < 2 ^ 31) :
    producerPrice i = some (Int64.ofInt (100000000 + 100000 * i)) := by
  have iBound : (i : ℚ) ≤ 2 ^ 31 := by exact_mod_cast isInt.le
  have iNonneg : (0 : ℚ) ≤ i := Nat.cast_nonneg i
  have iExact : toDouble i = i := by
    have small : |(i : ℤ)| ≤ 2 ^ 53 := by
      rw [abs_of_nonneg (Int.natCast_nonneg i)]
      omega
    exact_mod_cast toDouble_eq small
  have tick : |toDouble (1 / 10) - 1 / 10| ≤ 1 / 10 / 2 ^ 53 :=
    toDouble_within (by norm_num)
  have scaledTick : |i * toDouble (1 / 10) - i / 10| ≤
      2 ^ 31 * (1 / 10 / 2 ^ 53) := by
    have factor : i * toDouble (1 / 10) - i / 10 =
        i * (toDouble (1 / 10) - 1 / 10) := by ring
    rw [factor, abs_mul, abs_of_nonneg iNonneg]
    exact mul_le_mul iBound tick (abs_nonneg _) (by positivity)
  rw [abs_le] at scaledTick
  have multiplies : |i * toDouble (1 / 10)| ≤ 2 ^ 31 / 10 + 1 := by
    rw [abs_le]
    constructor <;> linarith
  have product := toDouble_within multiplies
  rw [abs_le] at product
  have adds : |100 + toDouble (i * toDouble (1 / 10))| ≤ 2 ^ 31 / 10 + 102 := by
    rw [abs_le]
    constructor <;> linarith
  have sum := toDouble_within adds
  rw [abs_le] at sum
  have bound : |(100000000 + 100000 * i : ℤ)| ≤ 2 ^ 50 := by
    rw [abs_of_nonneg (by omega)]
    omega
  rw [producerPrice, iExact, doubleToPrice_of_near bound]
  · rw [if_pos (by omega)]
  · rw [abs_le]
    push_cast
    constructor <;> linarith

theorem producerPrice_eq_last : producerPrice 9 = some 100900000 :=
  producerPrice_eq (by decide)

end TradingMatcher
