import Mathlib.Algebra.Order.Floor.Semifield
import TradingMatcher.OrderStatistics
import TradingMatcher.Order
import TradingMatcher.RoundToNearest
import TradingMatcher.SignedArithmetic

/-!
# Latency statistics

`calculateStats` sorts the samples and picks its percentiles by index.  The
percentiles, the median and the mean are doubles: a sample is rounded when it is
stored in one.  The product of a share and the number of samples is taken
exactly.
-/

namespace TradingMatcher

open SignedArithmetic OrderStatistics

/-- Conversion to `double`, whose values here are zero or in the normal range. -/
def toDouble (x : ℚ) : ℚ := RoundToNearest.round 53 x

/-- The mean and the median are missing where the sum they need overflows. -/
structure LatencyStats where
  minUs : Int64
  maxUs : Int64
  meanUs : Option ℚ
  medianUs : Option ℚ
  p50Us : ℚ
  p90Us : ℚ
  p95Us : ℚ
  p99Us : ℚ
  p999Us : ℚ
  count : Nat

/-- The statistics of no samples. -/
def LatencyStats.zero : LatencyStats where
  minUs := 0
  maxUs := 0
  meanUs := some 0
  medianUs := some 0
  p50Us := 0
  p90Us := 0
  p95Us := 0
  p99Us := 0
  p999Us := 0
  count := 0

/-- The index of a percentile: the floor of the product, or the last index. -/
def percentileIndex (size : Nat) (p : ℚ) : Nat :=
  if size ≤ ⌊p * size⌋₊ then size - 1 else ⌊p * size⌋₊

def percentile (sorted : List Int64) (p : ℚ) : ℚ :=
  toDouble (sorted.getD (percentileIndex sorted.length p) 0).toInt

/-- The middle sample, or the mean of the two middle ones. -/
def median (sorted : List Int64) : Option ℚ :=
  let mid := sorted.length / 2
  if sorted.length % 2 = 0 then
    (add? (sorted.getD (mid - 1) 0) (sorted.getD mid 0)).map fun sum =>
      toDouble (toDouble sum.toInt / 2)
  else some (toDouble (sorted.getD mid 0).toInt)

def mean (sorted : List Int64) : Option ℚ :=
  (sorted.foldlM add? 0).map fun sum =>
    toDouble (toDouble sum.toInt / toDouble sorted.length)

def calculateStats (latenciesUs : List Int64) : LatencyStats :=
  if latenciesUs = [] then .zero
  else
    let sorted := latenciesUs.insertionSort (· ≤ ·)
    { minUs := sorted.headD 0
      maxUs := sorted.getLastD 0
      meanUs := mean sorted
      medianUs := median sorted
      p50Us := percentile sorted 0.50
      p90Us := percentile sorted 0.90
      p95Us := percentile sorted 0.95
      p99Us := percentile sorted 0.99
      p999Us := percentile sorted 0.999
      count := latenciesUs.length }

section Doubles

theorem toDouble_mono {x y : ℚ} (above : 0 ≤ x) (le : x ≤ y) :
    toDouble x ≤ toDouble y :=
  RoundToNearest.round_mono (by decide) above le

theorem toDouble_two_mul (x : ℚ) : toDouble (2 * x) = 2 * toDouble x :=
  RoundToNearest.round_two_mul x

/-- Halving a double is exact. -/
theorem toDouble_half (x : ℚ) : toDouble (toDouble x / 2) = toDouble x / 2 :=
  (RoundToNearest.representable_round x).half.round_eq (by decide)

/-- Integers up to `2 ^ 53` are doubles. -/
theorem toDouble_eq {n : ℤ} (bound : |n| ≤ 2 ^ 53) : toDouble n = n :=
  (RoundToNearest.representable_of_le bound).round_eq (by decide)

end Doubles

section Indices

variable {size : Nat} {p q : ℚ}

theorem percentileIndex_lt (nonempty : 0 < size) (p : ℚ) :
    percentileIndex size p < size := by
  unfold percentileIndex
  split <;> omega

theorem percentileIndex_mono (le : p ≤ q) :
    percentileIndex size p ≤ percentileIndex size q := by
  have floors : ⌊p * size⌋₊ ≤ ⌊q * size⌋₊ :=
    Nat.floor_le_floor (mul_le_mul_of_nonneg_right le (Nat.cast_nonneg _))
  unfold percentileIndex
  split <;> split <;> omega

/-- Below the share one, the index needs no correction. -/
theorem percentileIndex_eq (nonempty : 0 < size) (least : 0 ≤ p)
    (below : p < 1) : percentileIndex size p = ⌊p * size⌋₊ := by
  apply if_neg
  rw [not_le, Nat.floor_lt (by positivity)]
  exact mul_lt_of_lt_one_left (by exact_mod_cast nonempty) below

theorem percentileIndex_half (nonempty : 0 < size) :
    percentileIndex size 0.50 = size / 2 := by
  have halves : (0.50 : ℚ) * size = (size : ℚ) / (2 : ℕ) := by
    push_cast
    ring
  rw [percentileIndex_eq nonempty (by norm_num) (by norm_num), halves,
    Nat.floor_div_eq_div]

end Indices

section Sorted

variable {sorted : List Int64} {p q : ℚ}

theorem getD_of_entry {index : Nat} {value : Int64}
    (entry : sorted[index]? = some value) : sorted.getD index 0 = value := by
  rw [List.getD_eq_getElem?_getD, entry, Option.getD_some]

theorem percentile_eq {value : Int64}
    (entry : sorted[percentileIndex sorted.length p]? = some value) :
    percentile sorted p = toDouble value.toInt := by
  rw [percentile, getD_of_entry entry]

theorem exists_entry (nonempty : sorted ≠ []) (p : ℚ) :
    ∃ value, sorted[percentileIndex sorted.length p]? = some value :=
  ⟨_, List.getElem?_eq_getElem
    (percentileIndex_lt (List.length_pos_iff.mpr nonempty) p)⟩

/-- The samples are not negative, and two of them can be added. -/
def Recorded (latencies : List Int64) : Prop :=
  ∀ latency ∈ latencies, 0 ≤ latency.toInt ∧ latency.toInt < 2 ^ 62

instance recordedDecidable (latencies : List Int64) :
    Decidable (Recorded latencies) :=
  List.decidableBAll
    (fun latency : Int64 => 0 ≤ latency.toInt ∧ latency.toInt < 2 ^ 62)
    latencies

theorem Recorded.toDouble_mono (recorded : Recorded sorted)
    (inOrder : sorted.Pairwise (· ≤ ·)) {index later : Nat}
    {value other : Int64} (le : index ≤ later)
    (entry : sorted[index]? = some value)
    (laterEntry : sorted[later]? = some other) :
    toDouble value.toInt ≤ toDouble other.toInt := by
  have values := getElem?_mono inOrder le entry laterEntry
  have nonneg := (recorded value (List.mem_of_getElem? entry)).1
  apply TradingMatcher.toDouble_mono
  · exact_mod_cast nonneg
  · exact_mod_cast Int64.le_iff_toInt_le.mp values

theorem Recorded.percentile_mono (recorded : Recorded sorted)
    (inOrder : sorted.Pairwise (· ≤ ·)) (nonempty : sorted ≠ [])
    (le : p ≤ q) : percentile sorted p ≤ percentile sorted q := by
  obtain ⟨value, entry⟩ := exists_entry nonempty p
  obtain ⟨other, laterEntry⟩ := exists_entry nonempty q
  rw [percentile_eq entry, percentile_eq laterEntry]
  exact recorded.toDouble_mono inOrder (percentileIndex_mono le) entry
    laterEntry

/-- The two middle samples have a mean between them, as doubles. -/
theorem exists_mean_of_two {low high : Int64} (nonneg : 0 ≤ low.toInt)
    (le : low.toInt ≤ high.toInt) (small : high.toInt < 2 ^ 62) :
    ∃ sum, add? low high = some sum ∧
      toDouble low.toInt ≤ toDouble (toDouble sum.toInt / 2) ∧
      toDouble (toDouble sum.toInt / 2) ≤ toDouble high.toInt := by
  have fits : Fits (low.toInt + high.toInt) := by
    constructor <;> omega
  obtain ⟨sum, added⟩ := exists_add?_iff.mpr fits
  have isSum := add?_eq_some_iff.mp added
  have lower : toDouble (2 * low.toInt) ≤ toDouble sum.toInt := by
    apply toDouble_mono
    · exact_mod_cast (show 0 ≤ 2 * low.toInt by omega)
    · exact_mod_cast (show 2 * low.toInt ≤ sum.toInt by omega)
  have upper : toDouble sum.toInt ≤ toDouble (2 * high.toInt) := by
    apply toDouble_mono
    · exact_mod_cast (show 0 ≤ sum.toInt by omega)
    · exact_mod_cast (show sum.toInt ≤ 2 * high.toInt by omega)
  rw [toDouble_two_mul] at lower upper
  refine ⟨sum, added, ?_, ?_⟩ <;> rw [toDouble_half] <;> linarith

/-- The median lies between the least sample and the middle one. -/
theorem Recorded.exists_median (recorded : Recorded sorted)
    (inOrder : sorted.Pairwise (· ≤ ·)) (nonempty : sorted ≠ []) :
    ∃ value, median sorted = some value ∧
      toDouble (sorted.headD 0).toInt ≤ value ∧
      value ≤ percentile sorted 0.50 := by
  have positive := List.length_pos_iff.mpr nonempty
  obtain ⟨least, first⟩ : ∃ least, sorted[0]? = some least :=
    ⟨_, List.getElem?_eq_getElem positive⟩
  obtain ⟨high, upper⟩ := exists_entry nonempty 0.50
  rw [percentile_eq upper]
  rw [percentileIndex_half positive] at upper
  have head : sorted.headD 0 = least := by
    rw [List.headD_eq_head?_getD, List.head?_eq_getElem?, first,
      Option.getD_some]
  have middle := getD_of_entry upper
  rw [head, median]
  split
  next even =>
    have before : sorted.length / 2 - 1 < sorted.length := by omega
    obtain ⟨low, lower⟩ :
        ∃ low, sorted[sorted.length / 2 - 1]? = some low :=
      ⟨_, List.getElem?_eq_getElem before⟩
    have below := getD_of_entry lower
    have le := getElem?_mono inOrder (Nat.sub_le _ 1) lower upper
    obtain ⟨sum, added, lowLe, leHigh⟩ := exists_mean_of_two
      (recorded low (List.mem_of_getElem? lower)).1
      (Int64.le_iff_toInt_le.mp le)
      (recorded high (List.mem_of_getElem? upper)).2
    refine ⟨_, by rw [below, middle, added, Option.map_some], ?_, leHigh⟩
    exact (recorded.toDouble_mono inOrder (Nat.zero_le _) first lower).trans
      lowLe
  next odd =>
    refine ⟨_, congrArg some (by rw [middle]), ?_, le_refl _⟩
    exact recorded.toDouble_mono inOrder (Nat.zero_le _) first upper

end Sorted

section Quantiles

/-- A sample with at most a share `p` of the samples below it, and at least that
share not above it. -/
structure IsQuantile (p : ℚ) (latencies : List Int64) (value : Int64) :
    Prop where
  occurs : value ∈ latencies
  below : (latencies.countP (· < value) : ℚ) ≤ p * latencies.length
  within : p * latencies.length ≤ (latencies.countP (· ≤ value) : ℚ)

/-- The entry of the sorted samples at the index of a percentile is a
quantile. -/
theorem isQuantile_of_entry {latencies : List Int64} {p : ℚ} {value : Int64}
    (nonempty : latencies ≠ []) (least : 0 ≤ p) (below : p < 1)
    (entry : (latencies.insertionSort (· ≤ ·))[percentileIndex
      latencies.length p]? = some value) :
    IsQuantile p latencies value := by
  have perm := List.perm_insertionSort (· ≤ ·) latencies
  have inOrder := List.pairwise_insertionSort (· ≤ ·) latencies
  have fewer := countP_lt_le inOrder entry
  have more := lt_countP_le inOrder entry
  rw [perm.countP_eq] at fewer more
  rw [percentileIndex_eq (List.length_pos_iff.mpr nonempty) least below]
    at fewer more
  refine ⟨perm.mem_iff.mp (List.mem_of_getElem? entry), ?_, ?_⟩
  · calc (latencies.countP (· < value) : ℚ)
        ≤ ⌊p * latencies.length⌋₊ := by exact_mod_cast fewer
      _ ≤ p * latencies.length := Nat.floor_le (by positivity)
  · calc p * latencies.length ≤ ⌊p * latencies.length⌋₊ + 1 :=
          (Nat.lt_floor_add_one _).le
      _ ≤ latencies.countP (· ≤ value) := by exact_mod_cast more

/-- The reported percentiles with the shares they are for. -/
def LatencyStats.percentiles (stats : LatencyStats) : List (ℚ × ℚ) :=
  [(0.50, stats.p50Us), (0.90, stats.p90Us), (0.95, stats.p95Us),
    (0.99, stats.p99Us), (0.999, stats.p999Us)]

/-- Each percentile is a quantile as a double, the sample itself where doubles
are exact, and the reported values are in order. -/
structure ReportsQuantiles (latencies : List Int64) (stats : LatencyStats) :
    Prop where
  quantiles : ∀ percentile ∈ stats.percentiles, ∃ value,
    IsQuantile percentile.1 latencies value ∧
      percentile.2 = toDouble value.toInt ∧
      (value.toInt ≤ 2 ^ 53 → percentile.2 = value.toInt)
  ordered : ∃ median, stats.medianUs = some median ∧
    toDouble stats.minUs.toInt ≤ median ∧ median ≤ stats.p50Us ∧
    stats.p50Us ≤ stats.p90Us ∧ stats.p90Us ≤ stats.p95Us ∧
    stats.p95Us ≤ stats.p99Us ∧ stats.p99Us ≤ stats.p999Us ∧
    stats.p999Us ≤ toDouble stats.maxUs.toInt

variable {latencies : List Int64}

theorem calculateStats_of_ne_nil (nonempty : latencies ≠ []) :
    let sorted := latencies.insertionSort (· ≤ ·)
    (calculateStats latencies).percentiles =
        ([0.50, 0.90, 0.95, 0.99, 0.999] : List ℚ).map fun p =>
          (p, percentile sorted p) := by
  rw [calculateStats, if_neg nonempty]
  rfl

theorem insertionSort_ne_nil (nonempty : latencies ≠ []) :
    latencies.insertionSort (· ≤ ·) ≠ [] := by
  rwa [ne_eq, ← List.length_eq_zero_iff, List.length_insertionSort,
    List.length_eq_zero_iff]

theorem Recorded.percentile_isQuantile (recorded : Recorded latencies)
    (nonempty : latencies ≠ []) {p : ℚ} (least : 0 ≤ p) (below : p < 1) :
    ∃ value, IsQuantile p latencies value ∧
      percentile (latencies.insertionSort (· ≤ ·)) p =
        toDouble value.toInt ∧
      (value.toInt ≤ 2 ^ 53 →
        percentile (latencies.insertionSort (· ≤ ·)) p = value.toInt) := by
  have nonemptySorted := insertionSort_ne_nil nonempty
  obtain ⟨value, entry⟩ := exists_entry nonemptySorted p
  have rounded := percentile_eq entry
  rw [List.length_insertionSort] at entry
  have quantile := isQuantile_of_entry nonempty least below entry
  refine ⟨value, quantile, rounded, ?_⟩
  intro small
  have nonneg := (recorded value quantile.occurs).1
  rw [rounded, toDouble_eq (by rwa [abs_of_nonneg nonneg])]

/-- The last of the sorted samples is above every percentile. -/
theorem Recorded.percentile_le_last {sorted : List Int64}
    (recorded : Recorded sorted) (inOrder : sorted.Pairwise (· ≤ ·))
    (nonempty : sorted ≠ []) (p : ℚ) :
    percentile sorted p ≤ toDouble (sorted.getLastD 0).toInt := by
  have positive := List.length_pos_iff.mpr nonempty
  obtain ⟨value, entry⟩ := exists_entry nonempty p
  have last : sorted[sorted.length - 1]? = some (sorted.getLastD 0) := by
    rw [← List.getLast?_eq_getElem?, List.getLastD_eq_getLast?,
      List.getLast?_eq_some_getLast nonempty, Option.getD_some]
  rw [percentile_eq entry]
  have inRange := percentileIndex_lt positive p
  exact recorded.toDouble_mono inOrder (by omega) entry last

theorem calculateStats_reportsQuantiles (nonempty : latencies ≠ [])
    (recorded : Recorded latencies) :
    ReportsQuantiles latencies (calculateStats latencies) := by
  have inOrder := List.pairwise_insertionSort (· ≤ ·) latencies
  have recordedSorted : Recorded (latencies.insertionSort (· ≤ ·)) :=
    fun latency mem =>
      recorded latency ((List.mem_insertionSort (· ≤ ·)).mp mem)
  have nonemptySorted := insertionSort_ne_nil nonempty
  have grows : ∀ {p q : ℚ}, p ≤ q →
      percentile (latencies.insertionSort (· ≤ ·)) p ≤
        percentile (latencies.insertionSort (· ≤ ·)) q :=
    recordedSorted.percentile_mono inOrder nonemptySorted
  constructor
  · rw [calculateStats_of_ne_nil nonempty]
    intro entry mem
    obtain ⟨p, share, rfl⟩ := List.mem_map.mp mem
    have inRange : 0 ≤ p ∧ p < 1 := by
      simp only [List.mem_cons, List.not_mem_nil, or_false] at share
      rcases share with rfl | rfl | rfl | rfl | rfl <;> norm_num
    exact recorded.percentile_isQuantile nonempty inRange.1 inRange.2
  · obtain ⟨middle, isMedian, minLe, le50⟩ :=
      recordedSorted.exists_median inOrder nonemptySorted
    rw [calculateStats, if_neg nonempty]
    exact ⟨middle, isMedian, minLe, le50, grows (by norm_num),
      grows (by norm_num), grows (by norm_num), grows (by norm_num),
      recordedSorted.percentile_le_last inOrder nonemptySorted _⟩

/-- The statistics do not depend on the order of the samples. -/
theorem calculateStats_eq_of_perm {other : List Int64}
    (perm : other.Perm latencies) :
    calculateStats other = calculateStats latencies := by
  have empty : other = [] ↔ latencies = [] := by
    rw [← List.length_eq_zero_iff, perm.length_eq, List.length_eq_zero_iff]
  simp only [calculateStats, empty, insertionSort_eq_of_perm perm,
    perm.length_eq]

/-- On samples as they are recorded, the reported percentiles are quantiles,
rounded to doubles and in order, and a permutation of the samples changes
nothing. -/
theorem calculateStats_quantiles (nonempty : latencies ≠ [])
    (recorded : Recorded latencies) :
    ReportsQuantiles latencies (calculateStats latencies) ∧
      ∀ other : List Int64, other.Perm latencies →
        calculateStats other = calculateStats latencies :=
  ⟨calculateStats_reportsQuantiles nonempty recorded,
    fun _ => calculateStats_eq_of_perm⟩

theorem calculateStats_quantiles_three :
    ReportsQuantiles [30, 10, 20] (calculateStats [30, 10, 20]) :=
  (calculateStats_quantiles (by decide) (by decide +kernel)).1

/-- The least integer that is not a double lies between two doubles, and the
even one is below it. -/
theorem toDouble_tie : toDouble 9007199254740993 = 9007199254740992 := by
  have log : Int.log 2 |(9007199254740993 : ℚ)| = 53 := by
    have whole : |(9007199254740993 : ℚ)| = (9007199254740993 : ℕ) := by
      norm_num
    rw [whole, Int.log_natCast]
    exact_mod_cast Nat.log_eq_of_pow_le_of_lt_pow (by norm_num) (by norm_num)
  have unit : RoundToNearest.ulp 53 9007199254740993 = 2 := by
    rw [RoundToNearest.ulp, log]
    norm_num
  have floor : ⌊(9007199254740993 / 2 : ℚ)⌋ = 4503599627370496 := by
    rw [Int.floor_eq_iff]
    norm_num
  have half : Int.fract (9007199254740993 / 2 : ℚ) = 1 / 2 := by
    rw [Int.fract, floor]
    norm_num
  have even : RoundToNearest.halfEven (9007199254740993 / 2) =
      4503599627370496 := by
    rw [RoundToNearest.halfEven, half, floor, if_neg (lt_irrefl _),
      if_neg (lt_irrefl _), if_pos (by decide)]
  rw [toDouble, RoundToNearest.round, unit, even]
  norm_num

/-- Of the single sample `2 ^ 53 + 1`, the percentiles are another number. -/
theorem percentile_not_sample :
    Recorded [9007199254740993] ∧
      (calculateStats [9007199254740993]).p50Us = 9007199254740992 ∧
      ¬∃ value ∈ ([9007199254740993] : List Int64),
        (value.toInt : ℚ) =
          (calculateStats [9007199254740993]).p50Us := by
  have sample : (9007199254740993 : Int64).toInt = 9007199254740993 := by
    decide
  have rounded : (calculateStats [9007199254740993]).p50Us =
      9007199254740992 := by
    have entry : percentile [9007199254740993] 0.50 =
        toDouble (9007199254740993 : Int64).toInt := by
      apply percentile_eq
      rw [List.length_singleton, percentileIndex_half one_pos]
      rfl
    rw [calculateStats, if_neg (by decide)]
    change percentile [9007199254740993] 0.50 = _
    rw [entry, sample]
    exact_mod_cast toDouble_tie
  refine ⟨by decide +kernel, rounded, ?_⟩
  rintro ⟨value, mem, same⟩
  obtain rfl := List.mem_singleton.mp mem
  rw [rounded, sample] at same
  norm_num at same

end Quantiles

end TradingMatcher
