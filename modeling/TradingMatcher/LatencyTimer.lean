import TradingMatcher.PriceConversion
import TradingMatcher.RelativeError
import TradingMatcher.Runs

/-!
# The cycle counter

`LatencyTimerRDTSC` measures in cycles of the processor.  `RDTSCCalibrator`
measures once how many of them there are in a nanosecond and keeps that number
and its reciprocal as doubles, with which it converts.
-/

namespace TradingMatcher

open RoundToNearest SignedArithmetic

/-- A reading of the monotonic clock, which the kernel keeps as nanoseconds in a
signed 64-bit integer. -/
structure Timespec where
  tvSec : Int64
  tvNsec : Int64
  secNonneg : 0 ≤ tvSec.toInt
  nsecNonneg : 0 ≤ tvNsec.toInt
  nsecLt : tvNsec.toInt < 1000000000
  inRange : tvSec.toInt * 1000000000 + tvNsec.toInt < 2 ^ 63
  deriving DecidableEq

/-- What `calibrate` reads before and after its busy wait. -/
structure CalibrationReadings where
  rdtscStart : UInt64
  tsStart : Timespec
  rdtscEnd : UInt64
  tsEnd : Timespec
  deriving DecidableEq

namespace CalibrationReadings

def nsElapsed (readings : CalibrationReadings) : Int64 :=
  (readings.tsEnd.tvSec - readings.tsStart.tvSec) * 1000000000 +
    (readings.tsEnd.tvNsec - readings.tsStart.tvNsec)

def cyclesElapsed (readings : CalibrationReadings) : UInt64 :=
  readings.rdtscEnd - readings.rdtscStart

end CalibrationReadings

/-- The static variables. -/
structure RDTSCCalibrator where
  calibrated : Bool
  cyclesPerNs : ℚ
  nsPerCycle : ℚ
  deriving DecidableEq

namespace RDTSCCalibrator

def new : RDTSCCalibrator := ⟨false, 5 / 2, toDouble (2 / 5)⟩

def calibrate (calibrator : RDTSCCalibrator) (readings : CalibrationReadings) :
    RDTSCCalibrator :=
  if calibrator.calibrated then calibrator
  else if 0 < readings.cyclesElapsed ∧ 0 < readings.nsElapsed then
    let cyclesPerNs := toDouble
      (toDouble readings.cyclesElapsed.toNat / toDouble readings.nsElapsed.toInt)
    ⟨true, cyclesPerNs, toDouble (1 / cyclesPerNs)⟩
  else ⟨true, 5 / 2, toDouble (2 / 5)⟩

/-- The result, or `none` where the conversion to an integer is undefined; the
call also leaves a calibrated calibrator behind. -/
def cyclesToNs (calibrator : RDTSCCalibrator) (readings : CalibrationReadings)
    (cycles : UInt64) : Option Int64 :=
  let nsPerCycle := (calibrator.calibrate readings).nsPerCycle
  let ns := truncate (toDouble (toDouble cycles.toNat * nsPerCycle))
  if Fits ns then some (Int64.ofInt ns) else none

def nsToCycles (calibrator : RDTSCCalibrator) (readings : CalibrationReadings)
    (ns : Int64) : Option UInt64 :=
  let cyclesPerNs := (calibrator.calibrate readings).cyclesPerNs
  let cycles := truncate (toDouble (toDouble ns.toInt * cyclesPerNs))
  if 0 ≤ cycles ∧ cycles < 2 ^ 64 then some (UInt64.ofNat cycles.toNat)
  else none

end RDTSCCalibrator

/-- The counter of the processor, the calibrator and a timer. -/
structure TimedCounter where
  counter : UInt64
  calibrator : RDTSCCalibrator
  startCycles : UInt64
  deriving DecidableEq

/-- Time passes, in cycles, and the program calls; a call that converts comes
with what it would read to calibrate. -/
inductive TimerEvent
  | tick (cycles : ℕ)
  | calibrate (readings : CalibrationReadings)
  | reset
  | elapsedNs (readings : CalibrationReadings) (result : Int64)
  | elapsedCycles (result : UInt64)
  deriving DecidableEq

namespace TimedCounter

/-- The state after the construction of the timer. -/
def new (counter : UInt64) : TimedCounter := ⟨counter, .new, counter⟩

def elapsedCycles (timed : TimedCounter) : UInt64 :=
  timed.counter - timed.startCycles

def elapsedNs (timed : TimedCounter) (readings : CalibrationReadings) :
    Option Int64 :=
  timed.calibrator.cyclesToNs readings timed.elapsedCycles

def calibrate (timed : TimedCounter) (readings : CalibrationReadings) :
    TimedCounter :=
  { timed with calibrator := timed.calibrator.calibrate readings }

end TimedCounter

inductive TimerStep : TimedCounter → TimerEvent → TimedCounter → Prop
  | tick {timed : TimedCounter} {cycles : ℕ} :
      TimerStep timed (.tick cycles)
        { timed with counter := timed.counter + UInt64.ofNat cycles }
  | calibrate {timed : TimedCounter} {readings : CalibrationReadings} :
      TimerStep timed (.calibrate readings) (timed.calibrate readings)
  | reset {timed : TimedCounter} :
      TimerStep timed .reset { timed with startCycles := timed.counter }
  | elapsedNs {timed : TimedCounter} {readings : CalibrationReadings}
      {result : Int64} (call : timed.elapsedNs readings = some result) :
      TimerStep timed (.elapsedNs readings result) (timed.calibrate readings)
  | elapsedCycles {timed : TimedCounter} :
      TimerStep timed (.elapsedCycles timed.elapsedCycles) timed

namespace Timespec

/-- The reading as one number. -/
def nanoseconds (ts : Timespec) : ℤ :=
  ts.tvSec.toInt * 1000000000 + ts.tvNsec.toInt

end Timespec

namespace CalibrationReadings

theorem nsElapsed_toInt (readings : CalibrationReadings) :
    readings.nsElapsed.toInt =
      readings.tsEnd.nanoseconds - readings.tsStart.nanoseconds := by
  obtain ⟨_, tsStart, _, tsEnd⟩ := readings
  obtain ⟨secEnd, nsecEnd, _, _, _, rangeEnd⟩ := tsEnd
  obtain ⟨secStart, nsecStart, _, _, _, rangeStart⟩ := tsStart
  have fits : Fits ((secEnd.toInt - secStart.toInt) * 1000000000 +
      (nsecEnd.toInt - nsecStart.toInt)) := by
    unfold Fits
    omega
  have exact := bmod_eq_of_fits fits
  have billion : Int64.toInt 1000000000 = 1000000000 := rfl
  simp only [nsElapsed, Timespec.nanoseconds, Int64.toInt_add, Int64.toInt_mul,
    Int64.toInt_sub, Int.bmod_add_bmod, Int.add_bmod_bmod, Int.bmod_mul_bmod,
    billion]
  rw [exact]
  omega

/-- The number of cycles in a nanosecond, as it is measured or assumed. -/
def speed (readings : CalibrationReadings) : ℚ :=
  if 0 < readings.cyclesElapsed ∧ 0 < readings.nsElapsed then
    readings.cyclesElapsed.toNat /
      (readings.tsEnd.nanoseconds - readings.tsStart.nanoseconds : ℤ)
  else 5 / 2

theorem measured_pos {readings : CalibrationReadings}
    (measures : 0 < readings.cyclesElapsed ∧ 0 < readings.nsElapsed) :
    0 < (readings.cyclesElapsed.toNat : ℚ) ∧
      0 < (readings.nsElapsed.toInt : ℚ) := by
  obtain ⟨cycles, ns⟩ := measures
  rw [UInt64.lt_iff_toNat_lt] at cycles
  rw [Int64.lt_iff_toInt_lt] at ns
  exact ⟨by exact_mod_cast cycles, by exact_mod_cast ns⟩

theorem speed_pos (readings : CalibrationReadings) : 0 < readings.speed := by
  unfold speed
  split
  next measures =>
    obtain ⟨cycles, ns⟩ := measured_pos measures
    rw [← nsElapsed_toInt]
    exact div_pos cycles ns
  next => norm_num

end CalibrationReadings

theorem roundoff_lt_one : (1 / 2 ^ 53 : ℚ) < 1 := by norm_num

theorem toDouble_near {x : ℚ} (above : 0 ≤ x) :
    Near (1 / 2 ^ 53) 1 x (toDouble x) :=
  round_near 53 above

theorem Near.toDouble {n : ℕ} {x y : ℚ} (above : 0 ≤ y)
    (near : Near (1 / 2 ^ 53) n x y) :
    Near (1 / 2 ^ 53) (n + 1) x (toDouble y) :=
  near.trans roundoff_lt_one.le (toDouble_near above)

namespace RDTSCCalibrator

/-- How far the constants are from the speed, counted in roundings. -/
structure Calibrated (calibrator : RDTSCCalibrator) (speed : ℚ) : Prop where
  cyclesPerNs : Near (1 / 2 ^ 53) 3 speed calibrator.cyclesPerNs
  nsPerCycle : Near (1 / 2 ^ 53) 4 speed⁻¹ calibrator.nsPerCycle

theorem calibrate_calibrated (readings : CalibrationReadings) :
    (new.calibrate readings).Calibrated readings.speed := by
  have small := roundoff_lt_one
  rw [calibrate, if_neg (by decide), CalibrationReadings.speed]
  by_cases measures : 0 < readings.cyclesElapsed ∧ 0 < readings.nsElapsed
  · rw [if_pos measures, if_pos measures, ← CalibrationReadings.nsElapsed_toInt]
    obtain ⟨cycles, ns⟩ := CalibrationReadings.measured_pos measures
    generalize (readings.cyclesElapsed.toNat : ℚ) = cyclesElapsed at *
    generalize (readings.nsElapsed.toInt : ℚ) = nsElapsed at *
    have cyclesNear := toDouble_near cycles.le
    have nsNear := toDouble_near ns.le
    have cyclesPos := cyclesNear.pos small cycles
    have nsPos := nsNear.pos small ns
    have perNs := (cyclesNear.div small.le cycles.le cyclesPos.le ns nsPos
      nsNear).toDouble (div_pos cyclesPos nsPos).le
    have perNsPos := perNs.pos small (div_pos cycles ns)
    have nsPerCycle := (perNs.inv (div_pos cycles ns) perNsPos).toDouble
      (inv_pos.mpr perNsPos).le
    rw [← one_div (toDouble _)] at nsPerCycle
    exact ⟨perNs, nsPerCycle⟩
  · rw [if_neg measures, if_neg measures]
    have assumed : (5 / 2 : ℚ)⁻¹ = 2 / 5 := by norm_num
    refine ⟨.refl (by positivity) small.le (by norm_num), ?_⟩
    rw [assumed]
    have near : Near (1 / 2 ^ 53) 1 (2 / 5 : ℚ) (toDouble (2 / 5)) :=
      toDouble_near (by norm_num)
    exact near.mono (by positivity) small.le (by norm_num)
      (near.pos small (by norm_num)).le (by norm_num)

theorem calibrated_calibrate (calibrator : RDTSCCalibrator)
    (readings : CalibrationReadings) :
    (calibrator.calibrate readings).calibrated = true := by
  unfold calibrate
  split_ifs with already
  · exact already
  · rfl
  · rfl

/-- The first call of `calibrate` settles the constants. -/
@[simp]
theorem calibrate_calibrate (calibrator : RDTSCCalibrator)
    (first second : CalibrationReadings) :
    (calibrator.calibrate first).calibrate second =
      calibrator.calibrate first :=
  if_pos (calibrator.calibrated_calibrate first)

end RDTSCCalibrator

/-- A double that a few roundings separate from a number is converted to an
integer next to it. -/
theorem truncate_near {exact x : ℚ} {n : ℕ} (few : n ≤ 8) (above : 0 ≤ exact)
    (near : Near (1 / 2 ^ 53) n exact x) :
    0 ≤ truncate x ∧ exact - exact / 2 ^ 49 - 1 < truncate x ∧
      truncate x ≤ exact + exact / 2 ^ 49 := by
  have small := roundoff_lt_one.le
  have aboveX : 0 ≤ x :=
    (mul_nonneg above (pow_nonneg (sub_nonneg.mpr small) n)).trans near.le
  have fewQ : (n : ℚ) ≤ 8 := by exact_mod_cast few
  have errors : n * (1 / 2 ^ 53 : ℚ) * exact ≤ exact / 2 ^ 50 := by
    have scaled := mul_le_mul_of_nonneg_right fewQ above
    linarith
  have below := near.sub_le small above
  have above := near.le_add (by positivity) small (by linarith) aboveX
  have whole : truncate x = ⌊x⌋ := if_pos aboveX
  rw [whole]
  refine ⟨Int.floor_nonneg.mpr aboveX, ?_, ?_⟩
  · have := Int.lt_floor_add_one x
    linarith
  · have := Int.floor_le x
    linarith

/-- An integer that is converted to a double and multiplied by a double near a
factor gives an integer next to the product. -/
theorem truncate_product {x factor constant : ℚ} {n : ℕ} (few : n ≤ 6)
    (above : 0 ≤ x) (positive : 0 < factor)
    (near : Near (1 / 2 ^ 53) n factor constant) :
    0 ≤ truncate (toDouble (toDouble x * constant)) ∧
      x * factor - x * factor / 2 ^ 49 - 1 <
        truncate (toDouble (toDouble x * constant)) ∧
      truncate (toDouble (toDouble x * constant)) ≤
        x * factor + x * factor / 2 ^ 49 := by
  have lt_one := roundoff_lt_one
  have constantPos := near.pos lt_one positive
  have doubleNonneg : 0 ≤ toDouble x := round_nonneg above
  have product := ((toDouble_near above).mul lt_one.le above doubleNonneg
    positive.le constantPos.le near).toDouble
    (mul_nonneg doubleNonneg constantPos.le)
  exact truncate_near (by omega) (mul_nonneg above positive.le) product

theorem truncate_mono {x y : ℚ} (above : 0 ≤ x) (le : x ≤ y) :
    truncate x ≤ truncate y := by
  rw [truncate, truncate, if_pos above, if_pos (above.trans le)]
  exact Int.floor_le_floor le

section Conversions

variable {calibrator : RDTSCCalibrator} {readings : CalibrationReadings}
  {speed : ℚ}

theorem cyclesToNs_within (positive : 0 < speed)
    (settled : (calibrator.calibrate readings).Calibrated speed)
    (cycles : UInt64) (small : cycles.toNat / speed ≤ 2 ^ 62) :
    ∃ ns, calibrator.cyclesToNs readings cycles = some ns ∧ 0 ≤ ns.toInt ∧
      cycles.toNat / speed - cycles.toNat / speed / 2 ^ 49 - 1 < ns.toInt ∧
      ns.toInt ≤ cycles.toNat / speed + cycles.toNat / speed / 2 ^ 49 := by
  obtain ⟨nonneg, above, below⟩ := truncate_product (by decide)
    cycles.toNat.cast_nonneg (inv_pos.mpr positive) settled.nsPerCycle
  rw [← div_eq_mul_inv] at above below
  have fits : Fits (truncate (toDouble (toDouble cycles.toNat *
      (calibrator.calibrate readings).nsPerCycle))) := by
    generalize truncate _ = ns at nonneg above below ⊢
    have : (ns : ℚ) < 2 ^ 63 := by linarith
    exact ⟨by omega, by exact_mod_cast this⟩
  have same := ofInt_eq_some_iff.mp (if_pos fits)
  rw [← same] at nonneg above below
  exact ⟨_, if_pos fits, nonneg, above, below⟩

theorem nsToCycles_within (positive : 0 < speed)
    (settled : (calibrator.calibrate readings).Calibrated speed) {ns : Int64}
    (nonneg : 0 ≤ ns.toInt) (small : ns.toInt * speed ≤ 2 ^ 63) :
    ∃ cycles, calibrator.nsToCycles readings ns = some cycles ∧
      ns.toInt * speed - ns.toInt * speed / 2 ^ 49 - 1 < cycles.toNat ∧
      cycles.toNat ≤ ns.toInt * speed + ns.toInt * speed / 2 ^ 49 := by
  obtain ⟨above, least, greatest⟩ := truncate_product (by decide)
    (Int.cast_nonneg nonneg) positive settled.cyclesPerNs
  unfold RDTSCCalibrator.nsToCycles
  dsimp only
  generalize truncate _ = cycles at above least greatest ⊢
  obtain ⟨count, rfl⟩ := Int.eq_ofNat_of_zero_le above
  have inRange : (count : ℚ) < 2 ^ 64 := by
    push_cast at greatest
    linarith
  have bound : count < 2 ^ 64 := by exact_mod_cast inRange
  have same : (UInt64.ofNat count).toNat = count :=
    UInt64.toNat_ofNat_of_lt' bound
  rw [if_pos ⟨above, by exact_mod_cast bound⟩, Int.toNat_natCast]
  push_cast at least greatest
  exact ⟨_, rfl, by rwa [same], by rwa [same]⟩

end Conversions

/-- A time of up to 2^47 nanoseconds that is converted to cycles and back is
never later, and earlier by less than two nanoseconds and a cycle. -/
theorem cyclesToNs_nsToCycles (readings : CalibrationReadings) {ns : Int64}
    (nonneg : 0 ≤ ns.toInt) (bound : ns.toInt ≤ 2 ^ 47)
    (small : ns.toInt * readings.speed ≤ 2 ^ 63) :
    ∃ cycles back,
      RDTSCCalibrator.new.nsToCycles readings ns = some cycles ∧
      (RDTSCCalibrator.new.calibrate readings).cyclesToNs readings cycles =
        some back ∧
      ns.toInt - 2 - 1 / readings.speed < back.toInt ∧ back ≤ ns := by
  have positive := readings.speed_pos
  have settled := RDTSCCalibrator.calibrate_calibrated readings
  have nonnegQ : (0 : ℚ) ≤ ns.toInt := by exact_mod_cast nonneg
  have boundQ : (ns.toInt : ℚ) ≤ 2 ^ 47 := by exact_mod_cast bound
  generalize readings.speed = speed at *
  obtain ⟨cycles, converted, cyclesAbove, cyclesBelow⟩ :=
    nsToCycles_within positive settled nonneg small
  have exactAbove : ns.toInt - ns.toInt / 2 ^ 49 - 1 / speed <
      cycles.toNat / speed := by
    rw [lt_div_iff₀ positive]
    calc (ns.toInt - ns.toInt / 2 ^ 49 - 1 / speed) * speed
        = ns.toInt * speed - ns.toInt * speed / 2 ^ 49 - 1 := by
          rw [sub_mul, one_div, inv_mul_cancel₀ positive.ne']
          ring
      _ < (cycles.toNat : ℚ) := cyclesAbove
  have exactBelow : cycles.toNat / speed ≤ ns.toInt + ns.toInt / 2 ^ 49 := by
    rw [div_le_iff₀ positive]
    calc (cycles.toNat : ℚ) ≤ ns.toInt * speed + ns.toInt * speed / 2 ^ 49 :=
          cyclesBelow
      _ = (ns.toInt + ns.toInt / 2 ^ 49) * speed := by ring
  rw [← RDTSCCalibrator.calibrate_calibrate _ _ readings] at settled
  obtain ⟨back, convertedBack, -, backAbove, backBelow⟩ :=
    cyclesToNs_within positive settled cycles (by linarith)
  refine ⟨cycles, back, converted, convertedBack, by linarith, ?_⟩
  have lt : (back.toInt : ℚ) < ns.toInt + 1 := by linarith
  rw [Int64.le_iff_toInt_le, ← Int.lt_add_one_iff]
  exact_mod_cast lt

/-- A processor of two cycles in a nanosecond. -/
def twoGigahertz : CalibrationReadings where
  rdtscStart := 1000
  tsStart := ⟨7, 999999900, by decide, by decide, by decide, by decide⟩
  rdtscEnd := 3000
  tsEnd := ⟨8, 900, by decide, by decide, by decide, by decide⟩

theorem twoGigahertz_speed : twoGigahertz.speed = 2 := by
  have cycles : twoGigahertz.cyclesElapsed.toNat = 2000 := by decide
  have ns : twoGigahertz.tsEnd.nanoseconds - twoGigahertz.tsStart.nanoseconds =
      1000 := by decide
  rw [CalibrationReadings.speed, if_pos (by decide), cycles, ns]
  norm_num

theorem cyclesToNs_nsToCycles_twoGigahertz :
    ∃ cycles back,
      RDTSCCalibrator.new.nsToCycles twoGigahertz 1500 = some cycles ∧
      (RDTSCCalibrator.new.calibrate twoGigahertz).cyclesToNs twoGigahertz
        cycles = some back ∧
      (1500 : ℤ) - 2 - 1 / twoGigahertz.speed < back.toInt ∧ back ≤ 1500 := by
  have ns : Int64.toInt 1500 = 1500 := rfl
  have small : Int64.toInt 1500 * twoGigahertz.speed ≤ 2 ^ 63 := by
    rw [ns, twoGigahertz_speed]
    norm_num
  exact cyclesToNs_nsToCycles twoGigahertz (by decide) (by decide) small

section Runs

/-- The cycles since the last reset, or since the construction. -/
def ticksSinceReset : List TimerEvent → ℕ
  | [] | .reset :: _ => 0
  | .tick cycles :: earlier => ticksSinceReset earlier + cycles
  | _ :: earlier => ticksSinceReset earlier

/-- What the first call that calibrates has read. -/
def calibration : List TimerEvent → Option CalibrationReadings
  | [] => none
  | .calibrate readings :: earlier | .elapsedNs readings _ :: earlier =>
      some ((calibration earlier).getD readings)
  | _ :: earlier => calibration earlier

/-- What a history says about the state: how many cycles the timer shows, and
what the calibrator is after the next call. -/
structure TimedCounter.Accounts (history : List TimerEvent)
    (timed : TimedCounter) : Prop where
  elapsed : timed.elapsedCycles = UInt64.ofNat (ticksSinceReset history)
  calibrator : ∀ readings, timed.calibrator.calibrate readings =
    RDTSCCalibrator.new.calibrate ((calibration history).getD readings)

variable {counter : UInt64} {history : List TimerEvent} {timed : TimedCounter}

theorem TimedCounter.Accounts.calibrates (accounts : timed.Accounts history)
    (first readings : CalibrationReadings) :
    (timed.calibrator.calibrate first).calibrate readings =
      RDTSCCalibrator.new.calibrate ((calibration history).getD first) := by
  rw [RDTSCCalibrator.calibrate_calibrate]
  exact accounts.calibrator first

theorem TimedCounter.Accounts.of_run
    (run : Run TimerStep (.new counter) history timed) :
    timed.Accounts history := by
  induction run with
  | start => exact ⟨UInt64.sub_self _, fun _ => rfl⟩
  | next run edge ih =>
      cases edge with
      | tick =>
          refine ⟨?_, ih.calibrator⟩
          rw [ticksSinceReset, UInt64.ofNat_add, ← ih.elapsed]
          simp only [elapsedCycles, UInt64.sub_eq_add_neg]
          rw [UInt64.add_assoc, UInt64.add_comm (UInt64.ofNat _),
            UInt64.add_assoc]
      | calibrate | elapsedNs => exact ⟨ih.elapsed, ih.calibrates _⟩
      | reset => exact ⟨UInt64.sub_self _, ih.calibrator⟩
      | elapsedCycles => exact ⟨ih.elapsed, ih.calibrator⟩

theorem TimedCounter.Accounts.elapsedNs_eq (accounts : timed.Accounts history)
    (readings : CalibrationReadings) :
    timed.elapsedNs readings = RDTSCCalibrator.new.cyclesToNs
      ((calibration history).getD readings)
      (UInt64.ofNat (ticksSinceReset history)) := by
  unfold elapsedNs RDTSCCalibrator.cyclesToNs
  rw [accounts.elapsed, accounts.calibrator readings]

theorem exists_elapsedNs
    (run : Run TimerStep (.new counter) history timed)
    (readings : CalibrationReadings)
    (short : ticksSinceReset history < 2 ^ 64) {exact : ℚ}
    (converts : exact = ticksSinceReset history /
      ((calibration history).getD readings).speed)
    (small : exact ≤ 2 ^ 62) :
    ∃ result, timed.elapsedNs readings = some result ∧
      exact - exact / 2 ^ 49 - 1 < result.toInt ∧
      result.toInt ≤ exact + exact / 2 ^ 49 := by
  rw [(TimedCounter.Accounts.of_run run).elapsedNs_eq]
  generalize (calibration history).getD readings = first at *
  have whole : (UInt64.ofNat (ticksSinceReset history)).toNat =
      ticksSinceReset history := UInt64.toNat_ofNat_of_lt' short
  rw [← whole] at converts
  subst converts
  obtain ⟨result, call, -, bounds⟩ := cyclesToNs_within first.speed_pos
    (RDTSCCalibrator.calibrate_calibrated first) _ small
  exact ⟨result, call, bounds⟩

/-- The timer shows the cycles since the last reset, as long as they fit into
the counter, converted with the speed of the first calibration: whole
nanoseconds, to a part in 2^49. -/
theorem elapsedNs_within
    (run : Run TimerStep (.new counter) history timed)
    (readings : CalibrationReadings)
    (short : ticksSinceReset history < 2 ^ 64)
    {exact : ℚ} (converts : exact = ticksSinceReset history /
      ((calibration history).getD readings).speed)
    (small : exact ≤ 2 ^ 62) :
    ∃ result, timed.elapsedNs readings = some result ∧
      |result.toInt - exact| < 1 + exact / 2 ^ 49 := by
  obtain ⟨result, call, above, below⟩ :=
    exists_elapsedNs run readings short converts small
  refine ⟨result, call, ?_⟩
  rw [abs_lt]
  constructor <;> linarith

/-- The counter comes round before the calibration. -/
def cameRound : List TimerEvent :=
  [.tick 2000, .calibrate twoGigahertz, .tick 1000, .reset, .tick 5]

theorem exists_cameRound :
    ∃ timed, Run TimerStep (.new 18446744073709551000) cameRound timed :=
  ⟨_, ((((Run.start.next .tick).next .reset).next .tick).next .calibrate).next
    .tick⟩

theorem cameRound_converts : 1500 = ticksSinceReset cameRound /
    ((calibration cameRound).getD twoGigahertz).speed := by
  norm_num [cameRound, ticksSinceReset, calibration, twoGigahertz_speed]

theorem elapsedNs_within_wrapped :
    ∃ timed result,
      Run TimerStep (.new 18446744073709551000) cameRound timed ∧
      timed.elapsedNs twoGigahertz = some result ∧
      |(result.toInt : ℚ) - 1500| < 1 + 1500 / 2 ^ 49 := by
  obtain ⟨timed, run⟩ := exists_cameRound
  obtain ⟨result, call, close⟩ := elapsedNs_within run twoGigahertz (by decide)
    cameRound_converts (by norm_num)
  exact ⟨timed, result, run, call, close⟩

/-- A conversion does not turn two readings around. -/
theorem RDTSCCalibrator.cyclesToNs_mono (readings : CalibrationReadings)
    {fewer more : UInt64} (le : fewer ≤ more) {sooner later : Int64}
    (converted : new.cyclesToNs readings fewer = some sooner)
    (convertedMore : new.cyclesToNs readings more = some later) :
    sooner ≤ later := by
  have cyclesLe : (fewer.toNat : ℚ) ≤ more.toNat := by
    exact_mod_cast UInt64.le_iff_toNat_le.mp le
  have nonneg : (0 : ℚ) ≤ fewer.toNat := Nat.cast_nonneg _
  have constantNonneg := ((calibrate_calibrated readings).nsPerCycle.pos
    roundoff_lt_one (inv_pos.mpr readings.speed_pos)).le
  have doubleNonneg : 0 ≤ toDouble fewer.toNat := round_nonneg nonneg
  have productNonneg := mul_nonneg doubleNonneg constantNonneg
  have products := mul_le_mul_of_nonneg_right (toDouble_mono nonneg cyclesLe)
    constantNonneg
  rw [Int64.le_iff_toInt_le, ofInt_eq_some_iff.mp converted,
    ofInt_eq_some_iff.mp convertedMore]
  exact truncate_mono (round_nonneg productNonneg)
    (toDouble_mono productNonneg products)

theorem ticksSinceReset_le_append {between : List TimerEvent}
    (runsOn : .reset ∉ between) (earlier : List TimerEvent) :
    ticksSinceReset earlier ≤ ticksSinceReset (between ++ earlier) := by
  induction between with
  | nil => exact le_rfl
  | cons event between ih =>
      have rest := ih fun mem => runsOn (List.mem_cons_of_mem _ mem)
      cases event with
      | tick => exact rest.trans (Nat.le_add_right _ _)
      | reset => exact absurd List.mem_cons_self runsOn
      | calibrate | elapsedNs | elapsedCycles => exact rest

theorem calibration_append {readings : CalibrationReadings}
    {earlier : List TimerEvent} (calibrated : calibration earlier = some readings)
    (between : List TimerEvent) :
    calibration (between ++ earlier) = some readings := by
  induction between with
  | nil => exact calibrated
  | cons event between ih =>
      cases event with
      | calibrate | elapsedNs => simp [calibration, ih]
      | tick | reset | elapsedCycles => exact ih

theorem converted_of_run {readings : CalibrationReadings} {result : Int64}
    (run : Run TimerStep (.new counter) (.elapsedNs readings result :: history)
      timed) :
    RDTSCCalibrator.new.cyclesToNs ((calibration history).getD readings)
      (UInt64.ofNat (ticksSinceReset history)) = some result := by
  cases run with
  | next run edge =>
      cases edge with
      | elapsedNs call =>
          rw [← (TimedCounter.Accounts.of_run run).elapsedNs_eq]
          exact call

/-- As long as the timer is not reset and the counter does not come round, the
times that it shows do not decrease, whatever else is called between. -/
theorem elapsedNs_mono {first readings : CalibrationReadings}
    {between earlier : List TimerEvent} {sooner later : Int64}
    (run : Run TimerStep (.new counter)
      (.elapsedNs readings later ::
        (between ++ .elapsedNs first sooner :: earlier)) timed)
    (runsOn : .reset ∉ between)
    (short : ticksSinceReset (between ++ .elapsedNs first sooner :: earlier) <
      2 ^ 64) :
    sooner ≤ later := by
  have callLater := converted_of_run run
  obtain ⟨_, run⟩ := run.of_suffix (List.suffix_cons _ _)
  obtain ⟨_, runFirst⟩ := run.of_suffix (List.suffix_append _ _)
  have callSooner := converted_of_run runFirst
  rw [calibration_append rfl, Option.getD_some] at callLater
  have cycles : ticksSinceReset earlier ≤ _ :=
    ticksSinceReset_le_append runsOn (.elapsedNs first sooner :: earlier)
  apply RDTSCCalibrator.cyclesToNs_mono _ _ callSooner callLater
  rwa [UInt64.le_iff_toNat_le,
    UInt64.toNat_ofNat_of_lt' (cycles.trans_lt short),
    UInt64.toNat_ofNat_of_lt' short]

/-- Two calls, with a thousand cycles between. -/
theorem elapsedNs_mono_twoCalls :
    ∃ sooner later timed,
      Run TimerStep (.new 18446744073709551000)
        (.elapsedNs twoGigahertz later :: ([.tick 1000] ++
          .elapsedNs twoGigahertz sooner :: cameRound)) timed ∧
      sooner ≤ later := by
  obtain ⟨timed, run⟩ := exists_cameRound
  obtain ⟨sooner, callSooner, -⟩ := exists_elapsedNs run twoGigahertz
    (by decide) cameRound_converts (by norm_num)
  have goesOn : Run TimerStep (.new 18446744073709551000)
      (.tick 1000 :: .elapsedNs twoGigahertz sooner :: cameRound) _ :=
    (run.next (.elapsedNs callSooner)).next .tick
  have converts : 2000 = ticksSinceReset
      (.tick 1000 :: .elapsedNs twoGigahertz sooner :: cameRound) /
      ((calibration (.tick 1000 :: .elapsedNs twoGigahertz sooner ::
        cameRound)).getD twoGigahertz).speed := by
    norm_num [cameRound, ticksSinceReset, calibration, twoGigahertz_speed]
  have short : ticksSinceReset
      ([.tick 1000] ++ .elapsedNs twoGigahertz sooner :: cameRound) <
        2 ^ 64 := by
    norm_num [cameRound, ticksSinceReset]
  obtain ⟨later, callLater, -⟩ := exists_elapsedNs goesOn twoGigahertz short
    converts (by norm_num)
  have run : Run TimerStep (.new 18446744073709551000)
      (.elapsedNs twoGigahertz later :: ([.tick 1000] ++
        .elapsedNs twoGigahertz sooner :: cameRound)) _ :=
    goesOn.next (.elapsedNs callLater)
  exact ⟨sooner, later, _, run, elapsedNs_mono run (by decide) short⟩

end Runs

end TradingMatcher
