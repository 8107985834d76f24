import TradingMatcher.LatencyStats
import TradingMatcher.Runs

/-!
# The benchmark helper

`Benchmark` records the microseconds between `start` and `stop` by a clock that
never goes back.
-/

namespace TradingMatcher

open SignedArithmetic

structure Benchmark where
  startNs : Int64
  latenciesUs : List Int64

namespace Benchmark

def new : Benchmark := ⟨0, []⟩

def start (benchmark : Benchmark) (now : Int64) : Benchmark :=
  { benchmark with startNs := now }

/-- Record the time since the start; `none` where it overflows. -/
def stop (benchmark : Benchmark) (now : Int64) : Option Benchmark :=
  (sub? now benchmark.startNs).map fun elapsedNs =>
    { benchmark with latenciesUs := benchmark.latenciesUs ++ [elapsedNs / 1000] }

def getStats (benchmark : Benchmark) : LatencyStats :=
  calculateStats benchmark.latenciesUs

def reset (benchmark : Benchmark) : Benchmark :=
  { benchmark with latenciesUs := [] }

end Benchmark

/-- The calls, with the readings of the clock. -/
inductive BenchmarkEvent
  | start (now : Int64)
  | stop (now : Int64)
  | reset
  deriving DecidableEq

/-- A benchmark with the latest reading of the monotonic clock, which starts
from zero. -/
structure TimedBenchmark where
  benchmark : Benchmark
  now : Int64

inductive BenchmarkStep :
    TimedBenchmark → BenchmarkEvent → TimedBenchmark → Prop
  | start {timed : TimedBenchmark} {now : Int64} (later : timed.now ≤ now) :
      BenchmarkStep timed (.start now) ⟨timed.benchmark.start now, now⟩
  | stop {timed : TimedBenchmark} {now : Int64} {benchmark : Benchmark}
      (later : timed.now ≤ now)
      (call : timed.benchmark.stop now = some benchmark) :
      BenchmarkStep timed (.stop now) ⟨benchmark, now⟩
  | reset {timed : TimedBenchmark} :
      BenchmarkStep timed .reset { timed with benchmark := timed.benchmark.reset }

/-- The start lies between zero and the latest reading, and the samples are as
`calculateStats` needs them. -/
structure TimedBenchmark.Sound (timed : TimedBenchmark) : Prop where
  nonneg : 0 ≤ timed.benchmark.startNs.toInt
  started : timed.benchmark.startNs.toInt ≤ timed.now.toInt
  recorded : Recorded timed.benchmark.latenciesUs

/-- What `stop` records after a start that is not later. -/
theorem Benchmark.stop_recorded {benchmark stopped : Benchmark} {now : Int64}
    (started : benchmark.startNs.toInt ≤ now.toInt)
    (recorded : Recorded benchmark.latenciesUs)
    (call : benchmark.stop now = some stopped) :
    stopped.startNs = benchmark.startNs ∧ Recorded stopped.latenciesUs := by
  obtain ⟨elapsedNs, elapsed, rfl⟩ := Option.map_eq_some_iff.mp call
  refine ⟨rfl, ?_⟩
  intro latency mem
  rcases List.mem_append.mp mem with before | last
  · exact recorded latency before
  · obtain rfl := List.mem_singleton.mp last
    have isElapsed := sub?_eq_some_iff.mp elapsed
    have bound := elapsedNs.toInt_lt
    have thousand : (1000 : Int64).toInt = 1000 := by decide
    rw [Int64.toInt_div_of_ne_right _ _ (by decide), thousand,
      Int.tdiv_eq_ediv_of_nonneg (by omega)]
    omega

theorem BenchmarkStep.sound {source target : TimedBenchmark}
    {event : BenchmarkEvent} (sound : source.Sound)
    (edge : BenchmarkStep source event target) : target.Sound := by
  obtain ⟨nonneg, started, recorded⟩ := sound
  cases edge with
  | start later =>
      have later := Int64.le_iff_toInt_le.mp later
      exact ⟨(nonneg.trans started).trans later, le_refl _, recorded⟩
  | stop later call =>
      have later := Int64.le_iff_toInt_le.mp later
      obtain ⟨sameStart, recorded⟩ := Benchmark.stop_recorded
        (started.trans later) recorded call
      refine ⟨?_, ?_, recorded⟩ <;> rw [sameStart]
      exacts [nonneg, started.trans later]
  | reset => exact ⟨nonneg, started, fun _ mem => nomatch mem⟩

/-- Along every run, the recorded samples are such that the statistics report
their quantiles. -/
theorem Benchmark.getStats_reportsQuantiles {timed : TimedBenchmark}
    {history : List BenchmarkEvent}
    (run : Run BenchmarkStep ⟨.new, 0⟩ history timed)
    (nonempty : timed.benchmark.latenciesUs ≠ []) :
    ReportsQuantiles timed.benchmark.latenciesUs timed.benchmark.getStats := by
  have sound : timed.Sound := by
    apply run.invariant fun _ timed => timed.Sound
    · exact ⟨le_refl _, le_refl _, fun _ mem => nomatch mem⟩
    · exact fun _ sound edge => edge.sound sound
  exact calculateStats_reportsQuantiles nonempty sound.recorded

end TradingMatcher
