import Mathlib.Tactic
import Mathlib.Data.List.Infix

/-!
# Runs of labelled transition systems

A program answering calls, or several threads taking atomic steps, is a
relation `step source label target`.  A run records the labels of its steps
with the newest first, so that a quantity accounted "since the last call" is a
recursion on the history.  This file states the induction rules that every
later safety argument uses: an invariant needs only one step, conditions on the
steps of a run turn it into a guarded run, and a step-by-step simulation lifts
to whole runs.
-/

namespace TradingMatcher

variable {State Label : Type*}

/-- `Run step initial history state`: the steps labelled `history`, newest
first, lead from `initial` to `state`. -/
inductive Run (step : State → Label → State → Prop) (initial : State) :
    List Label → State → Prop
  | start : Run step initial [] initial
  | next {history : List Label} {source target : State} {label : Label} :
      Run step initial history source → step source label target →
        Run step initial (label :: history) target

/-- The steps taken from a state, under a label, that meet `condition`. -/
def Guarded (condition : State → Label → Prop)
    (step : State → Label → State → Prop) : State → Label → State → Prop :=
  fun source label target => condition source label ∧ step source label target

namespace Run

variable {step : State → Label → State → Prop} {initial : State}
  {history : List Label} {state : State}

/-- A property of the history and the state that holds at the start and is
preserved by every step of a run holds wherever the run leads. -/
theorem invariant (run : Run step initial history state)
    (property : List Label → State → Prop)
    (atStart : property [] initial)
    (preserved : ∀ {history source label target},
      Run step initial history source → property history source →
        step source label target → property (label :: history) target) :
    property history state := by
  induction run with
  | start => exact atStart
  | next run edge ih => exact preserved run ih edge

/-- Runs are monotone in the step relation. -/
theorem mono {wider : State → Label → State → Prop}
    (includes : ∀ {source label target},
      step source label target → wider source label target)
    (run : Run step initial history state) :
    Run wider initial history state := by
  induction run with
  | start => exact .start
  | next _ edge ih => exact ih.next (includes edge)

/-- Along a run, the step relation can be replaced by what is known of the steps
that the run takes. -/
theorem strengthen {stronger : State → Label → State → Prop}
    (run : Run step initial history state)
    (knows : ∀ {history source label target}, Run step initial history source →
      step source label target → stronger source label target) :
    Run stronger initial history state := by
  induction run with
  | start => exact .start
  | next run edge ih => exact ih.next (knows run edge)

/-- A run continues from the state that another one leads to. -/
theorem trans {later : List Label} {final : State}
    (run : Run step initial history state)
    (continued : Run step state later final) :
    Run step initial (later ++ history) final := by
  induction continued with
  | start => exact run
  | next _ edge ih => exact ih.next edge

/-- Dropping the newest labels of a history leaves the history of a run. -/
theorem of_suffix {earlier : List Label}
    (run : Run step initial history state) (isSuffix : earlier <:+ history) :
    ∃ middle, Run step initial earlier middle := by
  induction run with
  | start =>
      rw [List.suffix_nil.mp isSuffix]
      exact ⟨_, .start⟩
  | next run edge ih =>
      rcases List.suffix_cons_iff.mp isSuffix with whole | proper
      · subst whole
        exact ⟨_, run.next edge⟩
      · exact ih proper

/-- A run is a run to some state and one from there. -/
theorem split {later earlier : List Label}
    (run : Run step initial (later ++ earlier) state) :
    ∃ middle, Run step initial earlier middle ∧ Run step middle later state := by
  induction later generalizing state with
  | nil => exact ⟨state, run, .start⟩
  | cons label later ih =>
      cases run with
      | next run edge =>
          obtain ⟨middle, first, second⟩ := ih run
          exact ⟨middle, first, second.next edge⟩

/-- A run forgets the guard of its steps. -/
theorem unguard {condition : State → Label → Prop}
    (run : Run (Guarded condition step) initial history state) :
    Run step initial history state :=
  run.mono And.right

/-- A simulation step by step, along an observation of the labels, lifts to
whole runs. -/
theorem simulate {Abstract Observation : Type*}
    {abstractStep : Abstract → Observation → Abstract → Prop}
    {abstractInitial : Abstract} {observe : Label → Observation}
    (run : Run step initial history state)
    (related : State → Abstract → Prop)
    (atStart : related initial abstractInitial)
    (simulates : ∀ {history source label target abstract},
      Run step initial history source → related source abstract →
        step source label target → ∃ abstractTarget,
          abstractStep abstract (observe label) abstractTarget ∧
            related target abstractTarget) :
    ∃ abstract,
      Run abstractStep abstractInitial (history.map observe) abstract ∧
        related state abstract := by
  induction run with
  | start => exact ⟨abstractInitial, .start, atStart⟩
  | next run edge ih =>
      obtain ⟨abstract, abstractRun, relatedSource⟩ := ih
      obtain ⟨abstractTarget, abstractEdge, relatedTarget⟩ :=
        simulates run relatedSource edge
      exact ⟨abstractTarget, abstractRun.next abstractEdge, relatedTarget⟩

/-- Where the labels that an observation leaves out do not change a view of the
state, the view runs through the observed labels. -/
theorem project {Abstract Observation : Type*}
    {abstractStep : Abstract → Observation → Abstract → Prop}
    (run : Run step initial history state) (view : State → Abstract)
    (observe : Label → Option Observation)
    (stutters : ∀ {source label target}, step source label target →
      observe label = none → view target = view source)
    (steps : ∀ {source label target observation}, step source label target →
      observe label = some observation →
        abstractStep (view source) observation (view target)) :
    Run abstractStep (view initial) (history.filterMap observe)
      (view state) := by
  induction run with
  | start => exact .start
  | @next _ _ _ label _ edge ih =>
      cases observed : observe label with
      | none =>
          rw [List.filterMap_cons_none observed, stutters edge observed]
          exact ih
      | some observation =>
          rw [List.filterMap_cons_some observed]
          exact ih.next (steps edge observed)

section Replay

/-- Replay a history with an executable step function. -/
def replay (next : State → Label → Option State) (initial : State) :
    List Label → Option State
  | [] => some initial
  | label :: earlier =>
      (replay next initial earlier).bind fun state => next state label

/-- An executable step function restricted to the steps that meet a
condition. -/
def guardNext (condition : State → Label → Prop)
    [∀ state label, Decidable (condition state label)]
    (next : State → Label → Option State) : State → Label → Option State :=
  fun state label => if condition state label then next state label else none

variable {next : State → Label → Option State}

theorem of_replay
    (sound : ∀ {source label target}, next source label = some target →
      step source label target)
    (replayed : replay next initial history = some state) :
    Run step initial history state := by
  induction history generalizing state with
  | nil =>
      obtain rfl := Option.some.inj replayed
      exact .start
  | cons label earlier ih =>
      obtain ⟨middle, earlierReplayed, edge⟩ :=
        Option.bind_eq_some_iff.mp replayed
      exact (ih earlierReplayed).next (sound edge)

/-- A replay that passes a test is a run to a state that passes it. -/
theorem exists_of_replay
    (sound : ∀ {source label target}, next source label = some target →
      step source label target)
    (initial : State) (history : List Label) (test : State → Bool)
    (replays : (replay next initial history).any test = true) :
    ∃ state, Run step initial history state ∧ test state = true := by
  obtain ⟨state, replayed, passes⟩ := (Option.any_eq_true _ _).mp replays
  exact ⟨state, of_replay sound replayed, passes⟩

/-- A replay ends with a step after a run. -/
theorem exists_step_of_replay (next : State → Label → Option State)
    (sound : ∀ {source label target}, next source label = some target →
      step source label target)
    (initial : State) (history : List Label) (label : Label)
    (replays : (replay next initial (label :: history)).isSome) :
    ∃ source target, Run step initial history source ∧
      step source label target := by
  obtain ⟨target, replayed⟩ := Option.isSome_iff_exists.mp replays
  obtain ⟨source, earlier, taken⟩ := Option.bind_eq_some_iff.mp replayed
  exact ⟨source, target, of_replay sound earlier, sound taken⟩

theorem replay_eq (run : Run step initial history state)
    (complete : ∀ {source label target}, step source label target →
      next source label = some target) :
    replay next initial history = some state := by
  induction run with
  | start => rfl
  | next _ edge ih =>
      rw [replay, ih]
      exact complete edge

theorem guardNext_sound {condition : State → Label → Prop}
    [∀ state label, Decidable (condition state label)]
    (sound : ∀ {source label target}, next source label = some target →
      step source label target)
    {source target : State} {label : Label}
    (edge : guardNext condition next source label = some target) :
    Guarded condition step source label target := by
  rw [guardNext] at edge
  split at edge
  next holds => exact ⟨holds, sound edge⟩
  next => cases edge

end Replay

end Run

end TradingMatcher
