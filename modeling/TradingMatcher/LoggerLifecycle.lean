import TradingMatcher.AsyncLogger

/-!
# Starting and stopping the logger

One thread starts, uses and stops the logger, any number of times.  Its calls
are whole steps here, with the writes of the worker between them, and the queue
is the bounded FIFO that it is for one producer and one consumer.  What matters
is `log_file_`: it is assigned before the file is known to be open, and it alone
decides where a line goes.
-/

namespace TradingMatcher

/-- An output file stream. -/
structure LogFile where
  path : String
  isOpen : Bool
  deriving DecidableEq

/-- Where a line goes: a stream that failed to open drops it. -/
inductive Destination
  | standardOutput
  | file (path : String)
  | nowhere
  deriving DecidableEq

structure LoggerLifecycle where
  running : Bool
  minLevel : LogLevel
  logFile : Option LogFile
  queue : List LogMessage
  deriving DecidableEq

/-- The calls of the thread that owns the logger, and the worker's writes.  An
open succeeds or fails at will. -/
inductive LoggerAction
  | start (path : String) (opens : Bool)
  | stop
  | setLevel (level : LogLevel)
  | log (level : LogLevel) (text : List UInt8) (timestampNs : Timestamp)
      (threadId : UInt32)
  | workerWrite

namespace LoggerLifecycle

def new : LoggerLifecycle where
  running := false
  minLevel := .info
  logFile := none
  queue := []

def destination (logger : LoggerLifecycle) : Destination :=
  match logger.logFile with
  | none => .standardOutput
  | some file => if file.isOpen then .file file.path else .nowhere

def start (logger : LoggerLifecycle) (path : String) (opens : Bool) :
    Bool × LoggerLifecycle :=
  if logger.running then (false, logger)
  else if path.isEmpty then (true, { logger with running := true })
  else
    let logger := { logger with logFile := some ⟨path, opens⟩ }
    if opens then (true, { logger with running := true }) else (false, logger)

/-- Write a message to the output. -/
def writeLogMessage (logger : LoggerLifecycle) (message : LogMessage) :
    Destination × LogMessage :=
  (logger.destination, message)

/-- Write what is in the queue, then close and forget the file. -/
def stop (logger : LoggerLifecycle) :
    List (Destination × LogMessage) × LoggerLifecycle :=
  if logger.running then
    (logger.queue.map logger.writeLogMessage,
      { logger with running := false, logFile := none, queue := [] })
  else ([], logger)

def setLevel (logger : LoggerLifecycle) (level : LogLevel) : LoggerLifecycle :=
  { logger with minLevel := level }

/-- A message below the level, of a logger not started, or without room in the
queue is dropped. -/
def log (logger : LoggerLifecycle) (message : LogMessage) : LoggerLifecycle :=
  if message.level.value < logger.minLevel.value then logger
  else if logger.running then
    if logger.queue.length < SPSCQueue.capacity queueSize then
      { logger with queue := logger.queue ++ [message] }
    else logger
  else logger

/-- The worker, if there is one, pops a message and writes it. -/
def workerWrite (logger : LoggerLifecycle) :
    List (Destination × LogMessage) × LoggerLifecycle :=
  match logger.running, logger.queue with
  | true, message :: queue =>
      ([logger.writeLogMessage message], { logger with queue })
  | _, _ => ([], logger)

/-- The lines that an action writes, and the logger after it. -/
def step (logger : LoggerLifecycle) :
    LoggerAction → List (Destination × LogMessage) × LoggerLifecycle
  | .start path opens => ([], (logger.start path opens).2)
  | .stop => logger.stop
  | .setLevel level => ([], logger.setLevel level)
  | .log level text timestampNs threadId =>
      ([], logger.log (.new level text timestampNs threadId))
  | .workerWrite => logger.workerWrite

/-- The logger after a sequence of actions. -/
def after (logger : LoggerLifecycle) : List LoggerAction → LoggerLifecycle
  | [] => logger
  | action :: later => (logger.step action).2.after later

/-- The lines that a sequence of actions writes. -/
def lines (logger : LoggerLifecycle) :
    List LoggerAction → List (Destination × LogMessage)
  | [] => []
  | action :: later =>
      (logger.step action).1 ++ (logger.step action).2.lines later

/-- Only a running logger has an open file. -/
def OpenWhileRunning (logger : LoggerLifecycle) : Prop :=
  ∀ file ∈ logger.logFile, file.isOpen = true → logger.running = true

theorem openWhileRunning_new : new.OpenWhileRunning := nofun

theorem OpenWhileRunning.step {logger : LoggerLifecycle}
    (sound : logger.OpenWhileRunning) (action : LoggerAction) :
    (logger.step action).2.OpenWhileRunning := by
  cases action with
  | start path opens =>
      dsimp only [LoggerLifecycle.step, start]
      split
      · exact sound
      · split
        · intro file member isOpen
          rfl
        · cases opens with
          | true =>
              intro file member isOpen
              rfl
          | false =>
              rintro file ⟨⟩ ⟨⟩
  | stop =>
      dsimp only [LoggerLifecycle.step, stop]
      split
      · rintro file ⟨⟩
      · exact sound
  | setLevel level => exact sound
  | log level text timestampNs threadId =>
      dsimp only [LoggerLifecycle.step, log]
      split_ifs <;> exact sound
  | workerWrite =>
      dsimp only [LoggerLifecycle.step, workerWrite]
      split <;> exact sound

theorem openWhileRunning_after (actions : List LoggerAction)
    {logger : LoggerLifecycle} (sound : logger.OpenWhileRunning) :
    (logger.after actions).OpenWhileRunning := by
  induction actions generalizing logger with
  | nil => exact sound
  | cons action later ih => exact ih (sound.step action)

/-- Two loggers that differ at most in which of them holds what failed
stream. -/
structure Alike (first second : LoggerLifecycle) : Prop where
  running : first.running = second.running
  minLevel : first.minLevel = second.minLevel
  queue : first.queue = second.queue
  destination : first.destination = second.destination

namespace Alike

variable {first second : LoggerLifecycle}

/-- Alike loggers write the same lines in the next action and stay alike. -/
theorem step (alike : Alike first second) (action : LoggerAction) :
    (first.step action).1 = (second.step action).1 ∧
      Alike (first.step action).2 (second.step action).2 := by
  obtain ⟨running, minLevel, firstFile, queue⟩ := first
  obtain ⟨_, _, secondFile, _⟩ := second
  obtain ⟨rfl, rfl, rfl, destination⟩ := alike
  have written : writeLogMessage ⟨running, minLevel, firstFile, queue⟩ =
      writeLogMessage ⟨running, minLevel, secondFile, queue⟩ :=
    funext fun message => congrArg (·, message) destination
  cases action with
  | start path opens =>
      refine ⟨rfl, ?_⟩
      dsimp only [LoggerLifecycle.step, start]
      split_ifs
      · exact ⟨rfl, rfl, rfl, destination⟩
      · exact ⟨rfl, rfl, rfl, destination⟩
      -- Once the file is assigned nothing of the old one is left.
      · exact ⟨rfl, rfl, rfl, rfl⟩
      · exact ⟨rfl, rfl, rfl, rfl⟩
  | stop =>
      dsimp only [LoggerLifecycle.step, stop]
      split_ifs
      · rw [written]
        exact ⟨rfl, rfl, rfl, rfl, rfl⟩
      · exact ⟨rfl, rfl, rfl, rfl, destination⟩
  | setLevel level => exact ⟨rfl, rfl, rfl, rfl, destination⟩
  | log level text timestampNs threadId =>
      refine ⟨rfl, ?_⟩
      dsimp only [LoggerLifecycle.step, log]
      split_ifs <;> exact ⟨rfl, rfl, rfl, destination⟩
  | workerWrite =>
      cases running with
      | false => exact ⟨rfl, rfl, rfl, rfl, destination⟩
      | true =>
          cases queue with
          | nil => exact ⟨rfl, rfl, rfl, rfl, destination⟩
          | cons message queue =>
              refine ⟨?_, rfl, rfl, rfl, destination⟩
              dsimp only [LoggerLifecycle.step, workerWrite]
              rw [written]

theorem lines (alike : Alike first second) (actions : List LoggerAction) :
    first.lines actions = second.lines actions := by
  induction actions generalizing first second with
  | nil => rfl
  | cons action later ih =>
      obtain ⟨written, alikeAfter⟩ := alike.step action
      rw [LoggerLifecycle.lines, LoggerLifecycle.lines, written, ih alikeAfter]

end Alike

/-- In every state reached, a failing `start` leaves the flag and the
destination as they were, and so every line that follows, if and only if it is
not an open that fails while there is no stream. -/
theorem start_fails_harmlessly_iff (earlier : List LoggerAction)
    (path : String) (opens : Bool) :
    (((new.after earlier).start path opens).1 = false →
        ((new.after earlier).start path opens).2.running =
            (new.after earlier).running ∧
          ((new.after earlier).start path opens).2.destination =
            (new.after earlier).destination ∧
          ∀ later, ((new.after earlier).start path opens).2.lines later =
            (new.after earlier).lines later) ↔
      ((new.after earlier).running = false → path.isEmpty = false →
        opens = false → (new.after earlier).logFile ≠ none) := by
  have sound := openWhileRunning_after earlier openWhileRunning_new
  generalize new.after earlier = logger at sound ⊢
  constructor
  · intro harmless stopped named failed absent
    have fails : logger.start path opens =
        (false, { logger with logFile := some ⟨path, false⟩ }) := by
      simp [start, stopped, named, failed]
    rw [fails] at harmless
    have redirected := (harmless rfl).2.1
    simp [destination, absent] at redirected
  · intro present fails
    suffices alike : Alike (logger.start path opens).2 logger from
      ⟨alike.running, alike.destination, alike.lines⟩
    unfold start at fails ⊢
    split_ifs at fails ⊢ with running empty opened
    · exact ⟨rfl, rfl, rfl, rfl⟩
    · refine ⟨rfl, rfl, rfl, ?_⟩
      -- The stream that is replaced had failed to open as well.
      obtain ⟨file, found⟩ := Option.ne_none_iff_exists'.mp
        (present (by simpa using running) (by simpa using empty)
          (by simpa using opened))
      have shut : file.isOpen = false := by
        by_contra isOpen
        exact running (sound file found (by simpa using isOpen))
      simp [destination, found, shut, opened]

/-- The open fails, and a later start without a path returns true; the line is
lost that would have gone to standard output. -/
theorem start_fails_and_redirects :
    (new.start "missing/market_engine.log" false).1 = false ∧
      ((new.start "missing/market_engine.log" false).2.start "" true).1 =
        true ∧
      (new.start "missing/market_engine.log" false).2.lines
          [.start "" true, .log .info [72, 105] 0 0, .stop] =
        [(.nowhere, .new .info [72, 105] 0 0)] ∧
      new.lines [.start "" true, .log .info [72, 105] 0 0, .stop] =
        [(.standardOutput, .new .info [72, 105] 0 0)] := by
  decide

end LoggerLifecycle

end TradingMatcher
