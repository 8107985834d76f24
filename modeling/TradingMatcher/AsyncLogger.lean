import TradingMatcher.Order
import TradingMatcher.SPSCQueue

/-!
# The asynchronous logger

Application threads log, flush and stop while the background worker pops
messages and writes them.  A thread is at one place of these functions at a
time; its steps are the loads and stores of the flag and, inside `push` and
`pop`, those of the queue.  Sleeping, the periodic file flush and the format of
a written line do not appear: no step depends on them.
-/

namespace TradingMatcher

inductive LogLevel
  | trace | debug | info | warn | error | fatal
  deriving DecidableEq

/-- The underlying value, by which levels are compared. -/
def LogLevel.value : LogLevel → Nat
  | trace => 0
  | debug => 1
  | info => 2
  | warn => 3
  | error => 4
  | fatal => 5

/-- The text is the bytes of the fixed-size buffer before its terminator. -/
structure LogMessage where
  level : LogLevel
  timestampNs : Timestamp
  threadId : UInt32
  message : List UInt8
  fits : message.length < 256
  deriving DecidableEq

namespace LogMessage

def default : LogMessage := ⟨.info, 0, 0, [], by decide⟩

/-- `strncpy` keeps what fits before the terminator. -/
def new (level : LogLevel) (text : List UInt8) (timestampNs : Timestamp)
    (threadId : UInt32) : LogMessage where
  level := level
  timestampNs := timestampNs
  threadId := threadId
  message := text.take 255
  fits := by
    rw [List.length_take]
    omega

end LogMessage

/-- The loops that call `pop`: those of the application's `flush`, of the
`flush` in `stop`, of `logWorker` itself, and of its final `flush`. -/
inductive PopCaller
  | flush | stop | worker | finalFlush
  deriving DecidableEq

/-- The places of the application threads and, from `testing` on, of the
worker. -/
inductive LoggerPc
  | idle
  | logging (level : LogLevel) (text : List UInt8)
  | pushing (message : LogMessage)
  | popping (caller : PopCaller)
  | writing (caller : PopCaller) (message : LogMessage)
  | stopping
  | joining
  | stopped
  | testing
  | emptyLoadRead
  | emptyLoadWrite (read : Nat)
  | done
  deriving DecidableEq

/-- Where a loop goes after `pop` has returned false. -/
def PopCaller.afterEmpty : PopCaller → LoggerPc
  | flush => .idle
  | stop => .stopped
  | worker => .testing
  | finalFlush => .done

/-- Where a loop goes after it has written a message. -/
def PopCaller.afterWrite : PopCaller → LoggerPc
  | worker => .testing
  | caller => .popping caller

section Calls

variable {Thread : Type*}

/-- The thread that takes a step of the queue. -/
def RingEvent.caller :
    RingEvent Thread (Option Thread) LogMessage → Option Thread
  | .pushLoadWrite thread _ | .pushFull thread | .pushRoom thread
  | .pushWriteSlot thread | .pushStoreWrite thread _ => some thread
  | .popLoadRead thread | .popEmpty thread | .popAvailable thread
  | .popReadSlot thread | .popStoreRead thread _ => thread

def LoggerPc.isPopping : LoggerPc → Bool
  | .popping _ => true
  | _ => false

theorem LoggerPc.isPopping_iff {pc : LoggerPc} :
    pc.isPopping = true ↔ ∃ caller, pc = .popping caller := by
  cases pc <;> simp [isPopping]

/-- The first step of `push` or `pop` needs a place that calls it. -/
def LoggerPc.Calls (pc : LoggerPc) :
    RingEvent Thread (Option Thread) LogMessage → Prop
  | .pushLoadWrite _ message => pc = .pushing message
  | .popLoadRead _ => pc.isPopping = true
  | _ => True

instance callsDecidable (pc : LoggerPc) :
    ∀ event : RingEvent Thread (Option Thread) LogMessage,
      Decidable (pc.Calls event)
  | .pushLoadWrite _ message => inferInstanceAs (Decidable (pc = .pushing message))
  | .popLoadRead _ => inferInstanceAs (Decidable (pc.isPopping = true))
  | .pushFull _ | .pushRoom _ | .pushWriteSlot _ | .pushStoreWrite _ _
  | .popEmpty _ | .popAvailable _ | .popReadSlot _ | .popStoreRead _ _ =>
      .isTrue trivial

/-- The caller's place after a step of the queue: it moves on when `push` or
`pop` returns. -/
def LoggerPc.resume (pc : LoggerPc) :
    RingEvent Thread (Option Thread) LogMessage → LoggerPc
  | .pushFull _ | .pushStoreWrite _ _ => .idle
  | .popEmpty _ =>
      match pc with
      | .popping caller => caller.afterEmpty
      | pc => pc
  | .popStoreRead _ message =>
      match pc with
      | .popping caller => .writing caller message
      | pc => pc
  | _ => pc

end Calls

/-- The logger with the places of its threads; the worker has no name. -/
structure AsyncLogger (Thread : Type*) where
  running : Bool
  minLevel : LogLevel
  queue : Ring Thread (Option Thread) LogMessage
  pc : Option Thread → LoggerPc

/-- `QUEUE_SIZE` -/
def queueSize : RingSize := ⟨65536, by decide⟩

namespace AsyncLogger

variable {Thread : Type*}

/-- The logger when `start` has returned true. -/
def started (minLevel : LogLevel) : AsyncLogger Thread where
  running := true
  minLevel := minLevel
  queue := .new fun _ => .default
  pc
    | some _ => .idle
    | none => .testing

def setPc [DecidableEq Thread] (logger : AsyncLogger Thread)
    (thread : Option Thread) (pc : LoggerPc) : AsyncLogger Thread :=
  { logger with pc := Function.update logger.pc thread pc }

section SetPc

variable [DecidableEq Thread] (logger : AsyncLogger Thread)
  (thread : Option Thread) (pc : LoggerPc)

@[simp, grind =]
theorem setPc_pc (other : Option Thread) :
    (logger.setPc thread pc).pc other =
      if other = thread then pc else logger.pc other :=
  Function.update_apply ..

@[simp, grind =]
theorem setPc_running : (logger.setPc thread pc).running = logger.running :=
  rfl

@[simp, grind =]
theorem setPc_queue : (logger.setPc thread pc).queue = logger.queue :=
  rfl

end SetPc

end AsyncLogger

/-- The atomic steps.  `log` and `stop` name the loads after which the call goes
on, `logBelowLevel`, `logNotRunning` and `stopNotRunning` those after which it
returns; `construct` is the load of the flag with the message made after it. -/
inductive LoggerEvent (Thread : Type*)
  | logBelowLevel (thread : Thread) (level : LogLevel)
  | log (thread : Thread) (level : LogLevel) (text : List UInt8)
  | logNotRunning (thread : Thread)
  | construct (thread : Thread) (message : LogMessage)
  | flush (thread : Thread)
  | stopNotRunning (thread : Thread)
  | stop (thread : Thread)
  | storeRunning (thread : Thread)
  | join (thread : Thread)
  | workerRunning
  | workerNotRunning
  | workerLoadRead
  | workerLoadWrite
  | write (thread : Option Thread) (message : LogMessage)
  | queue (event : RingEvent Thread (Option Thread) LogMessage)

section Steps

variable {Thread : Type*} [DecidableEq Thread]

/-- One atomic step of one thread, where `threadId` is what `getThreadId`
returns in each thread. -/
inductive LoggerStep (threadId : Thread → UInt32) :
    AsyncLogger Thread → LoggerEvent Thread → AsyncLogger Thread → Prop
  | logBelowLevel {logger : AsyncLogger Thread} {thread : Thread}
      {level : LogLevel} (pc : logger.pc (some thread) = .idle)
      (below : level.value < logger.minLevel.value) :
      LoggerStep threadId logger (.logBelowLevel thread level)
        (logger.setPc (some thread) .idle)
  | log {logger : AsyncLogger Thread} {thread : Thread} {level : LogLevel}
      {text : List UInt8} (pc : logger.pc (some thread) = .idle)
      (enough : logger.minLevel.value ≤ level.value) :
      LoggerStep threadId logger (.log thread level text)
        (logger.setPc (some thread) (.logging level text))
  | logNotRunning {logger : AsyncLogger Thread} {thread : Thread}
      {level : LogLevel} {text : List UInt8}
      (pc : logger.pc (some thread) = .logging level text)
      (notRunning : logger.running = false) :
      LoggerStep threadId logger (.logNotRunning thread)
        (logger.setPc (some thread) .idle)
  | construct {logger : AsyncLogger Thread} {thread : Thread}
      {level : LogLevel} {text : List UInt8} {timestampNs : Timestamp}
      (pc : logger.pc (some thread) = .logging level text)
      (running : logger.running = true) :
      LoggerStep threadId logger
        (.construct thread (.new level text timestampNs (threadId thread)))
        (logger.setPc (some thread)
          (.pushing (.new level text timestampNs (threadId thread))))
  | flush {logger : AsyncLogger Thread} {thread : Thread}
      (pc : logger.pc (some thread) = .idle) :
      LoggerStep threadId logger (.flush thread)
        (logger.setPc (some thread) (.popping .flush))
  | stopNotRunning {logger : AsyncLogger Thread} {thread : Thread}
      (pc : logger.pc (some thread) = .idle)
      (notRunning : logger.running = false) :
      LoggerStep threadId logger (.stopNotRunning thread)
        (logger.setPc (some thread) .stopped)
  | stop {logger : AsyncLogger Thread} {thread : Thread}
      (pc : logger.pc (some thread) = .idle)
      (running : logger.running = true) :
      LoggerStep threadId logger (.stop thread)
        (logger.setPc (some thread) .stopping)
  | storeRunning {logger : AsyncLogger Thread} {thread : Thread}
      (pc : logger.pc (some thread) = .stopping) :
      LoggerStep threadId logger (.storeRunning thread)
        ({ logger with running := false }.setPc (some thread) .joining)
  | join {logger : AsyncLogger Thread} {thread : Thread}
      (pc : logger.pc (some thread) = .joining)
      (ended : logger.pc none = .done) :
      LoggerStep threadId logger (.join thread)
        (logger.setPc (some thread) (.popping .stop))
  | workerRunning {logger : AsyncLogger Thread}
      (pc : logger.pc none = .testing) (running : logger.running = true) :
      LoggerStep threadId logger .workerRunning
        (logger.setPc none (.popping .worker))
  | workerNotRunning {logger : AsyncLogger Thread}
      (pc : logger.pc none = .testing) (notRunning : logger.running = false) :
      LoggerStep threadId logger .workerNotRunning
        (logger.setPc none .emptyLoadRead)
  | workerLoadRead {logger : AsyncLogger Thread}
      (pc : logger.pc none = .emptyLoadRead) :
      LoggerStep threadId logger .workerLoadRead
        (logger.setPc none (.emptyLoadWrite logger.queue.queue.readPos))
  | workerLoadWrite {logger : AsyncLogger Thread} {read : Nat}
      (pc : logger.pc none = .emptyLoadWrite read) :
      LoggerStep threadId logger .workerLoadWrite
        (logger.setPc none (.popping
          (if read = logger.queue.queue.writePos then .finalFlush
            else .worker)))
  | write {logger : AsyncLogger Thread} {thread : Option Thread}
      {caller : PopCaller} {message : LogMessage}
      (pc : logger.pc thread = .writing caller message) :
      LoggerStep threadId logger (.write thread message)
        (logger.setPc thread caller.afterWrite)
  | queue {logger : AsyncLogger Thread}
      {event : RingEvent Thread (Option Thread) LogMessage}
      {queue : Ring Thread (Option Thread) LogMessage}
      (calls : (logger.pc event.caller).Calls event)
      (edge : RingStep queueSize logger.queue event queue) :
      LoggerStep threadId logger (.queue event)
        ({ logger with queue }.setPc event.caller
          ((logger.pc event.caller).resume event))

/-- The atomic step that an event names, if it can be taken. -/
def AsyncLogger.next? (threadId : Thread → UInt32)
    (logger : AsyncLogger Thread) :
    LoggerEvent Thread → Option (AsyncLogger Thread)
  | .logBelowLevel thread level =>
      if logger.pc (some thread) = .idle ∧
          level.value < logger.minLevel.value then
        some (logger.setPc (some thread) .idle)
      else none
  | .log thread level text =>
      if logger.pc (some thread) = .idle ∧
          logger.minLevel.value ≤ level.value then
        some (logger.setPc (some thread) (.logging level text))
      else none
  | .logNotRunning thread =>
      match logger.pc (some thread) with
      | .logging _ _ =>
          if logger.running = false then
            some (logger.setPc (some thread) .idle)
          else none
      | _ => none
  | .construct thread message =>
      match logger.pc (some thread) with
      | .logging level text =>
          if logger.running = true ∧ message =
              .new level text message.timestampNs (threadId thread) then
            some (logger.setPc (some thread) (.pushing message))
          else none
      | _ => none
  | .flush thread =>
      if logger.pc (some thread) = .idle then
        some (logger.setPc (some thread) (.popping .flush))
      else none
  | .stopNotRunning thread =>
      if logger.pc (some thread) = .idle ∧ logger.running = false then
        some (logger.setPc (some thread) .stopped)
      else none
  | .stop thread =>
      if logger.pc (some thread) = .idle ∧ logger.running = true then
        some (logger.setPc (some thread) .stopping)
      else none
  | .storeRunning thread =>
      if logger.pc (some thread) = .stopping then
        some ({ logger with running := false }.setPc (some thread) .joining)
      else none
  | .join thread =>
      if logger.pc (some thread) = .joining ∧ logger.pc none = .done then
        some (logger.setPc (some thread) (.popping .stop))
      else none
  | .workerRunning =>
      if logger.pc none = .testing ∧ logger.running = true then
        some (logger.setPc none (.popping .worker))
      else none
  | .workerNotRunning =>
      if logger.pc none = .testing ∧ logger.running = false then
        some (logger.setPc none .emptyLoadRead)
      else none
  | .workerLoadRead =>
      if logger.pc none = .emptyLoadRead then
        some (logger.setPc none (.emptyLoadWrite logger.queue.queue.readPos))
      else none
  | .workerLoadWrite =>
      match logger.pc none with
      | .emptyLoadWrite read =>
          some (logger.setPc none (.popping
            (if read = logger.queue.queue.writePos then .finalFlush
              else .worker)))
      | _ => none
  | .write thread message =>
      match logger.pc thread with
      | .writing caller other =>
          if other = message then
            some (logger.setPc thread caller.afterWrite)
          else none
      | _ => none
  | .queue event =>
      if (logger.pc event.caller).Calls event then
        (logger.queue.next? queueSize event).map fun queue =>
          { logger with queue }.setPc event.caller
            ((logger.pc event.caller).resume event)
      else none

theorem LoggerStep.of_next? {threadId : Thread → UInt32}
    {source target : AsyncLogger Thread} {event : LoggerEvent Thread}
    (taken : source.next? threadId event = some target) :
    LoggerStep threadId source event target := by
  cases event with
  | queue event =>
      rw [AsyncLogger.next?] at taken
      split at taken
      next calls =>
        obtain ⟨queue, edge, rfl⟩ := Option.map_eq_some_iff.mp taken
        exact .queue calls (.of_next? edge)
      next => cases taken
  | construct thread message =>
      rw [AsyncLogger.next?] at taken
      split at taken
      next level text pc =>
        split at taken
        next holds =>
          obtain rfl := Option.some.inj taken
          rw [holds.2]
          exact .construct pc holds.1
        next => cases taken
      next => cases taken
  | workerLoadWrite =>
      rw [AsyncLogger.next?] at taken
      split at taken
      next read pc =>
        obtain rfl := Option.some.inj taken
        exact .workerLoadWrite pc
      next => cases taken
  | _ =>
      rw [AsyncLogger.next?] at taken
      split at taken <;> try split at taken
      all_goals cases taken
      all_goals subst_vars
      all_goals constructor <;> first | assumption | exact And.left ‹_ ∧ _› |
        exact And.right ‹_ ∧ _›

end Steps

section Histories

variable {Thread : Type*}

def LoggerEvent.queue? : LoggerEvent Thread →
    Option (RingEvent Thread (Option Thread) LogMessage)
  | .queue event => some event
  | _ => none

/-- The steps of the queue. -/
def queueHistory (history : List (LoggerEvent Thread)) :
    List (RingEvent Thread (Option Thread) LogMessage) :=
  history.filterMap LoggerEvent.queue?

/-- The messages handed to `writeLogMessage`, in that order. -/
def written : List (LoggerEvent Thread) → List LogMessage
  | [] => []
  | .write _ message :: earlier => written earlier ++ [message]
  | _ :: earlier => written earlier

/-- The messages that the `log` calls of a thread have made, in that order. -/
def logged [DecidableEq Thread] (thread : Thread) :
    List (LoggerEvent Thread) → List LogMessage
  | [] => []
  | .construct other message :: earlier =>
      if other = thread then logged thread earlier ++ [message]
      else logged thread earlier
  | _ :: earlier => logged thread earlier

end Histories

end TradingMatcher
