import TradingMatcher.AsyncLogger
import TradingMatcher.BoundedFifo

/-!
# The protocol of the logger's threads

`stop` is called last: by one thread, when every other thread has returned from
its calls, and no call follows.  The thread that stops then waits for the worker
and pops the rest of the queue alone.
-/

namespace TradingMatcher

/-- The places of a thread that has called `stop`. -/
def LoggerPc.InStop : LoggerPc → Prop
  | .stopping | .joining | .popping .stop | .writing .stop _ | .stopped => True
  | _ => False

/-- The places of a thread that has joined the worker. -/
def LoggerPc.Joined : LoggerPc → Prop
  | .popping .stop | .writing .stop _ | .stopped => True
  | _ => False

theorem LoggerPc.Joined.inStop {pc : LoggerPc} (joined : pc.Joined) :
    pc.InStop := by
  cases pc with
  | popping caller => cases caller <;> exact joined
  | writing caller => cases caller <;> exact joined
  | stopped => trivial
  | _ => exact joined.elim

section Conditions

variable {Thread : Type*}

/-- `stop` is called when every other thread has returned, and no call follows
it. -/
def StopsLast (logger : AsyncLogger Thread) : LoggerEvent Thread → Prop
  | .logBelowLevel _ _ | .log _ _ _ | .flush _ =>
      ∀ thread, ¬(logger.pc (some thread)).InStop
  | .stop thread | .stopNotRunning thread =>
      ∀ other ≠ thread, logger.pc (some other) = .idle
  | _ => True

/-- No thread calls `flush`. -/
def NoFlush : LoggerEvent Thread → Prop
  | .flush _ => False
  | _ => True

/-- A condition on the steps of the queue. -/
def OnQueue (condition : Ring Thread (Option Thread) LogMessage →
      RingEvent Thread (Option Thread) LogMessage → Prop)
    (logger : AsyncLogger Thread) : LoggerEvent Thread → Prop
  | .queue event => condition logger.queue event
  | _ => True

theorem OnQueue.of_forall {condition : Ring Thread (Option Thread) LogMessage →
      RingEvent Thread (Option Thread) LogMessage → Prop}
    (holds : ∀ queue event, condition queue event)
    (logger : AsyncLogger Thread) (event : LoggerEvent Thread) :
    OnQueue condition logger event := by
  cases event with
  | queue event => exact holds logger.queue event
  | _ => trivial

instance inStopDecidable (pc : LoggerPc) : Decidable pc.InStop :=
  match pc with
  | .stopping | .joining | .popping .stop | .writing .stop _ | .stopped =>
      .isTrue trivial
  | .idle | .logging _ _ | .pushing _ | .testing | .emptyLoadRead
  | .emptyLoadWrite _ | .done | .popping .flush | .popping .worker
  | .popping .finalFlush | .writing .flush _ | .writing .worker _
  | .writing .finalFlush _ => .isFalse id

instance stopsLastDecidable [Fintype Thread] [DecidableEq Thread]
    (logger : AsyncLogger Thread) :
    ∀ event : LoggerEvent Thread, Decidable (StopsLast logger event)
  | .logBelowLevel _ _ | .log _ _ _ | .flush _ => inferInstanceAs
      (Decidable (∀ thread, ¬(logger.pc (some thread)).InStop))
  | .stop thread | .stopNotRunning thread => inferInstanceAs
      (Decidable (∀ other ≠ thread, logger.pc (some other) = .idle))
  | .logNotRunning _ | .construct _ _ | .storeRunning _ | .join _
  | .workerRunning | .workerNotRunning | .workerLoadRead | .workerLoadWrite
  | .write _ _ | .queue _ => .isTrue trivial

instance noFlushDecidable :
    ∀ event : LoggerEvent Thread, Decidable (NoFlush event)
  | .flush _ => .isFalse id
  | .logBelowLevel _ _ | .log _ _ _ | .logNotRunning _ | .construct _ _
  | .stop _ | .stopNotRunning _ | .storeRunning _ | .join _ | .workerRunning
  | .workerNotRunning | .workerLoadRead | .workerLoadWrite | .write _ _
  | .queue _ => .isTrue trivial

instance onQueueDecidable (condition : Ring Thread (Option Thread) LogMessage →
      RingEvent Thread (Option Thread) LogMessage → Prop)
    [∀ queue event, Decidable (condition queue event)]
    (logger : AsyncLogger Thread) :
    ∀ event : LoggerEvent Thread, Decidable (OnQueue condition logger event)
  | .queue event => inferInstanceAs (Decidable (condition logger.queue event))
  | .logBelowLevel _ _ | .log _ _ _ | .logNotRunning _ | .construct _ _
  | .flush _ | .stop _ | .stopNotRunning _ | .storeRunning _ | .join _
  | .workerRunning | .workerNotRunning | .workerLoadRead | .workerLoadWrite
  | .write _ _ => .isTrue trivial

end Conditions

section Discipline

variable {Thread : Type*} [DecidableEq Thread] {threadId : Thread → UInt32}
  {source target : AsyncLogger Thread} {event : LoggerEvent Thread}

/-- Inside `push` and `pop` a thread is at a place that calls them; from its
call of `stop` on a thread is alone, and once it has joined the worker, the
worker has ended. -/
structure Disciplined (logger : AsyncLogger Thread) : Prop where
  pushing : ∀ thread message, (logger.queue.push thread).item? = some message →
    logger.pc (some thread) = .pushing message
  popping : ∀ thread, logger.queue.pop thread ≠ .outside →
    ∃ caller, logger.pc thread = .popping caller
  alone : ∀ thread, (logger.pc (some thread)).InStop →
    ∀ other ≠ thread, logger.pc (some other) = .idle
  running : logger.running = false →
    ∃ thread, (logger.pc (some thread)).InStop
  joined : ∀ thread, (logger.pc (some thread)).Joined →
    logger.pc none = .done

omit [DecidableEq Thread] in
/-- A thread that calls `stop` last finds the flag set: it is cleared in `stop`
only, and no thread is there. -/
theorem Disciplined.running_of_stop {logger : AsyncLogger Thread}
    (disciplined : Disciplined logger) {thread : Thread}
    (idle : logger.pc (some thread) = .idle)
    (others : ∀ other ≠ thread, logger.pc (some other) = .idle) :
    logger.running = true := by
  by_contra cleared
  obtain ⟨other, inStop⟩ :=
    disciplined.running (Bool.eq_false_of_not_eq_true cleared)
  have allIdle : logger.pc (some other) = .idle := by
    by_cases same : other = thread
    · rw [same, idle]
    · exact others other same
  rw [allIdle] at inStop
  exact inStop.elim

namespace LoggerStep

/-- A step outside the queue moves one thread, which is not in `push` or
`pop`. -/
theorem outside_queue (edge : LoggerStep threadId source event target)
    (outside : event.queue? = none) :
    target.queue = source.queue ∧ ∃ thread after,
      (∀ other, target.pc other =
        if other = thread then after else source.pc other) ∧
      (∀ message, source.pc thread ≠ .pushing message) ∧
      ∀ caller, source.pc thread ≠ .popping caller := by
  cases edge with
  | queue => cases outside
  | logBelowLevel pc | log pc | logNotRunning pc | construct pc | flush pc
  | stopNotRunning pc | stop pc | storeRunning pc | join pc | workerRunning pc
  | workerNotRunning pc | workerLoadRead pc | workerLoadWrite pc | write pc =>
      exact ⟨rfl, _, _, AsyncLogger.setPc_pc _ _ _, by simp [pc], by simp [pc]⟩

theorem queue_eq (edge : LoggerStep threadId source event target)
    (outside : event.queue? = none) : target.queue = source.queue :=
  (edge.outside_queue outside).1

/-- Outside the queue, the threads inside `pop` stay where they are. -/
theorem pc_of_popping (edge : LoggerStep threadId source event target)
    (outside : event.queue? = none) {thread : Option Thread}
    {caller : PopCaller} (place : source.pc thread = .popping caller) :
    target.pc thread = .popping caller := by
  obtain ⟨-, moved, after, pc, -, notPopping⟩ := edge.outside_queue outside
  rw [pc, if_neg, place]
  rintro rfl
  exact notPopping caller place

theorem pc_of_pushing (edge : LoggerStep threadId source event target)
    (outside : event.queue? = none) {thread : Option Thread}
    {message : LogMessage} (place : source.pc thread = .pushing message) :
    target.pc thread = .pushing message := by
  obtain ⟨-, moved, after, pc, notPushing, -⟩ := edge.outside_queue outside
  rw [pc, if_neg, place]
  rintro rfl
  exact notPushing message place

end LoggerStep

namespace Disciplined

omit [DecidableEq Thread] in
theorem started (minLevel : LogLevel) :
    Disciplined (.started minLevel : AsyncLogger Thread) := by
  constructor <;> simp [AsyncLogger.started, Ring.new, LoggerPc.InStop,
    LoggerPc.Joined, PushPc.item?]

/-- A step of the queue is taken from inside `push` or `pop`. -/
theorem caller_place (disciplined : Disciplined source)
    {event : RingEvent Thread (Option Thread) LogMessage}
    {queue : Ring Thread (Option Thread) LogMessage}
    (calls : (source.pc event.caller).Calls event)
    (edge : RingStep queueSize source.queue event queue) :
    (∃ message, source.pc event.caller = .pushing message) ∨
      ∃ caller, source.pc event.caller = .popping caller := by
  cases edge with
  | pushLoadWrite => exact .inl ⟨_, calls⟩
  | popLoadRead => exact .inr (LoggerPc.isPopping_iff.mp calls)
  | pushFull pc | pushRoom pc | pushWriteSlot pc | pushStoreWrite pc =>
      exact .inl ⟨_, disciplined.pushing _ _ (by rw [pc]; rfl)⟩
  | popEmpty pc | popAvailable pc | popReadSlot pc | popStoreRead pc =>
      exact .inr (disciplined.popping _ (by simp [RingEvent.caller, pc]))

/-- Once a thread has joined the worker, no other thread uses the queue. -/
theorem caller_of_joined (disciplined : Disciplined source) {thread : Thread}
    (joined : (source.pc (some thread)).Joined)
    {event : RingEvent Thread (Option Thread) LogMessage}
    {queue : Ring Thread (Option Thread) LogMessage}
    (calls : (source.pc event.caller).Calls event)
    (edge : RingStep queueSize source.queue event queue) :
    event.caller = some thread := by
  by_contra differ
  have away : source.pc event.caller = .idle ∨
      source.pc event.caller = .done := by
    cases named : event.caller with
    | none => exact .inr (disciplined.joined thread joined)
    | some other =>
        rw [named] at differ
        exact .inl (disciplined.alone thread joined.inStop other
          fun same => differ (congrArg some same))
  have place := disciplined.caller_place calls edge
  grind

end Disciplined

/-- What a step of one thread means for `stop`: who is in it, who has joined
the worker, and whether the flag is set. -/
structure Turn (source target : AsyncLogger Thread) (thread : Option Thread)
    (after : LoggerPc) : Prop where
  pc : ∀ other, target.pc other =
    if other = thread then after else source.pc other
  running : target.running = source.running ∨
    ∃ stopping, thread = some stopping ∧ after.InStop
  stays : (source.pc thread).InStop → after.InStop
  enters : after.InStop → (source.pc thread).InStop ∨
    ∀ other, some other ≠ thread → source.pc (some other) = .idle
  leaves : source.pc thread = .idle →
    ∀ other, some other ≠ thread → ¬(source.pc (some other)).InStop
  joins : after.Joined → (source.pc thread).Joined ∨ source.pc none = .done
  works : source.pc thread ≠ .done

namespace Disciplined

theorem turn (disciplined : Disciplined source)
    (stopsLast : StopsLast source event)
    (edge : LoggerStep threadId source event target) :
    ∃ thread after, Turn source target thread after := by
  cases edge with
  | stopNotRunning pc notRunning =>
      rw [disciplined.running_of_stop pc stopsLast] at notRunning
      cases notRunning
  | logBelowLevel pc | log pc | flush pc =>
      refine ⟨_, _, AsyncLogger.setPc_pc _ _ _, .inl rfl, ?_, ?_, ?_, ?_, ?_⟩
      case refine_3 => exact fun _ other _ => stopsLast other
      all_goals simp [pc, LoggerPc.InStop, LoggerPc.Joined]
  | @stop thread pc =>
      have others : ∀ other, some other ≠ some thread →
          source.pc (some other) = .idle := fun other differ =>
        stopsLast other fun same => differ (congrArg some same)
      refine ⟨_, _, AsyncLogger.setPc_pc _ _ _, .inl rfl, ?_, ?_, ?_, ?_, ?_⟩
      case refine_2 => exact fun _ => .inr others
      case refine_3 =>
        intro _ other differ
        simp [others other differ, LoggerPc.InStop]
      all_goals simp [pc, LoggerPc.InStop, LoggerPc.Joined]
  | storeRunning pc =>
      refine ⟨_, _, AsyncLogger.setPc_pc _ _ _, .inr ⟨_, rfl, trivial⟩, ?_, ?_,
        ?_, ?_, ?_⟩ <;> simp [pc, LoggerPc.InStop, LoggerPc.Joined]
  | join pc ended =>
      refine ⟨_, _, AsyncLogger.setPc_pc _ _ _, .inl rfl, ?_, ?_, ?_, ?_, ?_⟩ <;>
        simp [pc, ended, LoggerPc.InStop]
  | @write thread caller message pc =>
      refine ⟨_, _, AsyncLogger.setPc_pc _ _ _, .inl rfl, ?_, ?_, ?_, ?_, ?_⟩ <;>
        cases caller <;>
        simp [pc, LoggerPc.InStop, LoggerPc.Joined, PopCaller.afterWrite]
  | @workerLoadWrite read pc =>
      refine ⟨_, _, AsyncLogger.setPc_pc _ _ _, .inl rfl, ?_, ?_, ?_, ?_, ?_⟩ <;>
        by_cases empty : read = source.queue.queue.writePos <;>
        simp [pc, empty, LoggerPc.InStop, LoggerPc.Joined]
  | queue calls edge =>
      have place := disciplined.caller_place calls edge
      cases edge with
      | @popEmpty thread _ pc | @popStoreRead thread _ _ pc =>
          obtain ⟨caller, place⟩ := disciplined.popping thread (by simp [pc])
          refine ⟨_, _, AsyncLogger.setPc_pc _ _ _, .inl rfl, ?_, ?_, ?_, ?_,
            ?_⟩ <;> cases caller <;>
            simp [place, RingEvent.caller, LoggerPc.resume, LoggerPc.InStop,
              LoggerPc.Joined, PopCaller.afterEmpty]
      | @pushFull thread _ _ pc | @pushStoreWrite thread _ _ pc =>
          have place := disciplined.pushing thread _ (by rw [pc]; rfl)
          refine ⟨_, _, AsyncLogger.setPc_pc _ _ _, .inl rfl, ?_, ?_, ?_, ?_,
            ?_⟩ <;>
            simp [place, RingEvent.caller, LoggerPc.resume, LoggerPc.InStop,
              LoggerPc.Joined]
      | _ =>
          -- The call goes on, and its thread stays at the same place.
          refine ⟨_, _, AsyncLogger.setPc_pc _ _ _, .inl rfl, id, .inl, ?_, .inl,
            ?_⟩ <;> rcases place with ⟨message, place⟩ | ⟨caller, place⟩ <;>
            simp [place]
  | _ pc =>
      refine ⟨_, _, AsyncLogger.setPc_pc _ _ _, .inl rfl, ?_, ?_, ?_, ?_, ?_⟩ <;>
        simp [pc, LoggerPc.InStop, LoggerPc.Joined]

end Disciplined

namespace Turn

variable {thread : Option Thread} {after : LoggerPc}

theorem alone (turn : Turn source target thread after)
    (disciplined : Disciplined source) {inside : Thread}
    (inStop : (target.pc (some inside)).InStop) {other : Thread}
    (differ : other ≠ inside) : target.pc (some other) = .idle := by
  have names : some other ≠ some inside := fun same =>
    differ (Option.some.inj same)
  by_cases moves : some inside = thread
  · subst moves
    rw [turn.pc, if_pos rfl] at inStop
    rw [turn.pc, if_neg names]
    rcases turn.enters inStop with before | others
    · exact disciplined.alone inside before other differ
    · exact others other names
  · rw [turn.pc, if_neg moves] at inStop
    have idle := disciplined.alone inside inStop other differ
    by_cases otherMoves : some other = thread
    · subst otherMoves
      exact (turn.leaves idle inside moves inStop).elim
    · rw [turn.pc, if_neg otherMoves, idle]

theorem exists_inStop (turn : Turn source target thread after)
    (disciplined : Disciplined source) (cleared : target.running = false) :
    ∃ inside, (target.pc (some inside)).InStop := by
  rcases turn.running with same | ⟨stopping, rfl, inStop⟩
  · obtain ⟨inside, inStop⟩ := disciplined.running (same ▸ cleared)
    refine ⟨inside, ?_⟩
    rw [turn.pc]
    split
    next moves =>
      subst moves
      exact turn.stays inStop
    next => exact inStop
  · refine ⟨stopping, ?_⟩
    rw [turn.pc, if_pos rfl]
    exact inStop

theorem ended (turn : Turn source target thread after)
    (disciplined : Disciplined source) {inside : Thread}
    (joined : (target.pc (some inside)).Joined) : target.pc none = .done := by
  have before : source.pc none = .done := by
    by_cases moves : some inside = thread
    · subst moves
      rw [turn.pc, if_pos rfl] at joined
      rcases turn.joins joined with earlier | done
      · exact disciplined.joined inside earlier
      · exact done
    · rw [turn.pc, if_neg moves] at joined
      exact disciplined.joined inside joined
  rw [turn.pc, if_neg, before]
  rintro rfl
  exact turn.works before

end Turn

namespace Disciplined

/-- A step of the queue keeps a thread in `push` or `pop` at the place that calls
it. -/
theorem queue_step (disciplined : Disciplined source)
    {step : RingEvent Thread (Option Thread) LogMessage}
    (edge : LoggerStep threadId source (.queue step) target) :
    (∀ thread message, (target.queue.push thread).item? = some message →
      target.pc (some thread) = .pushing message) ∧
    ∀ thread, target.queue.pop thread ≠ .outside →
      ∃ caller, target.pc thread = .popping caller := by
  obtain ⟨pushing, popping, -, -, -⟩ := disciplined
  cases edge with
  | queue calls edge =>
      cases edge with
      | @popLoadRead thread pc =>
          obtain ⟨caller, place⟩ := LoggerPc.isPopping_iff.mp calls
          simp only [RingEvent.caller, LoggerPc.resume] at place ⊢
          constructor <;> grind
      | @popEmpty thread _ pc | @popStoreRead thread _ _ pc =>
          obtain ⟨caller, place⟩ := popping thread (by rw [pc]; nofun)
          simp only [RingEvent.caller, LoggerPc.resume, place]
          constructor <;> grind
      | @pushFull thread _ _ pc | @pushRoom thread _ _ pc
      | @pushWriteSlot thread _ _ pc | @pushStoreWrite thread _ _ pc =>
          have place := pushing thread _ (by rw [pc]; rfl)
          simp only [RingEvent.caller, LoggerPc.resume]
          constructor <;> grind [PushPc.item?]
      | _ =>
          simp only [RingEvent.caller, LoggerPc.resume, LoggerPc.Calls]
            at calls ⊢
          constructor <;> grind [PushPc.item?]

theorem step (disciplined : Disciplined source)
    (stopsLast : StopsLast source event)
    (edge : LoggerStep threadId source event target) :
    Disciplined target := by
  obtain ⟨thread, after, turn⟩ := disciplined.turn stopsLast edge
  have inside :
      (∀ thread message, (target.queue.push thread).item? = some message →
        target.pc (some thread) = .pushing message) ∧
      ∀ thread, target.queue.pop thread ≠ .outside →
        ∃ caller, target.pc thread = .popping caller := by
    cases observed : event.queue? with
    | none =>
        rw [edge.queue_eq observed]
        constructor
        · intro thread message inPush
          exact edge.pc_of_pushing observed
            (disciplined.pushing thread message inPush)
        · intro thread inPop
          obtain ⟨caller, place⟩ := disciplined.popping thread inPop
          exact ⟨caller, edge.pc_of_popping observed place⟩
    | some step =>
        cases event with
        | queue => exact disciplined.queue_step edge
        | _ => cases observed
  exact {
    pushing := inside.1
    popping := inside.2
    alone := fun _ inStop _ differ => turn.alone disciplined inStop differ
    running := turn.exists_inStop disciplined
    joined := fun _ => turn.ended disciplined }

end Disciplined

/-- Outside the queue, no thread goes to the end of `stop`. -/
theorem LoggerStep.pc_of_stopped
    (edge : LoggerStep threadId source event target)
    (disciplined : Disciplined source) (stopsLast : StopsLast source event)
    (outside : event.queue? = none) {thread : Thread}
    (stopped : target.pc (some thread) = .stopped) :
    source.pc (some thread) = .stopped := by
  cases edge with
  | queue => cases outside
  | stopNotRunning pc notRunning =>
      rw [disciplined.running_of_stop pc stopsLast] at notRunning
      cases notRunning
  | @write _ caller => cases caller <;> grind [PopCaller.afterWrite]
  | _ => grind

end Discipline

end TradingMatcher
