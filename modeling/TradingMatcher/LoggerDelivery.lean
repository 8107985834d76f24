import TradingMatcher.LoggerProtocol

/-!
# What the logger writes
-/

namespace TradingMatcher

section Delivery

variable {Thread : Type*} [DecidableEq Thread] {threadId : Thread → UInt32}
  {minLevel : LogLevel} {source target logger : AsyncLogger Thread}
  {event : LoggerEvent Thread} {history : List (LoggerEvent Thread)}

/-- A run of the logger runs its queue. -/
theorem queueRun {condition : Ring Thread (Option Thread) LogMessage →
      RingEvent Thread (Option Thread) LogMessage → Prop}
    (run : Run (Guarded (OnQueue condition) (LoggerStep threadId))
      (.started minLevel) history logger) :
    Run (Guarded condition (RingStep queueSize)) (.new fun _ => .default)
      (queueHistory history) logger.queue := by
  apply run.project AsyncLogger.queue LoggerEvent.queue?
  · intro _ _ _ edge notQueue
    cases edge.2 with
    | queue => cases notQueue
    | _ => rfl
  · intro _ _ _ _ edge observed
    obtain ⟨holds, edge⟩ := edge
    cases edge with
    | queue _ edge =>
        obtain rfl := Option.some.inj observed
        exact ⟨holds, edge⟩
    | _ => cases observed

/-- The message that a thread has popped and not yet written. -/
def LoggerPc.held : LoggerPc → List LogMessage
  | .writing _ message => [message]
  | _ => []

/-- How a step hands messages on: from the queue to a thread, and from the
thread to the output. -/
inductive Hands (source target : AsyncLogger Thread) :
    LoggerEvent Thread → Prop
  | takes {thread : Option Thread} {message : LogMessage}
      (popping : ∃ caller, source.pc thread = .popping caller)
      (holds : (target.pc thread).held = [message])
      (others : ∀ other ≠ thread, target.pc other = source.pc other) :
      Hands source target (.queue (.popStoreRead thread message))
  | writes {thread : Option Thread} {message : LogMessage}
      (held : (source.pc thread).held = [message])
      (empty : (target.pc thread).held = [])
      (others : ∀ other ≠ thread, target.pc other = source.pc other) :
      Hands source target (.write thread message)
  | keeps {event : LoggerEvent Thread}
      (writes : ∀ history, written (event :: history) = written history)
      (pops : ∀ history, popped (queueHistory (event :: history)) =
        popped (queueHistory history))
      (held : ∀ thread, (target.pc thread).held = (source.pc thread).held) :
      Hands source target event

theorem Disciplined.hands (disciplined : Disciplined source)
    (edge : LoggerStep threadId source event target) :
    Hands source target event := by
  cases edge with
  | @write thread caller message pc =>
      apply Hands.writes
      · rw [pc, LoggerPc.held]
      · cases caller <;> simp [PopCaller.afterWrite, LoggerPc.held]
      · intro other differ
        simp [differ]
  | queue calls edge =>
      cases edge with
      | @popStoreRead thread _ _ pc =>
          obtain ⟨caller, place⟩ := disciplined.popping thread (by simp [pc])
          apply Hands.takes ⟨caller, place⟩
          · simp [RingEvent.caller, LoggerPc.resume, place, LoggerPc.held]
          · intro other differ
            simp [RingEvent.caller, differ]
      | @popEmpty thread _ pc =>
          obtain ⟨caller, place⟩ := disciplined.popping thread (by simp [pc])
          apply Hands.keeps (fun _ => rfl) (fun _ => rfl)
          cases caller <;>
            grind [LoggerPc.held, RingEvent.caller, LoggerPc.resume,
              PopCaller.afterEmpty]
      | @pushFull thread _ _ pc | @pushStoreWrite thread _ _ pc =>
          have place := disciplined.pushing thread _ (by rw [pc]; rfl)
          apply Hands.keeps (fun _ => rfl) (fun _ => rfl)
          grind [LoggerPc.held, RingEvent.caller, LoggerPc.resume]
      | _ =>
          apply Hands.keeps (fun _ => rfl) (fun _ => rfl)
          grind [LoggerPc.held, RingEvent.caller, LoggerPc.resume]
  | _ =>
      apply Hands.keeps (fun _ => rfl) (fun _ => rfl)
      grind [LoggerPc.held]

/-- The read position that a thread loads after it has joined the worker stays
the current one. -/
def JoinedUpToDate (logger : AsyncLogger Thread) : Prop :=
  ∀ thread, (logger.pc (some thread)).Joined →
    (logger.queue.pop (some thread)).UpToDate logger.queue.queue.readPos

theorem Disciplined.joinedUpToDate (disciplined : Disciplined source)
    (upToDate : JoinedUpToDate source)
    (edge : LoggerStep threadId source event target) :
    JoinedUpToDate target := by
  intro thread joined
  cases observed : event.queue? with
  | none =>
      rw [edge.queue_eq observed]
      by_cases inPop : source.queue.pop (some thread) = .outside
      · rw [inPop]
        trivial
      · obtain ⟨caller, place⟩ := disciplined.popping _ inPop
        rw [edge.pc_of_popping observed place, ← place] at joined
        exact upToDate thread joined
  | some step =>
      cases edge with
      | queue calls edge =>
          cases edge with
          | @popStoreRead consumer _ _ pc =>
              by_cases same : some thread = consumer
              · simp [same, PopPc.UpToDate]
              · have before : (source.pc (some thread)).Joined := by
                  simpa [RingEvent.caller, same] using joined
                have alone := disciplined.caller_of_joined before calls
                  (.popStoreRead pc)
                exact (same alone.symm).elim
          | _ =>
              have before := upToDate thread
              grind [PopPc.UpToDate, RingEvent.caller, LoggerPc.resume,
                LoggerPc.Joined]
      | _ => cases observed

/-- When `stop` returns, the queue is empty. -/
def Drained (history : List (LoggerEvent Thread))
    (logger : AsyncLogger Thread) : Prop :=
  ∀ thread, logger.pc (some thread) = .stopped →
    popped (queueHistory history) = accepted (queueHistory history)

theorem Disciplined.drained (disciplined : Disciplined source)
    (stopsLast : StopsLast source event) (upToDate : JoinedUpToDate source)
    (fifo : Fifo queueSize (accepted (queueHistory history))
      (popped (queueHistory history)) source.queue)
    (drained : Drained history source)
    (edge : LoggerStep threadId source event target) :
    Drained (event :: history) target := by
  intro thread stopped
  cases observed : event.queue? with
  | none =>
      rw [queueHistory, List.filterMap_cons_none observed]
      exact drained thread
        (edge.pc_of_stopped disciplined stopsLast observed stopped)
  | some step =>
      cases edge with
      | queue calls edge =>
          have place := disciplined.caller_place calls edge
          have notYet : source.pc (some thread) ≠ .stopped := by
            intro already
            have caller := disciplined.caller_of_joined
              (by rw [already]; trivial) calls edge
            rw [caller, already] at place
            grind
          cases edge with
          | @popEmpty consumer currentRead pc empty =>
              have same : some thread = consumer := by
                by_contra differ
                simp [RingEvent.caller, differ, notYet] at stopped
              subst same
              have joined : (source.pc (some thread)).Joined := by
                obtain ⟨caller, place⟩ :=
                  disciplined.popping (some thread) (by simp [pc])
                cases caller <;>
                  grind [RingEvent.caller, LoggerPc.resume,
                    PopCaller.afterEmpty, LoggerPc.Joined]
              have current := upToDate thread joined
              rw [pc, PopPc.UpToDate] at current
              rw [current, fifo.readPos_eq_writePos_iff] at empty
              exact empty
          | _ => grind [RingEvent.caller, LoggerPc.resume]
      | _ => cases observed

/-- `stop` is last, and no two pushes or pops disturb each other. -/
def Orderly (logger : AsyncLogger Thread) (event : LoggerEvent Thread) : Prop :=
  StopsLast logger event ∧ OnQueue Apart logger event

theorem disciplined_of_run
    (run : Run (Guarded StopsLast (LoggerStep threadId)) (.started minLevel)
      history logger) : Disciplined logger := by
  apply run.invariant fun _ logger => Disciplined logger
  · exact .started minLevel
  · intro _ _ _ _ _ disciplined edge
    exact disciplined.step edge.1 edge.2

theorem fifo_of_run
    (run : Run (Guarded Orderly (LoggerStep threadId)) (.started minLevel)
      history logger) :
    Fifo queueSize (accepted (queueHistory history))
      (popped (queueHistory history)) logger.queue :=
  .of_run (queueRun (run.mono fun edge => ⟨edge.1.2, edge.2⟩))

/-- What was popped when `stop` returns is all that was accepted. -/
theorem drained_of_run
    (run : Run (Guarded Orderly (LoggerStep threadId)) (.started minLevel)
      history logger) : JoinedUpToDate logger ∧ Drained history logger := by
  apply run.invariant fun history logger =>
    JoinedUpToDate logger ∧ Drained history logger
  · constructor <;> intro thread place
    · exact trivial
    · cases place
  · intro _ _ _ _ earlier invariant edge
    have disciplined := disciplined_of_run
      (earlier.mono fun edge => ⟨edge.1.1, edge.2⟩)
    exact ⟨disciplined.joinedUpToDate invariant.1 edge.2,
      disciplined.drained edge.1.1 invariant.1 (fifo_of_run earlier)
        invariant.2 edge.2⟩

/-- What the threads hold changes with one of them. -/
theorem sum_held_add [Fintype Thread] {thread : Option Thread}
    (others : ∀ other ≠ thread, target.pc other = source.pc other) :
    (∑ other, ((target.pc other).held : Multiset LogMessage)) +
        (source.pc thread).held =
      (∑ other, ((source.pc other).held : Multiset LogMessage)) +
        (target.pc thread).held := by
  have split := fun logger : AsyncLogger Thread =>
    Finset.add_sum_erase Finset.univ
      (fun other => ((logger.pc other).held : Multiset LogMessage))
      (Finset.mem_univ thread)
  have rest := Finset.sum_congr (Eq.refl (Finset.univ.erase thread))
    fun other member => congrArg
      (fun pc : LoggerPc => (pc.held : Multiset LogMessage))
      (others other (Finset.ne_of_mem_erase member))
  rw [← split target, ← split source, rest]
  ac_rfl

/-- What was popped has been written or is held by a thread. -/
theorem popped_eq_written_add_held [Fintype Thread]
    (run : Run (Guarded StopsLast (LoggerStep threadId)) (.started minLevel)
      history logger) :
    (popped (queueHistory history) : Multiset LogMessage) =
      written history +
        ∑ thread, ((logger.pc thread).held : Multiset LogMessage) := by
  apply run.invariant fun history logger =>
    (popped (queueHistory history) : Multiset LogMessage) =
      written history +
        ∑ thread, ((logger.pc thread).held : Multiset LogMessage)
  · have none : ∀ thread : Option Thread, ((AsyncLogger.started
        minLevel : AsyncLogger Thread).pc thread).held = [] := by
      intro thread
      cases thread <;> rfl
    simp [none, queueHistory, popped, written]
  · intro earlier source _ target run balanced edge
    have hands := (disciplined_of_run run).hands edge.2
    cases hands with
    | @takes thread message popping holds others =>
        obtain ⟨caller, place⟩ := popping
        have empty : (source.pc thread).held = [] := by
          rw [place]
          rfl
        have sums := sum_held_add others
        rw [empty, holds, Multiset.coe_nil, add_zero] at sums
        change ((popped (queueHistory earlier) ++ [message] : List LogMessage) :
          Multiset LogMessage) = written earlier + _
        rw [← Multiset.coe_add, balanced, sums, add_assoc]
    | @writes thread message held empty others =>
        have sums := sum_held_add others
        rw [held, empty, Multiset.coe_nil, add_zero] at sums
        change (popped (queueHistory earlier) : Multiset LogMessage) =
          (written earlier ++ [message] : List LogMessage) + _
        rw [← Multiset.coe_add, balanced, ← sums]
        ac_rfl
    | keeps writes pops held =>
        simp only [writes, pops, held]
        exact balanced

end Delivery

section OneThread

variable {threadId : Unit → UInt32} {minLevel : LogLevel}
  {source target logger : AsyncLogger Unit} {event : LoggerEvent Unit}
  {history : List (LoggerEvent Unit)}

/-- The calls of one thread follow each other, and its `stop` is the last. -/
theorem stopsLast_of_one (edge : LoggerStep threadId source event target) :
    StopsLast source event := by
  cases edge with
  | logBelowLevel pc | log pc | flush pc =>
      intro thread inStop
      rw [pc] at inStop
      exact inStop
  | stop | stopNotRunning =>
      intro other differ
      exact (differ rfl).elim
  | _ => trivial

/-- One thread only ever pushes to the queue alone. -/
theorem pushesApart_of_one
    (run : Run (LoggerStep threadId) (.started minLevel) history logger)
    (event : LoggerEvent Unit) : OnQueue PushesApart logger event := by
  cases event with
  | queue event =>
      have alone : Run (Guarded (OnQueue PushesAlone) (LoggerStep threadId))
          (.started minLevel) history logger :=
        run.mono fun edge => ⟨.of_forall pushesAlone_of_one _ _, edge⟩
      exact PushesAlone.apart (queueRun alone) (pushesAlone_of_one _ event)
  | _ => trivial

theorem orderly_of_one
    (run : Run (Guarded (OnQueue PopsApart) (LoggerStep threadId))
      (.started minLevel) history logger) :
    Run (Guarded Orderly (LoggerStep threadId)) (.started minLevel) history
      logger := by
  apply run.strengthen
  rintro _ _ event _ earlier ⟨popsApart, edge⟩
  refine ⟨⟨stopsLast_of_one edge, ?_⟩, edge⟩
  have pushesApart := pushesApart_of_one earlier.unguard event
  cases event with
  | queue event => exact ⟨pushesApart, popsApart⟩
  | _ => trivial

/-- With one application thread, as long as its pops and the worker's do not
disturb each other: when `stop` has returned, the accepted messages have been
popped in their order, and each has been written once. -/
theorem oneThread_writes_accepted
    (run : Run (Guarded (OnQueue PopsApart) (LoggerStep threadId))
      (.started minLevel) history logger)
    (returned : logger.pc (some ()) = .stopped) :
    popped (queueHistory history) = accepted (queueHistory history) ∧
      (written history).Perm (accepted (queueHistory history)) := by
  have orderly := orderly_of_one run
  have stopsLast : Run (Guarded StopsLast (LoggerStep threadId))
      (.started minLevel) history logger :=
    orderly.mono fun edge => ⟨edge.1.1, edge.2⟩
  have drained := (drained_of_run orderly).2 () returned
  have ended : logger.pc none = .done :=
    (disciplined_of_run stopsLast).joined () (by rw [returned]; trivial)
  have balanced := popped_eq_written_add_held stopsLast
  have released : ∑ thread, ((logger.pc thread).held : Multiset LogMessage) =
      0 := by
    rw [Fintype.sum_option, ended, Fintype.sum_unique, returned]
    rfl
  rw [released, add_zero, Multiset.coe_eq_coe, drained] at balanced
  exact ⟨drained, balanced.symm⟩

end OneThread

section Replays

variable {Thread : Type*}

/-- A call of `log` up to its `push`, newest first. -/
def logSteps (thread : Thread) (text : List UInt8) (message : LogMessage) :
    List (LoggerEvent Thread) :=
  [.construct thread message, .log thread .info text]

/-- A `push` that finds room. -/
def pushSteps (thread : Thread) (message : LogMessage) :
    List (LoggerEvent Thread) :=
  [.queue (.pushStoreWrite thread message), .queue (.pushWriteSlot thread),
    .queue (.pushRoom thread), .queue (.pushLoadWrite thread message)]

/-- A `pop` that finds a message, with the write that follows. -/
def popSteps (thread : Option Thread) (message : LogMessage) :
    List (LoggerEvent Thread) :=
  [.write thread message, .queue (.popStoreRead thread message),
    .queue (.popReadSlot thread), .queue (.popAvailable thread),
    .queue (.popLoadRead thread)]

def emptySteps (thread : Option Thread) : List (LoggerEvent Thread) :=
  [.queue (.popEmpty thread), .queue (.popLoadRead thread)]

/-- A `stop` that finds the queue empty and the worker at the test of its
loop. -/
def stopSteps (thread : Thread) : List (LoggerEvent Thread) :=
  emptySteps (some thread) ++ [.join thread] ++ emptySteps none ++
    [.workerLoadWrite, .workerLoadRead, .workerNotRunning,
      .storeRunning thread, .stop thread]

def sampleText : List UInt8 := [72, 105]

def sampleMessage : LogMessage := .new .info sampleText 1 7

end Replays

section OneThreadReplays

def secondMessage : LogMessage := .new .info [72, 111] 2 7

/-- Of two logged messages the worker writes the first and `flush`, called
afterwards, the second. -/
def writtenByFlush : List (LoggerEvent Unit) :=
  stopSteps () ++ emptySteps (some ()) ++ popSteps (some ()) secondMessage ++
    [.flush ()] ++ popSteps none sampleMessage ++ [.workerRunning] ++
    pushSteps () secondMessage ++ logSteps () [72, 111] secondMessage ++
    pushSteps () sampleMessage ++ logSteps () sampleText sampleMessage

theorem oneThread_writes_accepted_flushed :
    ∃ logger, Run (Guarded (OnQueue PopsApart) (LoggerStep fun _ => 7))
        (.started .debug) writtenByFlush logger ∧
      logger.pc (some ()) = .stopped ∧
      popped (queueHistory writtenByFlush) =
        accepted (queueHistory writtenByFlush) ∧
      (written writtenByFlush).Perm (accepted (queueHistory writtenByFlush)) ∧
      accepted (queueHistory writtenByFlush) =
        [sampleMessage, secondMessage] := by
  have replays : (Run.replay (Run.guardNext (OnQueue PopsApart)
      (AsyncLogger.next? fun _ => 7)) (.started .debug) writtenByFlush).any
        (fun logger => logger.pc (some ()) = .stopped) := by decide +kernel
  obtain ⟨logger, run, returned⟩ := Run.exists_of_replay
    (Run.guardNext_sound LoggerStep.of_next?) _ _ _ replays
  have returned := of_decide_eq_true returned
  obtain ⟨drained, once⟩ := oneThread_writes_accepted run returned
  exact ⟨logger, run, returned, drained, once, rfl⟩

/-- `flush` and the worker load the same read position, and both pop and write
the one message. -/
def writtenTwice : List (LoggerEvent Unit) :=
  stopSteps () ++ emptySteps (some ()) ++
    [.write none sampleMessage, .write (some ()) sampleMessage,
      .queue (.popStoreRead none sampleMessage),
      .queue (.popStoreRead (some ()) sampleMessage),
      .queue (.popReadSlot none), .queue (.popReadSlot (some ())),
      .queue (.popAvailable none), .queue (.popAvailable (some ())),
      .queue (.popLoadRead none), .workerRunning,
      .queue (.popLoadRead (some ())), .flush ()] ++
    pushSteps () sampleMessage ++ logSteps () sampleText sampleMessage

theorem oneThread_writes_twice :
    ¬∀ (history : List (LoggerEvent Unit)) (logger : AsyncLogger Unit),
      Run (LoggerStep fun _ => 7) (.started .debug) history logger →
      logger.pc (some ()) = .stopped →
        popped (queueHistory history) = accepted (queueHistory history) ∧
          (written history).Perm (accepted (queueHistory history)) := by
  intro delivers
  have replays : (Run.replay (AsyncLogger.next? fun _ => 7)
      (.started .debug) writtenTwice).any
        (fun logger => logger.pc (some ()) = .stopped) := by decide +kernel
  obtain ⟨logger, run, returned⟩ := Run.exists_of_replay LoggerStep.of_next?
    _ _ _ replays
  have once := (delivers _ logger run (of_decide_eq_true returned)).2
  have twice : (written writtenTwice).length = 2 := rfl
  rw [once.length_eq] at twice
  exact absurd twice (by decide)

end OneThreadReplays

end TradingMatcher
