import TradingMatcher.LoggerDelivery

/-!
# Logging from several threads

Without `flush` the worker, and after it the thread in `stop`, are the only ones
to pop: messages are written in the order in which they were accepted.  Then only
two pushes that overlap can lose a message.
-/

namespace TradingMatcher

section WithoutFlush

variable {Thread : Type*} [DecidableEq Thread] {threadId : Thread → UInt32}
  {minLevel : LogLevel} {source target logger : AsyncLogger Thread}
  {event : LoggerEvent Thread} {history : List (LoggerEvent Thread)}

/-- The places of a thread that pops or writes. -/
def LoggerPc.Consuming : LoggerPc → Prop
  | .popping _ | .writing _ _ => True
  | _ => False

/-- No application thread pops before it has joined the worker. -/
def PopsInStop (logger : AsyncLogger Thread) : Prop :=
  ∀ thread, (logger.pc (some thread)).Consuming →
    (logger.pc (some thread)).Joined

theorem Disciplined.popsInStop (disciplined : Disciplined source)
    (noFlush : NoFlush event) (inStop : PopsInStop source)
    (edge : LoggerStep threadId source event target) : PopsInStop target := by
  intro thread consuming
  have before := inStop thread
  cases edge with
  | flush => exact noFlush.elim
  | @write _ caller _ pc =>
      cases caller <;>
        grind [LoggerPc.Consuming, LoggerPc.Joined, PopCaller.afterWrite]
  | queue calls edge =>
      cases edge with
      | @popEmpty thread _ pc | @popStoreRead thread _ _ pc =>
          obtain ⟨caller, place⟩ := disciplined.popping thread (by simp [pc])
          cases caller <;>
            grind [LoggerPc.Consuming, LoggerPc.Joined, PopCaller.afterEmpty,
              RingEvent.caller, LoggerPc.resume]
      | _ => grind [LoggerPc.Consuming, RingEvent.caller, LoggerPc.resume]
  | _ => grind [LoggerPc.Consuming, LoggerPc.Joined]

namespace Disciplined

/-- Without `flush`, one thread at a time pops and writes. -/
theorem consuming_unique (disciplined : Disciplined logger)
    (inStop : PopsInStop logger) {first second : Option Thread}
    (firstConsumes : (logger.pc first).Consuming)
    (secondConsumes : (logger.pc second).Consuming) : first = second := by
  have notWorker : ∀ thread : Thread, (logger.pc (some thread)).Consuming →
      ¬(logger.pc none).Consuming := by
    intro thread consumes
    rw [disciplined.joined thread (inStop thread consumes)]
    exact id
  cases first with
  | none =>
      cases second with
      | none => rfl
      | some second => exact (notWorker second secondConsumes firstConsumes).elim
  | some first =>
      cases second with
      | none => exact (notWorker first firstConsumes secondConsumes).elim
      | some second =>
          by_contra differ
          have idle := disciplined.alone first (inStop first firstConsumes).inStop
            second (fun same => differ (congrArg some same.symm))
          rw [idle] at secondConsumes
          exact secondConsumes

theorem popsAlone (disciplined : Disciplined source)
    (inStop : PopsInStop source)
    (edge : LoggerStep threadId source event target) :
    OnQueue PopsAlone source event := by
  cases edge with
  | queue _ edge =>
      cases edge with
      | @popStoreRead thread _ _ pc =>
          intro other differ
          by_contra inPop
          obtain ⟨_, place⟩ := disciplined.popping thread (by simp [pc])
          obtain ⟨_, otherPlace⟩ := disciplined.popping other inPop
          exact differ (disciplined.consuming_unique inStop
            (by rw [otherPlace]; trivial) (by rw [place]; trivial))
      | _ => trivial
  | _ => trivial

end Disciplined

/-- `flush` is not called, and `stop` is last. -/
def WithoutFlush (logger : AsyncLogger Thread) (event : LoggerEvent Thread) :
    Prop :=
  NoFlush event ∧ StopsLast logger event

theorem WithoutFlush.disciplined
    (run : Run (Guarded WithoutFlush (LoggerStep threadId))
      (.started minLevel) history logger) : Disciplined logger :=
  disciplined_of_run (run.mono fun edge => ⟨edge.1.2, edge.2⟩)

theorem WithoutFlush.popsInStop
    (run : Run (Guarded WithoutFlush (LoggerStep threadId))
      (.started minLevel) history logger) : PopsInStop logger := by
  apply run.invariant fun _ logger => PopsInStop logger
  · intro thread consuming
    exact consuming.elim
  · intro _ _ _ _ earlier inStop edge
    exact (disciplined earlier).popsInStop edge.1.1 inStop edge.2

/-- What is popped is written before the next pop. -/
structure WrittenInOrder (history : List (LoggerEvent Thread))
    (logger : AsyncLogger Thread) : Prop where
  holding : ∀ thread message, (logger.pc thread).held = [message] →
    popped (queueHistory history) = written history ++ [message]
  released : (∀ thread, (logger.pc thread).held = []) →
    popped (queueHistory history) = written history

theorem LoggerPc.consuming_of_held {pc : LoggerPc} {message : LogMessage}
    (held : pc.held = [message]) : pc.Consuming := by
  cases pc with
  | writing => trivial
  | _ => cases held

theorem LoggerPc.held_cases (pc : LoggerPc) :
    pc.held = [] ∨ ∃ message, pc.held = [message] := by
  cases pc with
  | writing _ message => exact .inr ⟨message, rfl⟩
  | _ => exact .inl rfl

theorem WrittenInOrder.step (inOrder : WrittenInOrder history source)
    (disciplined : Disciplined source) (inStop : PopsInStop source)
    (edge : LoggerStep threadId source event target) :
    WrittenInOrder (event :: history) target := by
  cases disciplined.hands edge with
  | @takes thread message popping holds others =>
      obtain ⟨caller, place⟩ := popping
      have free : ∀ other, (source.pc other).held = [] := by
        intro other
        refine (source.pc other).held_cases.resolve_right ?_
        rintro ⟨_, held⟩
        have same := disciplined.consuming_unique inStop
          (LoggerPc.consuming_of_held held) (by rw [place]; trivial)
        rw [same, place] at held
        cases held
      have before := inOrder.released free
      constructor
      · intro other held holding
        change popped (queueHistory history) ++ [message] =
          written history ++ [held]
        by_cases same : other = thread
        · rw [same, holds] at holding
          rw [before, holding]
        · rw [others other same, free other] at holding
          cases holding
      · intro released
        rw [released thread] at holds
        cases holds
  | @writes thread message held empty others =>
      have before := inOrder.holding thread message held
      constructor
      · intro other _ holding
        have differ : other ≠ thread := by
          rintro rfl
          rw [empty] at holding
          cases holding
        rw [others other differ] at holding
        exact (differ (disciplined.consuming_unique inStop
          (LoggerPc.consuming_of_held holding)
          (LoggerPc.consuming_of_held held))).elim
      · intro _
        exact before
  | keeps writes pops held =>
      constructor
      · intro thread message holding
        rw [pops, writes]
        exact inOrder.holding thread message (held thread ▸ holding)
      · intro released
        rw [pops, writes]
        exact inOrder.released fun thread => held thread ▸ released thread

theorem WithoutFlush.writtenInOrder
    (run : Run (Guarded WithoutFlush (LoggerStep threadId))
      (.started minLevel) history logger) : WrittenInOrder history logger := by
  apply run.invariant fun history logger => WrittenInOrder history logger
  · constructor
    · intro thread _ holding
      cases thread <;> cases holding
    · exact fun _ => rfl
  · intro _ _ _ _ earlier inOrder edge
    exact inOrder.step (disciplined earlier) (popsInStop earlier) edge.2

/-- The accepted messages of one thread. -/
def acceptedFrom (thread : Thread) (history : List (LoggerEvent Thread)) :
    List LogMessage :=
  ((origins (queueHistory history)).filter (·.1 = thread)).map Prod.snd

/-- The message that a thread has made and not yet pushed. -/
def LoggerPc.unpushed : LoggerPc → List LogMessage
  | .pushing message => [message]
  | _ => []

/-- How a step brings messages to the queue: a call makes one, and `push`
accepts it or drops it. -/
inductive Offers (source target : AsyncLogger Thread) :
    LoggerEvent Thread → Prop
  | makes {thread : Thread} {message : LogMessage}
      (before : (source.pc (some thread)).unpushed = [])
      (after : (target.pc (some thread)).unpushed = [message])
      (others : ∀ other ≠ thread,
        target.pc (some other) = source.pc (some other)) :
      Offers source target (.construct thread message)
  | accepts {thread : Thread} {message : LogMessage}
      (before : (source.pc (some thread)).unpushed = [message])
      (after : (target.pc (some thread)).unpushed = [])
      (others : ∀ other ≠ thread,
        target.pc (some other) = source.pc (some other)) :
      Offers source target (.queue (.pushStoreWrite thread message))
  | keeps {event : LoggerEvent Thread}
      (logs : ∀ thread history,
        logged thread (event :: history) = logged thread history)
      (accepts : ∀ thread history,
        acceptedFrom thread (event :: history) = acceptedFrom thread history)
      (unpushed : ∀ thread, (target.pc (some thread)).unpushed = [] ∨
        (target.pc (some thread)).unpushed =
          (source.pc (some thread)).unpushed) :
      Offers source target event

theorem Disciplined.offers (disciplined : Disciplined source)
    (edge : LoggerStep threadId source event target) :
    Offers source target event := by
  cases edge with
  | @construct thread _ _ _ pc =>
      apply Offers.makes
      · simp [pc, LoggerPc.unpushed]
      · simp [LoggerPc.unpushed]
      · intro other differ
        simp [differ]
  | @write thread caller _ pc =>
      apply Offers.keeps (fun _ _ => rfl) (fun _ _ => rfl)
      cases caller <;> grind [LoggerPc.unpushed, PopCaller.afterWrite]
  | queue calls edge =>
      cases edge with
      | @pushStoreWrite thread message _ pc =>
          have place := disciplined.pushing thread message (by rw [pc]; rfl)
          apply Offers.accepts
          · simp [place, LoggerPc.unpushed]
          · simp [RingEvent.caller, LoggerPc.resume, LoggerPc.unpushed]
          · intro other differ
            simp [RingEvent.caller, differ]
      | @popEmpty thread _ pc | @popStoreRead thread _ _ pc =>
          obtain ⟨caller, place⟩ := disciplined.popping thread (by simp [pc])
          apply Offers.keeps (fun _ _ => rfl) (fun _ _ => rfl)
          cases caller <;>
            grind [LoggerPc.unpushed, RingEvent.caller, LoggerPc.resume,
              PopCaller.afterEmpty]
      | _ =>
          apply Offers.keeps (fun _ _ => rfl) (fun _ _ => rfl)
          grind [LoggerPc.unpushed, RingEvent.caller, LoggerPc.resume]
  | _ =>
      apply Offers.keeps (fun _ _ => rfl) (fun _ _ => rfl)
      grind [LoggerPc.unpushed]

/-- A thread's messages are accepted in the order of its calls; some are
dropped on a full queue. -/
def AcceptedInOrder (thread : Thread) (history : List (LoggerEvent Thread))
    (logger : AsyncLogger Thread) : Prop :=
  (acceptedFrom thread history ++
    (logger.pc (some thread)).unpushed).Sublist (logged thread history)

theorem Disciplined.acceptedInOrder (disciplined : Disciplined source)
    {thread : Thread} (inOrder : AcceptedInOrder thread history source)
    (edge : LoggerStep threadId source event target) :
    AcceptedInOrder thread (event :: history) target := by
  unfold AcceptedInOrder at inOrder ⊢
  cases disciplined.offers edge with
  | @makes caller message before after others =>
      change (acceptedFrom thread history ++ _).Sublist _
      rw [logged]
      by_cases same : caller = thread
      · subst same
        rw [before, List.append_nil] at inOrder
        rw [after, if_pos rfl]
        exact inOrder.append_right [message]
      · rw [others thread (Ne.symm same), if_neg same]
        exact inOrder
  | @accepts caller message before after others =>
      by_cases same : caller = thread
      · subst same
        have oneMore : acceptedFrom caller
            (.queue (.pushStoreWrite caller message) :: history) =
              acceptedFrom caller history ++ [message] := by
          simp [acceptedFrom, queueHistory, LoggerEvent.queue?, origins]
        rw [before] at inOrder
        rw [after, oneMore, List.append_nil]
        exact inOrder
      · have noMore : acceptedFrom thread
            (.queue (.pushStoreWrite caller message) :: history) =
              acceptedFrom thread history := by
          simp [acceptedFrom, queueHistory, LoggerEvent.queue?, origins, same]
        rw [others thread (Ne.symm same), noMore]
        exact inOrder
  | keeps logs accepts unpushed =>
      rw [logs, accepts]
      rcases unpushed thread with dropped | kept
      · rw [dropped, List.append_nil]
        exact (List.sublist_append_left _ _).trans inOrder
      · rw [kept]
        exact inOrder

theorem WithoutFlush.acceptedInOrder
    (run : Run (Guarded WithoutFlush (LoggerStep threadId))
      (.started minLevel) history logger) (thread : Thread) :
    AcceptedInOrder thread history logger := by
  apply run.invariant fun history logger =>
    AcceptedInOrder thread history logger
  · exact List.Sublist.refl []
  · intro _ _ _ _ earlier inOrder edge
    exact (disciplined earlier).acceptedInOrder inOrder edge.2

/-- `flush` is not called, `stop` is last, and no two pushes disturb each
other. -/
def PushesInTurn (logger : AsyncLogger Thread) (event : LoggerEvent Thread) :
    Prop :=
  WithoutFlush logger event ∧ OnQueue PushesApart logger event

theorem PushesInTurn.withoutFlush
    (run : Run (Guarded PushesInTurn (LoggerStep threadId))
      (.started minLevel) history logger) :
    Run (Guarded WithoutFlush (LoggerStep threadId)) (.started minLevel) history
      logger :=
  run.mono fun edge => ⟨edge.1.1, edge.2⟩

/-- One consumer at a time never disturbs another one. -/
theorem WithoutFlush.popsAlone
    (run : Run (Guarded WithoutFlush (LoggerStep threadId))
      (.started minLevel) history source)
    (edge : LoggerStep threadId source event target) :
    OnQueue PopsAlone source event :=
  (disciplined run).popsAlone (popsInStop run) edge

theorem PushesInTurn.orderly
    (run : Run (Guarded PushesInTurn (LoggerStep threadId))
      (.started minLevel) history logger) :
    Run (Guarded Orderly (LoggerStep threadId)) (.started minLevel) history
      logger := by
  apply run.strengthen
  rintro earlier source event target run ⟨⟨quiet, pushesApart⟩, edge⟩
  refine ⟨⟨quiet.2, ?_⟩, edge⟩
  have alone : Run (Guarded (OnQueue PopsAlone) (LoggerStep threadId))
      (.started minLevel) earlier source :=
    (withoutFlush run).strengthen fun run edge =>
      ⟨WithoutFlush.popsAlone run edge.2, edge.2⟩
  have popsAlone := WithoutFlush.popsAlone (withoutFlush run) edge
  cases event with
  | queue event =>
      exact ⟨pushesApart, PopsAlone.apart (queueRun alone) popsAlone⟩
  | _ => trivial

/-- Several threads log and none flushes.  As long as their pushes do not
disturb each other, when `stop` has returned every accepted message has been
written once, in the order of acceptance, and each thread's messages in the
order of its calls. -/
theorem pushesInTurn_writes_accepted
    (run : Run (Guarded PushesInTurn (LoggerStep threadId)) (.started minLevel)
      history logger)
    {thread : Thread} (returned : logger.pc (some thread) = .stopped) :
    written history = accepted (queueHistory history) ∧
      written history = (origins (queueHistory history)).map Prod.snd ∧
      ∀ caller, (acceptedFrom caller history).Sublist
        (logged caller history) := by
  have withoutFlush := PushesInTurn.withoutFlush run
  have disciplined := WithoutFlush.disciplined withoutFlush
  have drained := (drained_of_run (PushesInTurn.orderly run)).2 thread returned
  have released : ∀ other, (logger.pc other).held = [] := by
    intro other
    cases other with
    | none =>
        rw [disciplined.joined thread (by rw [returned]; trivial)]
        rfl
    | some other =>
        by_cases same : other = thread
        · rw [same, returned]
          rfl
        · rw [disciplined.alone thread (by rw [returned]; trivial) other same]
          rfl
  have all : written history = accepted (queueHistory history) := by
    rw [← (WithoutFlush.writtenInOrder withoutFlush).released released, drained]
  refine ⟨all, all.trans (map_origins _).symm, fun caller => ?_⟩
  exact (List.sublist_append_left _ _).trans
    (WithoutFlush.acceptedInOrder withoutFlush caller)

end WithoutFlush

section TwoThreads

def threadIds (thread : Bool) : UInt32 := if thread then 8 else 7

def otherMessage : LogMessage := .new .info sampleText 2 8

/-- Two threads push one after the other, and the worker writes both. -/
def writtenInTurn : List (LoggerEvent Bool) :=
  stopSteps false ++ popSteps none otherMessage ++ [.workerRunning] ++
    popSteps none sampleMessage ++ [.workerRunning] ++
    pushSteps true otherMessage ++ pushSteps false sampleMessage ++
    logSteps true sampleText otherMessage ++
    logSteps false sampleText sampleMessage

instance withoutFlushDecidable (logger : AsyncLogger Bool)
    (event : LoggerEvent Bool) : Decidable (WithoutFlush logger event) :=
  inferInstanceAs (Decidable (_ ∧ _))

instance pushesInTurnDecidable (logger : AsyncLogger Bool)
    (event : LoggerEvent Bool) : Decidable (PushesInTurn logger event) :=
  inferInstanceAs (Decidable (_ ∧ _))

theorem pushesInTurn_writes_accepted_two :
    ∃ logger, Run (Guarded PushesInTurn (LoggerStep threadIds))
        (.started .debug) writtenInTurn logger ∧
      logger.pc (some false) = .stopped ∧
      written writtenInTurn = accepted (queueHistory writtenInTurn) := by
  have replays : (Run.replay (Run.guardNext PushesInTurn
      (AsyncLogger.next? threadIds)) (.started .debug) writtenInTurn).any
        (fun logger => logger.pc (some false) = .stopped) := by decide +kernel
  obtain ⟨logger, run, returned⟩ := Run.exists_of_replay
    (Run.guardNext_sound LoggerStep.of_next?) _ _ _ replays
  have returned := of_decide_eq_true returned
  exact ⟨logger, run, returned, (pushesInTurn_writes_accepted run returned).1⟩

/-- Two threads load the same write position: the second message takes the slot
of the first, and one of the two accepted messages is written. -/
def lostInOverlap : List (LoggerEvent Bool) :=
  stopSteps false ++ popSteps none otherMessage ++ [.workerRunning] ++
    [.queue (.pushStoreWrite true otherMessage),
      .queue (.pushStoreWrite false sampleMessage),
      .queue (.pushWriteSlot true), .queue (.pushWriteSlot false),
      .queue (.pushRoom true), .queue (.pushRoom false),
      .queue (.pushLoadWrite true otherMessage),
      .queue (.pushLoadWrite false sampleMessage)] ++
    logSteps true sampleText otherMessage ++
    logSteps false sampleText sampleMessage

theorem withoutFlush_loses_accepted :
    ¬∀ (history : List (LoggerEvent Bool)) (logger : AsyncLogger Bool)
        (thread : Bool),
      Run (Guarded WithoutFlush (LoggerStep threadIds)) (.started .debug)
        history logger →
      logger.pc (some thread) = .stopped →
        (written history).Perm (accepted (queueHistory history)) := by
  intro delivers
  have replays : (Run.replay (Run.guardNext WithoutFlush
      (AsyncLogger.next? threadIds)) (.started .debug) lostInOverlap).any
        (fun logger => logger.pc (some false) = .stopped) := by decide +kernel
  obtain ⟨logger, run, returned⟩ := Run.exists_of_replay
    (Run.guardNext_sound LoggerStep.of_next?) _ _ _ replays
  have once := delivers _ logger false run (of_decide_eq_true returned)
  have one : (written lostInOverlap).length = 1 := rfl
  rw [once.length_eq] at one
  exact absurd one (by decide)

end TwoThreads

end TradingMatcher
