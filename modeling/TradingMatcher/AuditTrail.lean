import TradingMatcher.TradeLog

/-!
# The trades in the log file

The matching thread records a trade, logs it and goes on; the worker writes.
Whatever the order of their steps, a file that is cut off anywhere contains only
trades that were executed, in their order; and with nothing dropped it contains
them all once the logger has stopped.
-/

namespace TradingMatcher

/-- A call of `log` takes the recorded trade. -/
def afterCall (unlogged : Option Trade) : LoggerEvent Unit → Option Trade
  | .log _ _ _ | .logBelowLevel _ _ => none
  | _ => unlogged

/-- The place of the logging thread before and after a step, for the steps that
bring messages to the queue and for those that enter `stop`. -/
inductive CallStep (source target : LoggerPc) : LoggerEvent Unit → Prop
  | skips {level : LogLevel} (before : source = .idle)
      (after : target = .idle) : CallStep source target (.logBelowLevel () level)
  | calls {level : LogLevel} {text : List UInt8} (before : source = .idle)
      (after : target = .logging level text) :
      CallStep source target (.log () level text)
  | abandons {level : LogLevel} {text : List UInt8}
      (before : source = .logging level text) (after : target = .idle) :
      CallStep source target (.logNotRunning ())
  | makes {level : LogLevel} {text : List UInt8} {timestampNs : Timestamp}
      {threadId : UInt32} (before : source = .logging level text)
      (after : target = .pushing (.new level text timestampNs threadId)) :
      CallStep source target
        (.construct () (.new level text timestampNs threadId))
  | drops {message : LogMessage} (before : source = .pushing message)
      (after : target = .idle) : CallStep source target (.queue (.pushFull ()))
  | accepts {message : LogMessage} (before : source = .pushing message)
      (after : target = .idle) :
      CallStep source target (.queue (.pushStoreWrite () message))
  | stops {event : LoggerEvent Unit}
      (stop : event = .stop () ∨ event = .stopNotRunning ())
      (before : source = .idle) (after : target.InStop) :
      CallStep source target event
  | keeps {event : LoggerEvent Unit}
      (logs : ∀ history, logged () (event :: history) = logged () history)
      (accepts : ∀ history, accepted (queueHistory (event :: history)) =
        accepted (queueHistory history))
      (silent : ∀ unlogged, afterCall unlogged event = unlogged)
      (place : target = source ∨
        (∀ level text, source ≠ .logging level text) ∧
        (∀ level text, target ≠ .logging level text) ∧
        (∀ message, source ≠ .pushing message) ∧
        (∀ message, target ≠ .pushing message) ∧
        (target.InStop → source.InStop)) :
      CallStep source target event

theorem Disciplined.callStep {threadId : Unit → UInt32}
    {source target : AsyncLogger Unit} {event : LoggerEvent Unit}
    (disciplined : Disciplined source)
    (edge : LoggerStep threadId source event target) :
    CallStep (source.pc (some ())) (target.pc (some ())) event := by
  cases edge with
  | logBelowLevel pc => exact .skips pc (by simp)
  | log pc => exact .calls pc (by simp)
  | logNotRunning pc => exact .abandons pc (by simp)
  | construct pc => exact .makes pc (by simp)
  | stop pc => exact .stops (.inl rfl) pc (by simp [LoggerPc.InStop])
  | stopNotRunning pc => exact .stops (.inr rfl) pc (by simp [LoggerPc.InStop])
  | flush pc =>
      refine .keeps (fun _ => rfl) (fun _ => rfl) (fun _ => rfl) (.inr ?_)
      simp [pc, LoggerPc.InStop]
  | storeRunning pc =>
      refine .keeps (fun _ => rfl) (fun _ => rfl) (fun _ => rfl) (.inr ?_)
      simp [pc, LoggerPc.InStop]
  | join pc =>
      refine .keeps (fun _ => rfl) (fun _ => rfl) (fun _ => rfl) (.inr ?_)
      simp [pc, LoggerPc.InStop]
  | workerRunning | workerNotRunning | workerLoadRead | workerLoadWrite =>
      exact .keeps (fun _ => rfl) (fun _ => rfl) (fun _ => rfl)
        (.inl (by simp))
  | @write thread caller message pc =>
      refine .keeps (fun _ => rfl) (fun _ => rfl) (fun _ => rfl) ?_
      cases thread with
      | none => exact .inl (by simp)
      | some _ =>
          right
          cases caller <;> simp [pc, PopCaller.afterWrite, LoggerPc.InStop]
  | queue calls edge =>
      cases edge with
      | pushFull pc =>
          have place := disciplined.pushing () _ (by rw [pc]; rfl)
          exact .drops place (by simp [RingEvent.caller, LoggerPc.resume])
      | pushStoreWrite pc =>
          have place := disciplined.pushing () _ (by rw [pc]; rfl)
          exact .accepts place (by simp [RingEvent.caller, LoggerPc.resume])
      | pushLoadWrite | pushRoom | pushWriteSlot =>
          exact .keeps (fun _ => rfl) (fun _ => rfl) (fun _ => rfl)
            (.inl (by simp [RingEvent.caller, LoggerPc.resume]))
      | @popEmpty thread _ pc | @popStoreRead thread _ _ pc =>
          refine .keeps (fun _ => rfl) (fun _ => rfl) (fun _ => rfl) ?_
          obtain ⟨caller, place⟩ := disciplined.popping thread (by simp [pc])
          cases thread with
          | none => exact .inl (by simp [RingEvent.caller])
          | some _ =>
              right
              cases caller <;> simp [place, RingEvent.caller, LoggerPc.resume,
                PopCaller.afterEmpty, LoggerPc.InStop]
      | @popLoadRead thread | @popAvailable thread | @popReadSlot thread =>
          refine .keeps (fun _ => rfl) (fun _ => rfl) (fun _ => rfl) (.inl ?_)
          cases thread <;> simp [RingEvent.caller, LoggerPc.resume]

/-- The matching thread and its logger, with the trade that is recorded and not
yet logged. -/
structure LoggedMatcher where
  machine : Machine
  logger : AsyncLogger Unit
  unlogged : Option Trade

inductive LoggedEvent
  | matcher (event : Event)
  | logger (event : LoggerEvent Unit)

/-- The trade that a step records. -/
def Event.trade? : Event → Option Trade
  | .executeTrade fill => some fill.trade
  | _ => none

section Calls

variable (localtime : Int → Tm)

/-- A text that no record makes a trade of. -/
def Plain (level : LogLevel) (text : List UInt8) : Prop :=
  ∀ timestampNs threadId, tradesIn ((LogMessage.new level text timestampNs
    threadId).logLine localtime) = []

/-- The calls of the matching thread: a recorded trade is logged next, and what
it logs otherwise is no trade. -/
def MayCall (unlogged : Option Trade) : LoggerEvent Unit → Prop
  | .log _ level text =>
      match unlogged with
      | some trade => level = .info ∧ text = trade.logBytes
      | none => Plain localtime level text
  | .logBelowLevel _ level => ∀ trade ∈ unlogged, level = .info
  | .flush _ | .stop _ | .stopNotRunning _ => unlogged = none
  | _ => True

end Calls

/-- One step of the matching thread in the book, or of either thread in the
logger. -/
inductive LoggedStep (localtime : Int → Tm) (threadId : Unit → UInt32) :
    LoggedMatcher → LoggedEvent → LoggedMatcher → Prop
  | matcher {state : LoggedMatcher} {event : Event} {machine : Machine}
      (idle : state.logger.pc (some ()) = .idle)
      (logged : state.unlogged = none)
      (edge : Step state.machine event machine) :
      LoggedStep localtime threadId state (.matcher event)
        { state with machine, unlogged := event.trade? }
  | logger {state : LoggedMatcher} {event : LoggerEvent Unit}
      {logger : AsyncLogger Unit}
      (mayCall : MayCall localtime state.unlogged event)
      (edge : LoggerStep threadId state.logger event logger) :
      LoggedStep localtime threadId state (.logger event)
        { state with logger, unlogged := afterCall state.unlogged event }

namespace LoggedMatcher

def start (minLevel : LogLevel) (heap : Heap) (clock : Nat → Timestamp) :
    LoggedMatcher where
  machine := .start heap clock
  logger := .started minLevel
  unlogged := none

end LoggedMatcher

namespace LoggedEvent

def logger? : LoggedEvent → Option (LoggerEvent Unit)
  | .logger event => some event
  | .matcher _ => none

def trade? : LoggedEvent → Option LoggedTrade
  | .matcher event => event.trade?.map Trade.logged
  | .logger _ => none

/-- The application does not call `flush`. -/
def NoFlush : LoggedEvent → Prop
  | .logger event => TradingMatcher.NoFlush event
  | .matcher _ => True

/-- A step with which a message is lost. -/
def Drops : LoggedEvent → Prop
  | .logger (.logBelowLevel _ _) | .logger (.logNotRunning _)
  | .logger (.queue (.pushFull _)) => True
  | _ => False

end LoggedEvent

def loggerHistory (history : List LoggedEvent) : List (LoggerEvent Unit) :=
  history.filterMap LoggedEvent.logger?

/-- The executed trades, in their order. -/
def executedTrades (history : List LoggedEvent) : List LoggedTrade :=
  (history.filterMap LoggedEvent.trade?).reverse

/-- The runs in which nothing flushes. -/
abbrev LoggedRun (localtime : Int → Tm) (threadId : Unit → UInt32)
    (minLevel : LogLevel) (heap : Heap) (clock : Nat → Timestamp) :
    List LoggedEvent → LoggedMatcher → Prop :=
  Run (Guarded (fun _ event => event.NoFlush) (LoggedStep localtime threadId))
    (.start minLevel heap clock)

/-- The first list is part of the second one, and all of it if nothing was
lost. -/
structure Conveyed {Item : Type*} (complete : Prop) (first second : List Item) :
    Prop where
  sublist : first.Sublist second
  whole : complete → first = second

namespace Conveyed

variable {Item : Type*} {complete : Prop} {first second third : List Item}

theorem refl (first : List Item) : Conveyed complete first first :=
  ⟨.refl first, fun _ => rfl⟩

theorem append (recorded : Conveyed complete first second)
    (items : List Item) :
    Conveyed complete (first ++ items) (second ++ items) :=
  ⟨recorded.sublist.append_right items, fun all => by rw [recorded.whole all]⟩

theorem mono {stronger : Prop} (recorded : Conveyed complete first second)
    (implies : stronger → complete) : Conveyed stronger first second :=
  ⟨recorded.sublist, fun all => recorded.whole (implies all)⟩

theorem lose {part : List Item} (recorded : Conveyed complete first second)
    (isPart : part.Sublist first) {lost : Prop} (loses : ¬lost) :
    Conveyed lost part second :=
  ⟨isPart.trans recorded.sublist, fun all => (loses all).elim⟩

end Conveyed

/-- Nothing has been dropped. -/
def Complete (history : List LoggedEvent) : Prop :=
  ∀ event ∈ history, ¬event.Drops

theorem Complete.tail {event : LoggedEvent} {history : List LoggedEvent}
    (complete : Complete (event :: history)) : Complete history :=
  fun earlier member => complete earlier (List.mem_cons_of_mem _ member)

theorem not_complete_of_drops {event : LoggedEvent}
    {history : List LoggedEvent} (drops : event.Drops) :
    ¬Complete (event :: history) :=
  fun complete => complete event List.mem_cons_self drops

section Recording

variable {localtime : Int → Tm} {threadId : Unit → UInt32}
  {minLevel : LogLevel} {heap : Heap} {clock : Nat → Timestamp}
  {history : List LoggedEvent} {source target state : LoggedMatcher}
  {event : LoggedEvent}

/-- The trades in the text of a call that has not made its record. -/
def Heard (localtime : Int → Tm) (heard : List LoggedTrade) :
    LoggerPc → Prop
  | .logging level text => ∀ timestampNs threadId,
      tradesIn ((LogMessage.new level text timestampNs threadId).logLine
        localtime) = heard
  | _ => heard = []

/-- The trades in the lines of messages. -/
def tradesOf (localtime : Int → Tm) (messages : List LogMessage) :
    List LoggedTrade :=
  tradesIn (logText localtime messages)

theorem tradesOf_append (first second : List LogMessage) :
    tradesOf localtime (first ++ second) =
      tradesOf localtime first ++ tradesOf localtime second := by
  rw [tradesOf, tradesIn_logText, List.flatMap_append, ← tradesIn_logText,
    ← tradesIn_logText]
  rfl

theorem heard_iff {pc : LoggerPc} (notLogging : ∀ level text,
    pc ≠ .logging level text) {heard : List LoggedTrade} :
    Heard localtime heard pc ↔ heard = [] := by
  cases pc with
  | logging level text => exact (notLogging level text rfl).elim
  | _ => rfl

theorem LoggerPc.unpushed_eq_nil {pc : LoggerPc}
    (notPushing : ∀ message, pc ≠ .pushing message) : pc.unpushed = [] := by
  cases pc with
  | pushing message => exact (notPushing message rfl).elim
  | _ => rfl

theorem LoggerPc.InStop.not_pushing {pc : LoggerPc} (inStop : pc.InStop)
    (message : LogMessage) : pc ≠ .pushing message := by
  rintro rfl
  exact inStop

theorem LoggerPc.InStop.not_logging {pc : LoggerPc} (inStop : pc.InStop)
    (level : LogLevel) (text : List UInt8) : pc ≠ .logging level text := by
  rintro rfl
  exact inStop

/-- The steps in the logger are those of one thread that does not flush. -/
theorem loggerRun
    (run : LoggedRun localtime threadId minLevel heap clock history state) :
    Run (Guarded PushesInTurn (LoggerStep threadId)) (.started minLevel)
      (loggerHistory history) state.logger := by
  have projected : Run (Guarded (fun _ event => NoFlush event)
      (LoggerStep threadId)) (.started minLevel) (loggerHistory history)
        state.logger := by
    apply run.project LoggedMatcher.logger LoggedEvent.logger?
    · rintro _ _ _ ⟨-, edge⟩ silent
      cases edge with
      | matcher => rfl
      | logger => cases silent
    · rintro _ _ _ _ ⟨noFlush, edge⟩ observed
      cases edge with
      | matcher => cases observed
      | logger _ edge =>
          obtain rfl := Option.some.inj observed
          exact ⟨noFlush, edge⟩
  apply projected.strengthen
  rintro _ _ event _ earlier ⟨noFlush, edge⟩
  exact ⟨⟨⟨noFlush, stopsLast_of_one edge⟩,
    pushesApart_of_one earlier.unguard event⟩, edge⟩

/-- The executed trades go through the calls of `log` into the queue. -/
structure Recording (localtime : Int → Tm) (history : List LoggedEvent)
    (state : LoggedMatcher) : Prop where
  queue : Conveyed (Complete history)
    (accepted (queueHistory (loggerHistory history)) ++
      (state.logger.pc (some ())).unpushed)
    (logged () (loggerHistory history))
  calls : ∃ heard, Heard localtime heard (state.logger.pc (some ())) ∧
    Conveyed (Complete history)
      (tradesOf localtime (logged () (loggerHistory history)) ++ heard ++
        (state.unlogged.map Trade.logged).toList)
      (executedTrades history)
  inStop : (state.logger.pc (some ())).InStop → state.unlogged = none

namespace Recording

theorem start (minLevel : LogLevel) (heap : Heap) (clock : Nat → Timestamp) :
    Recording localtime [] (.start minLevel heap clock) where
  queue := .refl []
  calls := ⟨[], rfl, .refl []⟩
  inStop := nofun

/-- The matching thread makes a step in the book. -/
theorem matcherStep (recording : Recording localtime history source)
    {event : Event} {machine : Machine}
    (idle : source.logger.pc (some ()) = .idle)
    (nothing : source.unlogged = none) :
    Recording localtime (.matcher event :: history)
      { source with machine, unlogged := event.trade? } where
  queue := recording.queue.mono Complete.tail
  calls := by
    obtain ⟨heard, hears, recorded⟩ := recording.calls
    have executed : executedTrades (.matcher event :: history) =
        executedTrades history ++ (event.trade?.map Trade.logged).toList := by
      rw [executedTrades, List.filterMap_cons]
      cases trade : event.trade? <;>
        simp [LoggedEvent.trade?, trade, executedTrades]
    refine ⟨heard, hears, ?_⟩
    rw [nothing] at recorded
    rw [executed]
    have more := recorded.append (event.trade?.map Trade.logged).toList
    simp only [Option.map_none, Option.toList_none, List.append_nil] at more
    exact more.mono Complete.tail
  inStop inStop := by
    rw [idle] at inStop
    exact inStop.elim

section LoggerSteps

variable {logger : AsyncLogger Unit} {level : LogLevel} {text : List UInt8}

/-- A call of `log` takes the recorded trade, or a text that is none. -/
theorem calls_log (recording : Recording localtime history source)
    (calendar : InCalendar localtime)
    (mayCall : MayCall localtime source.unlogged (.log () level text))
    (before : source.logger.pc (some ()) = .idle)
    (after : logger.pc (some ()) = .logging level text) :
    Recording localtime (.logger (.log () level text) :: history)
      { source with logger, unlogged := none } := by
  obtain ⟨queue, ⟨heard, hears, recorded⟩, -⟩ := recording
  rw [before] at queue hears
  obtain rfl : heard = [] := hears
  refine ⟨?_, ⟨(source.unlogged.map Trade.logged).toList, ?_, ?_⟩, fun _ => rfl⟩
  · rw [after]
    exact queue.mono Complete.tail
  · rw [after]
    intro timestampNs threadId
    cases recordedTrade : source.unlogged with
    | none =>
        rw [recordedTrade] at mayCall
        exact mayCall timestampNs threadId
    | some trade =>
        rw [recordedTrade] at mayCall
        obtain ⟨rfl, rfl⟩ := mayCall
        exact tradesIn_trade calendar trade .info timestampNs threadId
  · change Conveyed _ (tradesOf localtime (logged () (loggerHistory
      history)) ++ _ ++ []) (executedTrades history)
    rw [List.append_nil] at recorded ⊢
    exact recorded.mono Complete.tail

/-- The record of a call has the trades of its text. -/
theorem makes_record (recording : Recording localtime history source)
    {timestampNs : Timestamp} {threadId : UInt32}
    (before : source.logger.pc (some ()) = .logging level text)
    (after : logger.pc (some ()) =
      .pushing (.new level text timestampNs threadId)) :
    Recording localtime (.logger (.construct ()
        (.new level text timestampNs threadId)) :: history)
      { source with logger } := by
  obtain ⟨queue, ⟨heard, hears, recorded⟩, -⟩ := recording
  rw [before] at queue hears
  refine ⟨?_, ⟨[], ?_, ?_⟩, ?_⟩
  · rw [after]
    have more := queue.append [.new level text timestampNs threadId]
    rw [LoggerPc.unpushed_eq_nil (by simp), List.append_nil] at more
    exact more.mono Complete.tail
  · rw [after]
    rfl
  · have one : tradesOf localtime [.new level text timestampNs threadId] =
        heard := by
      rw [tradesOf, tradesIn_logText, List.flatMap_singleton]
      exact hears timestampNs threadId
    change Conveyed _ (tradesOf localtime (logged () (loggerHistory
      history) ++ [_]) ++ [] ++ _) (executedTrades history)
    rw [tradesOf_append, one, List.append_nil]
    exact recorded.mono Complete.tail
  · rw [after]
    exact False.elim

/-- What a call has not yet pushed or recorded is lost where it returns. -/
theorem returns_early (recording : Recording localtime history source)
    {event : LoggerEvent Unit} {unlogged : Option Trade}
    (drops : (LoggedEvent.logger event).Drops)
    (logs : logged () (event :: loggerHistory history) =
      logged () (loggerHistory history))
    (accepts : accepted (queueHistory (event :: loggerHistory history)) =
      accepted (queueHistory (loggerHistory history)))
    (after : logger.pc (some ()) = .idle)
    (part : (unlogged.map Trade.logged).toList.Sublist
      (source.unlogged.map Trade.logged).toList) :
    Recording localtime (.logger event :: history)
      { source with logger, unlogged } := by
  obtain ⟨queue, ⟨heard, hears, recorded⟩, -⟩ := recording
  refine ⟨?_, ⟨[], ?_, ?_⟩, ?_⟩
  · rw [after]
    change Conveyed _ (accepted (queueHistory (event :: loggerHistory
      history)) ++ []) (logged () (event :: loggerHistory history))
    rw [logs, accepts]
    refine queue.lose ?_ (not_complete_of_drops drops)
    exact (List.Sublist.refl _).append (List.nil_sublist _)
  · rw [after]
    rfl
  · change Conveyed _ (tradesOf localtime (logged () (event :: loggerHistory
      history)) ++ [] ++ _) (executedTrades history)
    rw [logs, List.append_nil]
    refine recorded.lose ?_ (not_complete_of_drops drops)
    exact (List.sublist_append_left _ _).append part
  · rw [after]
    exact False.elim

/-- A pushed message is accepted. -/
theorem accepts_message (recording : Recording localtime history source)
    {message : LogMessage}
    (before : source.logger.pc (some ()) = .pushing message)
    (after : logger.pc (some ()) = .idle) :
    Recording localtime
      (.logger (.queue (.pushStoreWrite () message)) :: history)
      { source with logger } := by
  obtain ⟨queue, ⟨heard, hears, recorded⟩, -⟩ := recording
  rw [before] at queue hears
  refine ⟨?_, ⟨heard, ?_, recorded.mono Complete.tail⟩, ?_⟩
  · rw [after]
    change Conveyed _ ((accepted (queueHistory (loggerHistory history)) ++
      [_]) ++ []) (logged () (loggerHistory history))
    rw [List.append_nil]
    exact queue.mono Complete.tail
  · rw [after]
    exact hears
  · rw [after]
    exact False.elim

/-- A step that brings no message further. -/
theorem keeps_calls (recording : Recording localtime history source)
    {event : LoggerEvent Unit}
    (logs : logged () (event :: loggerHistory history) =
      logged () (loggerHistory history))
    (accepts : accepted (queueHistory (event :: loggerHistory history)) =
      accepted (queueHistory (loggerHistory history)))
    (unpushed : (logger.pc (some ())).unpushed =
      (source.logger.pc (some ())).unpushed)
    (hears : ∀ heard, Heard localtime heard (source.logger.pc (some ())) →
      Heard localtime heard (logger.pc (some ())))
    (inStop : (logger.pc (some ())).InStop → source.unlogged = none) :
    Recording localtime (.logger event :: history)
      { source with logger } := by
  obtain ⟨queue, ⟨heard, heardBefore, recorded⟩, -⟩ := recording
  refine ⟨?_, ⟨heard, hears heard heardBefore, ?_⟩, inStop⟩
  · change Conveyed _ (accepted (queueHistory (event :: loggerHistory
      history)) ++ _) (logged () (event :: loggerHistory history))
    rw [accepts, logs, unpushed]
    exact queue.mono Complete.tail
  · change Conveyed _ (tradesOf localtime (logged () (event :: loggerHistory
      history)) ++ _ ++ _) (executedTrades history)
    rw [logs]
    exact recorded.mono Complete.tail

end LoggerSteps

/-- One of the two threads makes a step in the logger. -/
theorem loggerStep (recording : Recording localtime history source)
    (calendar : InCalendar localtime) (disciplined : Disciplined source.logger)
    {event : LoggerEvent Unit} {logger : AsyncLogger Unit}
    (mayCall : MayCall localtime source.unlogged event)
    (edge : LoggerStep threadId source.logger event logger) :
    Recording localtime (.logger event :: history)
      { source with logger, unlogged := afterCall source.unlogged event } := by
  cases disciplined.callStep edge with
  | skips before after =>
      exact recording.returns_early trivial rfl rfl after (List.nil_sublist _)
  | calls before after => exact recording.calls_log calendar mayCall before after
  | abandons before after =>
      exact recording.returns_early trivial rfl rfl after (.refl _)
  | makes before after => exact recording.makes_record before after
  | drops before after =>
      exact recording.returns_early trivial rfl rfl after (.refl _)
  | accepts before after => exact recording.accepts_message before after
  | stops stop before after =>
      have unpushed : (logger.pc (some ())).unpushed =
          (source.logger.pc (some ())).unpushed := by
        rw [before, LoggerPc.unpushed_eq_nil after.not_pushing]
        rfl
      have hears : ∀ heard, Heard localtime heard (source.logger.pc (some ())) →
          Heard localtime heard (logger.pc (some ())) := by
        intro heard hears
        rw [before] at hears
        exact (heard_iff after.not_logging).mpr hears
      rcases stop with rfl | rfl <;>
        exact recording.keeps_calls rfl rfl unpushed hears fun _ => mayCall
  | keeps logs accepts silent place =>
      have unpushed : (logger.pc (some ())).unpushed =
          (source.logger.pc (some ())).unpushed := by
        rcases place with same | ⟨-, -, notBefore, notAfter, -⟩
        · rw [same]
        · rw [LoggerPc.unpushed_eq_nil notBefore,
            LoggerPc.unpushed_eq_nil notAfter]
      have hears : ∀ heard, Heard localtime heard (source.logger.pc (some ())) →
          Heard localtime heard (logger.pc (some ())) := by
        intro heard hears
        rcases place with same | ⟨notBefore, notAfter, -⟩
        · rwa [same]
        · exact (heard_iff notAfter).mpr ((heard_iff notBefore).mp hears)
      have enters : (logger.pc (some ())).InStop →
          (source.logger.pc (some ())).InStop := by
        rcases place with same | ⟨-, -, -, -, enters⟩
        · rw [same]
          exact fun stopping => stopping
        · exact enters
      rw [silent]
      exact recording.keeps_calls (logs _) (accepts _) unpushed hears
        fun stopping => recording.inStop (enters stopping)

/-- What is recorded in a run. -/
theorem of_run (calendar : InCalendar localtime)
    (run : LoggedRun localtime threadId minLevel heap clock history state) :
    Recording localtime history state := by
  apply run.invariant fun history state => Recording localtime history state
  · exact .start minLevel heap clock
  · rintro history source _ _ earlier recording ⟨-, edge⟩
    cases edge with
    | matcher idle nothing => exact recording.matcherStep idle nothing
    | logger mayCall edge =>
        exact recording.loggerStep calendar
          (WithoutFlush.disciplined
            (PushesInTurn.withoutFlush (loggerRun earlier))) mayCall edge

end Recording

/-- What has been written is the beginning of what was accepted, and all of it
when `stop` has returned. -/
theorem written_isPrefix
    (run : LoggedRun localtime threadId minLevel heap clock history state) :
    written (loggerHistory history) <+:
        accepted (queueHistory (loggerHistory history)) ∧
      (state.logger.pc (some ()) = .stopped →
        written (loggerHistory history) =
          accepted (queueHistory (loggerHistory history))) := by
  have inTurn := loggerRun run
  have withoutFlush := PushesInTurn.withoutFlush inTurn
  have disciplined := WithoutFlush.disciplined withoutFlush
  have inOrder := WithoutFlush.writtenInOrder withoutFlush
  have orderly := PushesInTurn.orderly inTurn
  constructor
  · apply List.IsPrefix.trans _ (fifo_of_run orderly).isPrefix
    by_cases released : ∀ thread, (state.logger.pc thread).held = []
    · rw [inOrder.released released]
    · obtain ⟨thread, holds⟩ := not_forall.mp released
      obtain ⟨message, held⟩ :=
        (state.logger.pc thread).held_cases.resolve_left holds
      rw [inOrder.holding thread message held]
      exact List.prefix_append _ _
  · intro stopped
    rw [← (drained_of_run orderly).2 () stopped]
    refine (inOrder.released fun thread => ?_).symm
    cases thread with
    | none =>
        rw [disciplined.joined () (by rw [stopped]; trivial)]
        rfl
    | some =>
        rw [stopped]
        rfl

theorem tradesOf_sublist {first second : List LogMessage}
    (isPart : first.Sublist second) :
    (tradesOf localtime first).Sublist (tradesOf localtime second) := by
  rw [tradesOf, tradesOf, tradesIn_logText, tradesIn_logText]
  exact isPart.flatMap _

/-- As long as nothing flushes and no other text reads as a trade: at any time,
and wherever the file is cut off, the trades in a log file that was empty are
executed trades, each once and in their order; with nothing dropped they are all
of them when `stop` has returned. -/
theorem logFile_trades (calendar : InCalendar localtime)
    (run : LoggedRun localtime threadId minLevel heap clock history state) :
    (∀ torn, torn <+: logText localtime (written (loggerHistory history)) →
      (tradesIn torn).Sublist (executedTrades history)) ∧
      (state.logger.pc (some ()) = .stopped → Complete history →
        tradesIn (logText localtime (written (loggerHistory history))) =
          executedTrades history) := by
  have recording := Recording.of_run calendar run
  obtain ⟨heard, hears, recorded⟩ := recording.calls
  obtain ⟨isPrefix, all⟩ := written_isPrefix run
  constructor
  · intro torn cut
    have read : (tradesIn torn).Sublist
        (tradesOf localtime (written (loggerHistory history))) :=
      (splitLines_isPrefix cut).sublist.filterMap _
    have isLogged := (List.sublist_append_left _ _).trans
      recording.queue.sublist
    have isExecuted := ((List.sublist_append_left _ heard).trans
      (List.sublist_append_left _ _)).trans recorded.sublist
    exact read.trans ((tradesOf_sublist
      (isPrefix.sublist.trans isLogged)).trans isExecuted)
  · intro stopped complete
    have nothing := recording.inStop (by rw [stopped]; trivial)
    have isLogged := recording.queue.whole complete
    have isExecuted := recorded.whole complete
    rw [stopped] at isLogged hears
    obtain rfl : heard = [] := hears
    rw [LoggerPc.unpushed_eq_nil (by simp), List.append_nil] at isLogged
    rw [nothing, ← isLogged, ← all stopped] at isExecuted
    simpa [tradesOf] using isExecuted

end Recording

section Replay

/-- The calls that log a recorded trade, and those that do not log. -/
def logsTrade (unlogged : Option Trade) : LoggerEvent Unit → Bool
  | .log _ level text =>
      unlogged.any fun trade => level = .info ∧ text = trade.logBytes
  | .logBelowLevel _ level => unlogged.all fun _ => level = .info
  | .flush _ => false
  | .stop _ | .stopNotRunning _ => unlogged.isNone
  | _ => true

theorem mayCall_of_logsTrade {localtime : Int → Tm} {unlogged : Option Trade}
    {event : LoggerEvent Unit} (logs : logsTrade unlogged event = true) :
    MayCall localtime unlogged event ∧ NoFlush event := by
  cases event with
  | log _ level text =>
      cases unlogged with
      | none => cases logs
      | some trade =>
          have agrees : level = .info ∧ text = trade.logBytes :=
            of_decide_eq_true logs
          exact ⟨agrees, trivial⟩
  | logBelowLevel _ level =>
      cases unlogged with
      | none => exact ⟨nofun, trivial⟩
      | some trade =>
          have agrees : level = .info := of_decide_eq_true logs
          exact ⟨fun _ _ => agrees, trivial⟩
  | flush => cases logs
  | stop | stopNotRunning => exact ⟨Option.isNone_iff_eq_none.mp logs, trivial⟩
  | _ => exact ⟨trivial, trivial⟩

/-- The step that an event names, where only trades are logged. -/
def LoggedMatcher.next? (threadId : Unit → UInt32) (state : LoggedMatcher) :
    LoggedEvent → Option LoggedMatcher
  | .matcher event =>
      if state.logger.pc (some ()) = .idle ∧ state.unlogged.isNone then
        (state.machine.next? event).map fun machine =>
          { state with machine, unlogged := event.trade? }
      else none
  | .logger event =>
      if logsTrade state.unlogged event then
        (state.logger.next? threadId event).map fun logger =>
          { state with logger, unlogged := afterCall state.unlogged event }
      else none

theorem LoggedStep.of_next? {localtime : Int → Tm} {threadId : Unit → UInt32}
    {source target : LoggedMatcher} {event : LoggedEvent}
    (taken : source.next? threadId event = some target) :
    Guarded (fun _ event => event.NoFlush) (LoggedStep localtime threadId)
      source event target := by
  cases event with
  | matcher event =>
      obtain ⟨⟨idle, nothing⟩, moved⟩ := Option.ite_none_right_eq_some.mp taken
      obtain ⟨machine, edge, rfl⟩ := Option.map_eq_some_iff.mp moved
      exact ⟨trivial, .matcher idle (Option.isNone_iff_eq_none.mp nothing)
        (Machine.step_iff_next?.mpr edge)⟩
  | logger event =>
      obtain ⟨logs, moved⟩ := Option.ite_none_right_eq_some.mp taken
      obtain ⟨logger, edge, rfl⟩ := Option.map_eq_some_iff.mp moved
      obtain ⟨mayCall, noFlush⟩ := mayCall_of_logsTrade logs
      exact ⟨noFlush, .logger mayCall (.of_next? edge)⟩

def sampleTrade : Trade := ⟨101, 100, 5, 90, 1⟩

def tradeRecord : LogMessage := .new .info sampleTrade.logBytes 2 7

/-- One trade, logged and written before the logger is stopped. -/
def tradeLogged : List LoggedEvent :=
  (stopSteps () ++ popSteps none tradeRecord ++
      [LoggerEvent.workerRunning]).map .logger ++
    [.matcher (.matchReturn 1)] ++
    (pushSteps () tradeRecord ++
      logSteps () sampleTrade.logBytes tradeRecord).map .logger ++
    [.matcher (.executeTrade ⟨2, 1, sampleTrade⟩), .matcher .matchOrders,
      .matcher (.addOrder 2 (Order.new 101 true 5 95 2) true),
      .matcher (.addOrder 1 (Order.new 100 false 5 90 1) true)]

theorem logFile_trades_one :
    ∃ state, LoggedRun firstDay (fun _ => 7) .debug zeroHeap tickingClock
        tradeLogged state ∧
      tradesIn (logText firstDay (written (loggerHistory tradeLogged))) =
        [⟨101, 100, 5, 90⟩] := by
  have replays : (Run.replay (LoggedMatcher.next? fun _ => 7)
      (.start .debug zeroHeap tickingClock) tradeLogged).any
        (fun state => state.logger.pc (some ()) = .stopped) := by
    decide +kernel
  obtain ⟨state, run, stopped⟩ := Run.exists_of_replay LoggedStep.of_next?
    _ _ _ replays
  have complete : Complete tradeLogged := by
    simp [Complete, tradeLogged, LoggedEvent.Drops, stopSteps, popSteps,
      pushSteps, logSteps, emptySteps]
  exact ⟨state, run, (logFile_trades firstDay_inCalendar run).2
    (of_decide_eq_true stopped) complete⟩

end Replay

end TradingMatcher
