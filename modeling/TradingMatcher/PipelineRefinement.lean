import TradingMatcher.PipelineOwnership

/-!
# The pipeline runs the book as one thread does

Whatever the order of the two threads' steps, the matcher's book goes through
the states of a single thread that adds the orders itself: the handler writes no
object that the matcher can reach, and the matcher none that is on its way.
-/

namespace TradingMatcher

open OrderPipeline

theorem Engine.addOrder_heap_of_ne (engine : Engine) {order other : OrderPtr}
    (differ : other ≠ order) :
    (engine.addOrder (some order)).2.heap other = engine.heap other := by
  by_cases empty : (engine.heap order).quantity = 0
  · rw [addOrder_of_no_quantity empty]
  · rw [addOrder_of_quantity empty]
    exact engine.stamp_heap_of_ne order differ

theorem Engine.store_self (engine : Engine) (order : OrderPtr) :
    engine.store order (engine.heap order) = engine := by
  rw [store, Function.update_eq_self]

/-- An added order is all that an add can put into the book. -/
theorem Engine.Tidy.standing_added {engine after : Engine} (tidy : engine.Tidy)
    {order : OrderPtr} {fields : Order} {result : Bool}
    (fresh : FreshCall ⟨engine, none, .idle⟩ (.addOrder order fields result))
    (returns : (engine.store order fields).addOrder (some order) =
      (result, after)) :
    (∀ other ∈ after.book.standing,
      other = order ∨ other ∈ engine.book.standing) ∧
      (after.heap order).id = fields.id := by
  have effect := (Step.effect tidy fresh (Step.addOrder returns)).2
  cases effect with
  | refused absent empty =>
      refine ⟨fun other stands => .inr stands, ?_⟩
      exact congrArg Order.id (engine.store_heap_self order fields)
  | added fresh quantity afterEq heap queues =>
      refine ⟨?_, (heap_added_self heap).1⟩
      intro other stands
      rw [OrderBook.mem_standing_iff]
      exact (mem_standing_insertBehind queues).mp stands

namespace Engine

/-- The book with an order that has the given fields added. -/
def withAdded (engine : Engine) (entry : OrderPtr × Order) : Engine :=
  ((engine.store entry.1 entry.2).addOrder (some entry.1)).2

/-- One pass of the matcher thread over an order: `addOrder`, and `matchOrders`
with a pass for every order that may stand. -/
def processOrder (engine : Engine) (entry : OrderPtr × Order) :
    Option (List Fill × Engine) :=
  let added := engine.withAdded entry
  added.matchOrders added.book.standing.length

/-- The matcher thread without queue and handler: the orders one after the
other, with the trades they make. -/
def process : Engine → List (OrderPtr × Order) → Option (List Fill × Engine)
  | engine, [] => some ([], engine)
  | engine, entry :: entries => do
      let (fills, middle) ← engine.processOrder entry
      let (laterFills, after) ← middle.process entries
      return (fills ++ laterFills, after)

theorem process_concat {engine middle after : Engine}
    {entries : List (OrderPtr × Order)} {entry : OrderPtr × Order}
    {fills laterFills : List Fill}
    (first : engine.process entries = some (fills, middle))
    (last : middle.processOrder entry = some (laterFills, after)) :
    engine.process (entries ++ [entry]) = some (fills ++ laterFills, after) := by
  induction entries generalizing engine fills with
  | nil =>
      obtain ⟨rfl, rfl⟩ := Prod.mk.inj (Option.some.inj first)
      simp [process, last]
  | cons head entries ih =>
      simp only [process, Option.bind_eq_bind, Option.bind_eq_some_iff] at first
      obtain ⟨⟨headFills, next⟩, processed, ⟨restFills, final⟩, rest, whole⟩ :=
        first
      obtain ⟨rfl, rfl⟩ := Prod.mk.inj (Option.some.inj whole)
      simp [process, processed, ih rest]

theorem Drains.unique {engine after otherAfter : Engine}
    {fills otherFills : List Fill} (first : engine.Drains fills after)
    (second : engine.Drains otherFills otherAfter) :
    fills = otherFills ∧ after = otherAfter := by
  have returns := matchOrders_eq_some_iff.mpr
    ⟨first, Nat.le_max_left _ otherFills.length⟩
  rw [matchOrders_eq_some_iff.mpr ⟨second, Nat.le_max_right fills.length _⟩]
    at returns
  obtain ⟨rfl, rfl⟩ := Prod.mk.inj (Option.some.inj returns)
  exact ⟨rfl, rfl⟩

/-- Over a tidy book the passes are enough. -/
theorem Tidy.processOrder_eq_some {engine after : Engine}
    {entry : OrderPtr × Order} {fills : List Fill}
    (tidy : (engine.withAdded entry).Tidy)
    (drains : (engine.withAdded entry).Drains fills after) :
    engine.processOrder entry = some (fills, after) := by
  obtain ⟨otherFills, otherAfter, otherDrains, short, -⟩ := tidy.exists_drains
  obtain ⟨rfl, rfl⟩ := drains.unique otherDrains
  exact matchOrders_eq_some_iff.mpr ⟨drains, short⟩

end Engine

namespace OrderPipeline

section Refinement

variable {size : RingSize} {heap : Heap} {clock : Nat → Timestamp}
  {source target : OrderPipeline} {machine : Machine}
  {history : List PipelineEvent} {event : PipelineEvent}

/-- How far the single thread is: between two calls it has processed what was
added, and within one it has what the loop will still execute before it. -/
def Progress (initial : Engine) (entries : List (OrderPtr × Order))
    (fills : List Fill) (engine : Engine) : MatcherPc → Prop
  | .running | .popped _ => initial.process entries = some (fills, engine)
  | .added | .matching _ => ∀ rest final, engine.Drains rest final →
      initial.process entries = some (fills ++ rest, final)

/-- The matcher's book is that of the single thread, whose objects are those of
the pipeline once they are added; what waits is as it was assigned. -/
structure Refines (heap : Heap) (clock : Nat → Timestamp)
    (history : List PipelineEvent) (pipeline : OrderPipeline)
    (machine : Machine) : Prop where
  run : FreshRun heap clock (bookHistory history) machine
  agrees : machine.engine.AgreesOn {order | order ∈ addedObjects history}
    pipeline.engine
  within : ∀ order ∈ machine.engine.book.standing,
    order ∈ addedObjects history
  ids : ∀ entry ∈ addedOrders history,
    (machine.engine.heap entry.1).id = entry.2.id
  asAssigned : ∀ entry ∈ addedOrders history, entry ∈ assignedOrders history
  waiting : ∀ entry ∈ assignedOrders history,
    entry.1 ∉ addedObjects history → pipeline.engine.heap entry.1 = entry.2
  lastTrade : machine.lastTrade = pipeline.lastTrade
  phase : machine.phase = pipeline.matcher.phase
  progress : Progress (.new heap clock) (addedOrders history)
    (executedFills history) machine.engine pipeline.matcher

/-- The assigned identifiers are different. -/
def DistinctIds (history : List PipelineEvent) : Prop :=
  ((assignedOrders history).map fun entry => entry.2.id).Nodup

instance (history : List PipelineEvent) : Decidable (DistinctIds history) :=
  inferInstanceAs (Decidable (List.Nodup _))

theorem DistinctIds.of_cons (distinct : DistinctIds (event :: history)) :
    DistinctIds history := by
  have isSuffix : assignedOrders history <:+
      assignedOrders (event :: history) :=
    (List.suffix_cons event history).filterMap _
  exact distinct.sublist (isSuffix.sublist.map _)

theorem DistinctIds.eq_of_id_eq (distinct : DistinctIds history)
    {first second : OrderPtr × Order} (mem : first ∈ assignedOrders history)
    (otherMem : second ∈ assignedOrders history)
    (same : first.2.id = second.2.id) : first = second :=
  List.inj_on_of_nodup_map distinct mem otherMem same

namespace Refines

theorem start (buffer : Nat → OrderPtr) (heap : Heap)
    (clock : Nat → Timestamp) :
    Refines heap clock [] (.start buffer heap clock)
      (.start heap clock) where
  run := .start
  agrees := ⟨rfl, rfl, nofun⟩
  within := nofun
  ids := nofun
  asAssigned := nofun
  waiting := nofun
  lastTrade := rfl
  phase := rfl
  progress := rfl

theorem added_assigned (refines : Refines heap clock history source machine)
    {order : OrderPtr} (added : order ∈ addedObjects history) :
    order ∈ assignedObjects history := by
  obtain ⟨entry, mem, rfl⟩ := List.mem_map.mp added
  exact List.mem_map_of_mem (refines.asAssigned entry mem)

/-- The handler writes an object that is not yet assigned. -/
theorem storeStep (refines : Refines heap clock history source machine)
    {order : OrderPtr} (unassigned : order ∉ assignedObjects history)
    (fields : Order) (handedOut : List OrderPtr) (handler : HandlerPc) :
    Refines heap clock history { source with
      engine := source.engine.store order fields
      handedOut
      handler } machine where
  run := refines.run
  agrees := refines.agrees.store_right
    (fun added => unassigned (refines.added_assigned added)) fields
  within := refines.within
  ids := refines.ids
  asAssigned := refines.asAssigned
  waiting entry mem unadded := by
    have differ : entry.1 ≠ order := by
      rintro rfl
      exact unassigned (List.mem_map_of_mem mem)
    rw [source.engine.store_heap_of_ne differ]
    exact refines.waiting entry mem unadded
  lastTrade := refines.lastTrade
  phase := refines.phase
  progress := refines.progress

/-- The matcher adds the object that it has in hand. -/
theorem addStep (refines : Refines heap clock history source machine)
    {order : OrderPtr} {result : Bool} {engine : Engine}
    (pc : source.matcher = .popped order) (distinct : DistinctIds history)
    (assigned : order ∈ assignedObjects history)
    (unadded : order ∉ addedObjects history)
    (returns : source.engine.addOrder (some order) = (result, engine)) :
    ∃ machine, Refines heap clock
      (.addOrder order (source.engine.heap order) result :: history)
      { source with engine, matcher := .added } machine := by
  obtain ⟨run, agrees, within, ids, asAssigned, waiting, lastTrade, phase,
    progress⟩ := refines
  obtain ⟨fields, isAssigned⟩ := mem_assignedObjects.mp assigned
  have holds : source.engine.heap order = fields :=
    waiting _ isAssigned unadded
  obtain ⟨before, trade, place⟩ := machine
  rw [pc] at phase
  obtain rfl : place = .idle := phase
  have tidy := run.tidy
  have stored := agrees.store order fields
  rw [← holds, source.engine.store_self, holds] at stored
  obtain ⟨sameResult, after⟩ := stored.addOrder (Set.mem_insert _ _)
  rw [returns] at sameResult after
  have firstReturns : (before.store order fields).addOrder (some order) =
      (result, ((before.store order fields).addOrder (some order)).2) :=
    Prod.ext sameResult.symm rfl
  have fresh : FreshCall ⟨before, trade, .idle⟩
      (.addOrder order fields result) := by
    refine ⟨fun stands => unadded (within order stands), ?_⟩
    intro _ other stands sameId
    obtain ⟨entry, mem, rfl⟩ := List.mem_map.mp (within other stands)
    rw [ids entry mem] at sameId
    obtain rfl := distinct.eq_of_id_eq (asAssigned entry mem) isAssigned sameId
    exact unadded (within order stands)
  obtain ⟨standing, sameId⟩ := tidy.standing_added fresh firstReturns
  have addedAfter := addedObjects_addOrder history order fields result
  have entries := addedOrders_addOrder history order fields result
  have run : FreshRun heap clock _ _ :=
    run.next ⟨fresh, .addOrder firstReturns⟩
  rw [holds]
  refine ⟨_, run, ?_, ?_, ?_, ?_, ?_, lastTrade, rfl, ?_⟩
  · apply after.mono
    intro other member
    change other ∈ addedObjects _ at member
    rw [addedAfter] at member
    rcases List.mem_append.mp member with member | member
    · exact .inr member
    · exact .inl (List.mem_singleton.mp member)
  · intro other stands
    rw [addedAfter, List.mem_append, List.mem_singleton]
    rcases standing other stands with rfl | stood
    · exact .inr rfl
    · exact .inl (within other stood)
  · intro entry mem
    rw [entries] at mem
    rcases List.mem_append.mp mem with added | last
    · have differ : entry.1 ≠ order :=
        ne_of_mem_of_not_mem (List.mem_map_of_mem added) unadded
      rw [Engine.addOrder_heap_of_ne _ differ, before.store_heap_of_ne differ]
      exact ids entry added
    · obtain rfl := List.mem_singleton.mp last
      exact sameId
  · intro entry mem
    rw [entries] at mem
    rcases List.mem_append.mp mem with added | last
    · exact asAssigned entry added
    · obtain rfl := List.mem_singleton.mp last
      exact isAssigned
  · intro entry mem notAdded
    rw [addedAfter, List.mem_append, List.mem_singleton, not_or] at notAdded
    have kept := source.engine.addOrder_heap_of_ne notAdded.2
    rw [returns] at kept
    exact kept.trans (waiting entry mem notAdded.1)
  · intro rest final drains
    rw [pc] at progress
    rw [entries]
    have tidyAdded : (before.withAdded (order, fields)).Tidy := FreshRun.tidy run
    exact Engine.process_concat progress
      (tidyAdded.processOrder_eq_some drains)

theorem tradeStep (refines : Refines heap clock history source machine)
    {tradeCount : Nat} {fill : Fill} {engine : Engine}
    (pc : source.matcher = .matching tradeCount)
    (pass : source.engine.matchPass = some (fill, engine)) :
    ∃ machine, Refines heap clock (.executeTrade fill :: history) { source with
      engine
      lastTrade := some fill.trade
      matcher := .matching (tradeCount + 1) } machine := by
  obtain ⟨run, agrees, within, ids, asAssigned, waiting, lastTrade, phase,
    progress⟩ := refines
  obtain ⟨before, trade, place⟩ := machine
  rw [pc] at phase progress
  obtain rfl : place = .matching tradeCount := phase
  obtain ⟨after, firstPass, agreesAfter, untouched⟩ :=
    agrees.matchPass run.tidy within pass
  obtain ⟨-, bids, asks, passed⟩ := run.tidy.matchPass firstPass
  refine ⟨⟨after, some fill.trade, .matching (tradeCount + 1)⟩,
    run.next ⟨trivial, .executeTrade firstPass⟩, agreesAfter, ?_, ?_,
    asAssigned, ?_, rfl, rfl, ?_⟩
  · exact fun order stands => within order (passed.standing_subset stands)
  · intro entry mem
    rw [(passed.heap_terms entry.1).1]
    exact ids entry mem
  · intro entry mem unadded
    rw [untouched entry.1 fun stands => unadded (within entry.1 stands)]
    exact waiting entry mem unadded
  · intro rest final drains
    rw [executedFills_executeTrade, List.append_assoc]
    exact progress (fill :: rest) final (.pass firstPass drains)

/-- One step of one of the two threads. -/
theorem step (refines : Refines heap clock history source machine)
    (owned : Owned history source) (unadded : ∀ order,
      source.matcher = .popped order →
        order ∈ assignedObjects history ∧ order ∉ addedObjects history)
    (edge : PipelineStep size source event target)
    (distinct : DistinctIds (event :: history)) :
    ∃ machine, Refines heap clock (event :: history) target machine := by
  cases edge with
  | @allocate order pc new =>
      have stored := refines.storeStep (fun assigned =>
        new (owned.handedOut order assigned)) Order.zero
        (order :: source.handedOut) (.allocated order)
      exact ⟨machine, stored.run, stored.agrees, stored.within, stored.ids,
        stored.asAssigned, stored.waiting, stored.lastTrade, stored.phase,
        stored.progress⟩
  | @assign order fields pc =>
      have handler := owned.handler
      rw [pc] at handler
      have stored := refines.storeStep handler.2.2 fields source.handedOut
        (.pushing order)
      refine ⟨machine, stored.run, stored.agrees, stored.within, stored.ids,
        fun entry mem => List.mem_cons_of_mem _ (stored.asAssigned entry mem),
        ?_, stored.lastTrade, stored.phase, stored.progress⟩
      intro entry mem notAdded
      rcases List.mem_cons.mp mem with rfl | before
      · exact source.engine.store_heap_self order fields
      · exact stored.waiting entry before notAdded
  | push =>
      exact ⟨machine, refines.run, refines.agrees, refines.within, refines.ids,
        refines.asAssigned, refines.waiting, refines.lastTrade, refines.phase,
        refines.progress⟩
  | @pop ringEvent orderQueue pc pops edge =>
      have phase := refines.phase
      have progress := refines.progress
      rw [pc] at phase progress
      refine ⟨machine, refines.run, refines.agrees, refines.within,
        refines.ids, refines.asAssigned, refines.waiting, refines.lastTrade,
        ?_, ?_⟩
      all_goals cases ringEvent <;> assumption
  | @addOrder order result engine pc returns =>
      obtain ⟨assigned, notAdded⟩ := unadded order pc
      exact refines.addStep pc distinct assigned notAdded returns
  | matchOrders pc =>
      obtain ⟨run, agrees, within, ids, asAssigned, waiting, lastTrade, phase,
        progress⟩ := refines
      obtain ⟨before, trade, place⟩ := machine
      rw [pc] at phase progress
      obtain rfl : place = .idle := phase
      exact ⟨⟨before, trade, .matching 0⟩, run.next ⟨trivial, .matchOrders⟩,
        agrees, within, ids, asAssigned, waiting, lastTrade, rfl, progress⟩
  | executeTrade pc pass => exact refines.tradeStep pc pass
  | @matchReturn tradeCount pc exits =>
      obtain ⟨run, agrees, within, ids, asAssigned, waiting, lastTrade, phase,
        progress⟩ := refines
      obtain ⟨before, trade, place⟩ := machine
      rw [pc] at phase progress
      obtain rfl : place = .matching tradeCount := phase
      have firstExits :=
        (agrees.matchPass_eq_none_iff run.tidy within).mp exits
      have processed := progress [] before (.done firstExits)
      rw [List.append_nil] at processed
      exact ⟨⟨before, trade, .idle⟩, run.next ⟨trivial, .matchReturn firstExits⟩,
        agrees, within, ids, asAssigned, waiting, lastTrade, rfl, processed⟩

end Refines

variable {buffer : Nat → OrderPtr} {pipeline : OrderPipeline}

theorem refines_of_run
    (run : Run (PipelineStep size) (.start buffer heap clock) history pipeline)
    (distinct : DistinctIds history) :
    ∃ machine, Refines heap clock history pipeline machine := by
  induction run with
  | start => exact ⟨_, .start buffer heap clock⟩
  | @next history source target event run edge ih =>
      obtain ⟨machine, refines⟩ := ih distinct.of_cons
      refine refines.step (owned_of_run run) ?_ edge distinct
      intro order pc
      have nodup := addedObjects_nodup run
      have assigned := @assigned_of_added _ _ _ _ _ _ run order
      rw [pc, MatcherPc.inHand] at nodup assigned
      refine ⟨assigned (List.mem_append_right _ List.mem_cons_self), ?_⟩
      intro added
      exact (List.nodup_append.mp nodup).2.2 order added order
        List.mem_cons_self rfl

end Refinement

end OrderPipeline

open OrderPipeline

/-- An order to sell, and one to buy that takes it. -/
def offered : OrderPtr × Order := ⟨1, Order.new 100 false 5 90 1⟩

def taking : OrderPtr × Order := ⟨2, Order.new 101 true 5 95 2⟩

/-- The handler prepares the second order and pushes it while the matcher is
busy with the first. -/
def overlapping : List PipelineEvent :=
  [.matchReturn 1, .executeTrade ⟨2, 1, ⟨101, 100, 5, 90, 1⟩⟩, .matchOrders,
    .addOrder 2 taking.2 true, .pop (.popStoreRead () 2), .pop (.popReadSlot ()),
    .pop (.popAvailable ()), .pop (.popLoadRead ()),
    .push (.pushStoreWrite () 2), .matchReturn 0, .push (.pushWriteSlot ()),
    .matchOrders, .push (.pushRoom ()), .push (.pushLoadWrite () 2),
    .addOrder 1 offered.2 true, .assign 2 taking.2,
    .pop (.popStoreRead () 1), .allocate 2, .pop (.popReadSlot ()),
    .pop (.popAvailable ()), .pop (.popLoadRead ()),
    .push (.pushStoreWrite () 1), .push (.pushWriteSlot ()),
    .pop (.popEmpty ()), .push (.pushRoom ()), .pop (.popLoadRead ()),
    .push (.pushLoadWrite () 1), .assign 1 offered.2, .allocate 1]

/-- Whatever the order of the two threads' steps, the matcher's book, its
standing orders and its trades are those of a single thread that makes the same
calls.  The orders are added as they were assigned, in the order of the pushes,
and those still on their way are as they were assigned. -/
theorem pipeline_refines {size : RingSize} {buffer : Nat → OrderPtr}
    {heap : Heap} {clock : Nat → Timestamp} {history : List PipelineEvent}
    {pipeline : OrderPipeline}
    (run : Run (PipelineStep size) (.start buffer heap clock) history pipeline)
    (distinct : DistinctIds history) :
    ∃ machine, FreshRun heap clock (bookHistory history) machine ∧
      pipeline.engine.book = machine.engine.book ∧
      (∀ order ∈ machine.engine.book.standing,
        pipeline.engine.heap order = machine.engine.heap order) ∧
      pipeline.lastTrade = machine.lastTrade ∧
      addedObjects history <+: accepted (queueEvents history) ∧
      (∀ entry ∈ addedOrders history, entry ∈ assignedOrders history) ∧
      ∀ entry ∈ assignedOrders history, entry.1 ∉ addedObjects history →
        pipeline.engine.heap entry.1 = entry.2 := by
  obtain ⟨machine, refines⟩ := refines_of_run run distinct
  refine ⟨machine, refines.run, refines.agrees.book, ?_, refines.lastTrade.symm,
    ?_, refines.asAssigned, refines.waiting⟩
  · exact fun order stands =>
      refines.agrees.heap order (refines.within order stands)
  · exact (List.prefix_append _ _).trans (addedObjects_isPrefix run)

theorem pipeline_refines_overlapping :
    ∃ pipeline, Run (PipelineStep twoSlots)
        (.start (fun _ => 0) zeroHeap tickingClock) overlapping pipeline ∧
      ∃ machine, FreshRun zeroHeap tickingClock (bookHistory overlapping)
          machine ∧
        pipeline.engine.book = machine.engine.book ∧
        (∀ order ∈ machine.engine.book.standing,
          pipeline.engine.heap order = machine.engine.heap order) ∧
        pipeline.lastTrade = machine.lastTrade ∧
        addedObjects overlapping <+: accepted (queueEvents overlapping) ∧
        (∀ entry ∈ addedOrders overlapping,
          entry ∈ assignedOrders overlapping) ∧
        ∀ entry ∈ assignedOrders overlapping,
          entry.1 ∉ addedObjects overlapping →
            pipeline.engine.heap entry.1 = entry.2 := by
  obtain ⟨pipeline, run, -⟩ := exists_pipelineRun_of_replay twoSlots
    (.start (fun _ => 0) zeroHeap tickingClock) overlapping (fun _ => true)
    (by decide +kernel)
  exact ⟨pipeline, run, pipeline_refines run (by decide)⟩

/-- When the matcher is back at the queue, its trades and its book are those of
processing the added orders one after the other with the same readings of the
clock, which an order without a timestamp is stamped with: nothing else of the
interleaving of the two threads matters. -/
theorem pipeline_processes {size : RingSize} {buffer : Nat → OrderPtr}
    {heap : Heap} {clock : Nat → Timestamp} {history : List PipelineEvent}
    {pipeline : OrderPipeline}
    (run : Run (PipelineStep size) (.start buffer heap clock) history pipeline)
    (distinct : DistinctIds history) (back : pipeline.matcher = .running) :
    ∃ engine, (Engine.new heap clock).process (addedOrders history) =
        some (executedFills history, engine) ∧
      pipeline.engine.book = engine.book ∧
      ∀ order ∈ engine.book.standing,
        pipeline.engine.heap order = engine.heap order := by
  obtain ⟨machine, refines⟩ := refines_of_run run distinct
  have progress := refines.progress
  rw [back] at progress
  exact ⟨machine.engine, progress, refines.agrees.book,
    fun order stands =>
      refines.agrees.heap order (refines.within order stands)⟩

theorem pipeline_processes_overlapping :
    ∃ pipeline, Run (PipelineStep twoSlots)
        (.start (fun _ => 0) zeroHeap tickingClock) overlapping pipeline ∧
      ∃ engine, (Engine.new zeroHeap tickingClock).process [offered, taking] =
          some ([⟨2, 1, ⟨101, 100, 5, 90, 1⟩⟩], engine) ∧
        pipeline.engine.book = engine.book ∧
        ∀ order ∈ engine.book.standing,
          pipeline.engine.heap order = engine.heap order := by
  obtain ⟨pipeline, run, back⟩ := exists_pipelineRun_of_replay twoSlots
    (.start (fun _ => 0) zeroHeap tickingClock) overlapping
    (fun pipeline => pipeline.matcher = .running) (by decide +kernel)
  exact ⟨pipeline, run, pipeline_processes run (by decide)
    (of_decide_eq_true back)⟩

end TradingMatcher
