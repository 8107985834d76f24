import TradingMatcher.CrossedBook
import TradingMatcher.OrderEntry
import TradingMatcher.PipelineRefinement

/-!
# The order that causes a trade

Where orders are added to and modified in a book only when it does not match, as
the matcher thread does, which runs `matchOrders` after every order that it adds,
all trades are trades of the order that came last with orders that were there
before it.
-/

namespace TradingMatcher

open PriceTime OrderPipeline

/-- The identifier that a step adds or modifies, or tries to. -/
def Event.called? : Event → Option OrderId
  | .addOrder _ fields _ => some fields.id
  | .modifyOrder id _ _ _ => some id
  | _ => none

/-- The step takes an order out of the book by a call. -/
def Event.Withdraws : Event → Prop
  | .cancelOrder _ _ | .modifyOrder _ _ _ _ => True
  | _ => False

instance : DecidablePred Event.Withdraws
  | .cancelOrder _ _ | .modifyOrder _ _ _ _ => .isTrue trivial
  | .addOrder .. | .matchOrders | .executeTrade _ | .matchReturn _ =>
      .isFalse id

instance (engine : Engine) : Decidable engine.CrossesPositively :=
  inferInstanceAs (Decidable (∀ buy ∈ engine.book.queue .buy, _))

/-- A fresh call that adds or modifies only where the book does not match, and
withdraws only where the book hides no crossing. -/
def SettledCall (machine : Machine) (event : Event) : Prop :=
  FreshCall machine event ∧
    (event.called? = none ∨ machine.engine.matchPass = none) ∧
    (event.Withdraws → machine.engine.CrossesPositively)

instance (machine : Machine) (event : Event) :
    Decidable (SettledCall machine event) :=
  have : Decidable (machine.engine.matchPass = none) :=
    decidable_of_iff (machine.engine.matchPass.isNone = true)
      Option.isNone_iff_eq_none
  inferInstanceAs (Decidable (_ ∧ _ ∧ _))

/-- A run in which the book is matched before an order is added or modified. -/
abbrev SettledRun (heap : Heap) (clock : Nat → Timestamp) :
    List Event → Machine → Prop :=
  Run (Guarded SettledCall Step) (Machine.start heap clock)

def lastCalled (history : List Event) : Option OrderId :=
  history.findSome? Event.called?

/-- All pairs of orders that can trade have the identifier in them.  While the
book hides a crossing, no pair can trade. -/
def MatchesOnlyWith (id : Option OrderId) (engine : Engine) : Prop :=
  engine.CrossesPositively →
    ∀ buy ∈ engine.book.queue .buy, ∀ sell ∈ engine.book.queue .sell,
      (engine.heap sell).priceScaled ≤ (engine.heap buy).priceScaled →
        id = some (engine.heap buy).id ∨ id = some (engine.heap sell).id

section Steps

variable {before after : Engine} {event : Event} {order : OrderPtr}
  {side : Side}

/-- An order that stays in a queue stood there with the same terms. -/
theorem Stays.stood_in (stays : Stays before event after order)
    (tidy : before.Tidy) (tidyAfter : after.Tidy)
    (member : order ∈ after.book.queue side) :
    order ∈ before.book.queue side ∧
      (after.heap order).id = (before.heap order).id ∧
      (after.heap order).priceScaled = (before.heap order).priceScaled := by
  obtain ⟨quantity, terms⟩ := stays.terms
  have onSide := tidyAfter.consistent.bookSide member
  rw [terms] at onSide ⊢
  refine ⟨?_, rfl, rfl⟩
  rw [← onSide]
  exact tidy.consistent.mem_queue_bookSide stays.stood

/-- An order that is added leaves the standing ones as they are. -/
theorem Effect.keeps_standing {fields : Order} {result : Bool}
    (effect : Effect before (.addOrder order fields result) after)
    {other : OrderPtr} (member : other ∈ before.book.queue side) :
    other ∈ after.book.queue side ∧ after.heap other = before.heap other := by
  have stands := OrderBook.mem_standing_iff.mpr ⟨side, member⟩
  cases effect with
  | refused absent =>
      have differ := ne_of_mem_of_not_mem stands absent
      exact ⟨member, before.store_heap_of_ne differ fields⟩
  | added fresh _ _ heap queues =>
      have differ := ne_of_mem_of_not_mem stands fresh.1
      refine ⟨?_, heap_added_of_ne heap differ⟩
      rw [queues side]
      split
      · apply (insertBehind_perm side _ order _).mem_iff.mpr
        exact List.mem_cons_of_mem _ member
      · exact member

/-- A book that trades hides no crossing. -/
theorem Engine.Tidy.crossesPositively_of_pass (tidy : before.Tidy)
    {fill : Fill} (pass : before.matchPass = some (fill, after)) :
    before.CrossesPositively := by
  by_contra hidden
  rw [tidy.matchPass_eq_none_iff.mpr (tidy.hasMatch_eq_false hidden).2] at pass
  cases pass

/-- Only a withdrawal can uncover a crossing. -/
theorem Effect.crossesPositively (effect : Effect before event after)
    (tidy : before.Tidy) (withdraws : event.Withdraws → before.CrossesPositively)
    (positively : after.CrossesPositively) : before.CrossesPositively := by
  cases event with
  | addOrder added fields result =>
      intro buy buys sell sells
      obtain ⟨buysAfter, buySame⟩ := effect.keeps_standing buys
      obtain ⟨sellsAfter, sellSame⟩ := effect.keeps_standing sells
      rw [← buySame, ← sellSame]
      exact positively buy buysAfter sell sellsAfter
  | cancelOrder | modifyOrder => exact withdraws trivial
  | executeTrade fill =>
      cases effect with
      | traded pass => exact tidy.crossesPositively_of_pass pass
  | matchOrders =>
      cases effect
      exact positively
  | matchReturn =>
      cases effect
      exact positively

theorem Event.called_of_entered {id : OrderId}
    (entered : event.entered? = some id) : event.called? = some id := by
  cases event with
  | addOrder order fields result =>
      cases result with
      | false => cases entered
      | true => exact entered
  | modifyOrder other newPrice newQuantity result =>
      cases result with
      | false => cases entered
      | true => exact entered
  | _ => cases entered

/-- What crosses after a step crossed before it, unless the step entered it. -/
theorem MatchesOnlyWith.step {history : List Event}
    (only : MatchesOnlyWith (lastCalled history) before) (tidy : before.Tidy)
    (tidyAfter : after.Tidy) (effect : Effect before event after)
    (settled : event.called? = none ∨ before.matchPass = none)
    (withdraws : event.Withdraws → before.CrossesPositively) :
    MatchesOnlyWith (lastCalled (event :: history)) after := by
  intro positivelyAfter buy buys sell sells crossing
  have positively := effect.crossesPositively tidy withdraws positivelyAfter
  have stands {side : Side} {order : OrderPtr}
      (member : order ∈ after.book.queue side) :=
    effect.stays_or_enters tidy tidyAfter
      (OrderBook.mem_standing_iff.mpr ⟨side, member⟩)
  rcases stands buys with buyStays | enters
  · rcases stands sells with sellStays | enters
    · obtain ⟨buyStood, buyId, buyPrice⟩ :=
        buyStays.stood_in tidy tidyAfter buys
      obtain ⟨sellStood, sellId, sellPrice⟩ :=
        sellStays.stood_in tidy tidyAfter sells
      rw [buyPrice, sellPrice] at crossing
      rcases settled with calls | exits
      · rw [lastCalled, List.findSome?_cons, calls, buyId, sellId]
        exact only positively buy buyStood sell sellStood crossing
      · have seen := tidy.hasMatch_of_crossed positively
          ⟨buy, buyStood, sell, sellStood, crossing⟩
        rw [tidy.matchPass_eq_none_iff, seen] at exits
        cases exits
    · rw [lastCalled, List.findSome?_cons,
        Event.called_of_entered enters.entered]
      exact .inr rfl
  · rw [lastCalled, List.findSome?_cons, Event.called_of_entered enters.entered]
    exact .inl rfl

end Steps

section Runs

variable {heap : Heap} {clock : Nat → Timestamp} {history later earlier :
  List Event} {machine : Machine} {fill : Fill}

theorem SettledRun.fresh (run : SettledRun heap clock history machine) :
    FreshRun heap clock history machine :=
  run.mono fun step => ⟨step.1.1, step.2⟩

theorem SettledRun.matchesOnlyWith
    (run : SettledRun heap clock history machine) :
    MatchesOnlyWith (lastCalled history) machine.engine := by
  apply run.invariant fun history machine =>
    MatchesOnlyWith (lastCalled history) machine.engine
  · exact fun _ _ => nofun
  · intro earlier source event target run only edge
    obtain ⟨⟨fresh, settled, withdraws⟩, step⟩ := edge
    have tidy := FreshRun.tidy (SettledRun.fresh run)
    obtain ⟨tidyAfter, effect⟩ := Step.effect tidy fresh step
    exact only.step tidy tidyAfter effect settled withdraws

/-- In a fresh run in which the book is matched before every order that is added
or modified, each trade is one of the order that was added or modified last. -/
theorem settledRun_trades_last
    (run : SettledRun heap clock (later ++ .executeTrade fill :: earlier)
      machine) :
    ∃ id, lastCalled earlier = some id ∧
      (id = fill.trade.buyOrderId ∨ id = fill.trade.sellOrderId) := by
  obtain ⟨after, runAfter, -⟩ := run.split
  cases runAfter with
  | @next _ before _ _ runBefore edge =>
      have tidy := FreshRun.tidy (SettledRun.fresh runBefore)
      have effect := (Step.effect tidy edge.1.1 edge.2).2
      cases effect with
      | traded pass passed =>
          have parties := SettledRun.matchesOnlyWith runBefore
            (tidy.crossesPositively_of_pass pass) _ passed.bid_mem _
            passed.ask_mem passed.crossed
          rw [passed.buyOrderId_eq, passed.sellOrderId_eq]
          rcases parties with isBuy | isSell
          · exact ⟨_, isBuy, .inl rfl⟩
          · exact ⟨_, isSell, .inr rfl⟩

/-- A sell is repriced until it meets a buy that came later. -/
def repriced : List Event :=
  [.matchOrders, .modifyOrder 1 95 3 true, .matchReturn 0, .matchOrders,
    .addOrder 2 (Order.new 2 true 5 95 9) true,
    .addOrder 1 (Order.new 1 false 3 100 8) true]

theorem settledRun_trades_last_modified :
    ∃ machine, SettledRun zeroHeap tickingClock
        (.executeTrade ⟨2, 1, ⟨2, 1, 3, 95, 2⟩⟩ :: repriced) machine ∧
      ∃ id, some (1 : OrderId) = some id ∧ (id = 2 ∨ id = 1) := by
  obtain ⟨machine, run, -⟩ := exists_guardedRun_of_replay SettledCall zeroHeap
    tickingClock ([] ++ .executeTrade ⟨2, 1, ⟨2, 1, 3, 95, 2⟩⟩ :: repriced)
    (fun _ => true) (by decide +kernel)
  exact ⟨machine, run, settledRun_trades_last run⟩

end Runs

section MatcherThread

/-- Between two orders of the matcher thread. -/
def BetweenOrders : List Event → Prop
  | [] | .matchReturn _ :: _ => True
  | _ => False

/-- The calls of the matcher thread: it matches after every order that it adds,
and neither cancels nor modifies. -/
def MatcherCalls : List Event → Prop
  | [] => True
  | .addOrder _ _ _ :: earlier => BetweenOrders earlier ∧ MatcherCalls earlier
  | .cancelOrder _ _ :: _ | .modifyOrder _ _ _ _ :: _ => False
  | .matchOrders :: earlier | .executeTrade _ :: earlier
  | .matchReturn _ :: earlier => MatcherCalls earlier

variable {heap : Heap} {clock : Nat → Timestamp} {history : List Event}
  {machine : Machine}

/-- Between two orders the book does not match. -/
theorem matchPass_betweenOrders (run : FreshRun heap clock history machine)
    (between : BetweenOrders history) : machine.engine.matchPass = none := by
  cases run with
  | start => rfl
  | @next history source target event run edge =>
      obtain ⟨-, step⟩ := edge
      cases step with
      | matchReturn exits => exact exits
      | _ => cases between

/-- A run with the calls of the matcher thread is settled. -/
theorem settledRun_of_matcherCalls (run : FreshRun heap clock history machine)
    (calls : MatcherCalls history) : SettledRun heap clock history machine := by
  induction run with
  | start => exact .start
  | @next history source target event run edge ih =>
      cases event with
      | addOrder order fields result =>
          have exits := matchPass_betweenOrders run calls.1
          exact (ih calls.2).next ⟨⟨edge.1, .inr exits, nofun⟩, edge.2⟩
      | cancelOrder => exact calls.elim
      | modifyOrder => exact calls.elim
      | matchOrders | executeTrade | matchReturn =>
          exact (ih calls).next ⟨⟨edge.1, .inl rfl, nofun⟩, edge.2⟩

end MatcherThread

namespace OrderPipeline

variable {size : RingSize} {buffer : Nat → OrderPtr} {heap : Heap}
  {clock : Nat → Timestamp} {history : List PipelineEvent}
  {pipeline : OrderPipeline}

/-- The matcher thread's book is called as the loop is written. -/
theorem matcherCalls_of_run
    (run : Run (PipelineStep size) (.start buffer heap clock) history
      pipeline) :
    MatcherCalls (bookHistory history) ∧
      match pipeline.matcher with
      | .running | .popped _ => BetweenOrders (bookHistory history)
      | .added | .matching _ => True := by
  induction run with
  | start => exact ⟨trivial, trivial⟩
  | @next history source target event run edge ih =>
      obtain ⟨calls, place⟩ := ih
      cases edge with
      | allocate | assign | push => exact ⟨calls, place⟩
      | @pop ringEvent orderQueue pc pops edge =>
          rw [pc] at place
          refine ⟨calls, ?_⟩
          cases ringEvent <;> exact place
      | addOrder pc returns =>
          rw [pc] at place
          exact ⟨⟨place, calls⟩, trivial⟩
      | matchOrders | executeTrade => exact ⟨calls, trivial⟩
      | matchReturn => exact ⟨calls, trivial⟩

theorem lastCalled_bookHistory (history : List PipelineEvent) :
    lastCalled (bookHistory history) =
      (addedOrders history).getLast?.map fun entry => entry.2.id := by
  rw [addedOrders, List.getLast?_reverse]
  induction history with
  | nil => rfl
  | cons event earlier ih =>
      cases event with
      | addOrder => rfl
      | _ => exact ih

variable {machine : Machine}

theorem Refines.exists_entry (refines : Refines heap clock history pipeline
    machine) {order : OrderPtr} (stands : order ∈ machine.engine.book.standing) :
    ∃ entry ∈ addedOrders history, entry.1 = order ∧
      entry.2.id = (machine.engine.heap order).id := by
  obtain ⟨entry, added, rfl⟩ := List.mem_map.mp (refines.within order stands)
  exact ⟨entry, added, rfl, (refines.ids entry added).symm⟩

/-- The identifier that was added last is that of the last entry. -/
theorem Refines.ends_with (refines : Refines heap clock history pipeline machine)
    (distinct : DistinctIds history) {last other : OrderPtr × Order}
    (lastMem : last ∈ addedOrders history) (mem : other ∈ addedOrders history)
    (differ : other.1 ≠ last.1)
    (isLast : lastCalled (bookHistory history) = some last.2.id) :
    ∃ entries, addedOrders history = entries ++ [last] ∧ other ∈ entries := by
  rw [lastCalled_bookHistory] at isLast
  obtain ⟨entry, atEnd, sameId⟩ := Option.map_eq_some_iff.mp isLast
  obtain ⟨entries, whole⟩ := List.getLast?_eq_some_iff.mp atEnd
  have entryMem : entry ∈ addedOrders history := List.mem_of_getLast? atEnd
  obtain rfl := distinct.eq_of_id_eq (refines.asAssigned entry entryMem)
    (refines.asAssigned last lastMem) sameId
  refine ⟨entries, whole, ?_⟩
  rw [whole, List.mem_append, List.mem_singleton] at mem
  rcases mem with before | rfl
  · exact before
  · exact (differ rfl).elim

end OrderPipeline

open OrderPipeline

/-- Each trade is one of the order that was added last, with an order that was
added before it. -/
theorem pipeline_trades_last {size : RingSize} {buffer : Nat → OrderPtr}
    {heap : Heap} {clock : Nat → Timestamp}
    {later earlier : List PipelineEvent} {fill : Fill}
    {pipeline : OrderPipeline}
    (run : Run (PipelineStep size) (.start buffer heap clock)
      (later ++ .executeTrade fill :: earlier) pipeline)
    (distinct : DistinctIds (.executeTrade fill :: earlier)) :
    ∃ entries last, addedOrders earlier = entries ++ [last] ∧
      ∃ other ∈ entries,
        (fill.trade.buyOrderId = last.2.id ∧
          fill.trade.sellOrderId = other.2.id) ∨
        (fill.trade.buyOrderId = other.2.id ∧
          fill.trade.sellOrderId = last.2.id) := by
  obtain ⟨after, runAfter, -⟩ := run.split
  cases runAfter with
  | @next _ before _ _ runBefore edge =>
      cases edge with
      | executeTrade pc pass =>
          obtain ⟨machine, refines⟩ := refines_of_run runBefore distinct.of_cons
          obtain ⟨calls, -⟩ := matcherCalls_of_run runBefore
          have settled := settledRun_of_matcherCalls refines.run calls
          have only := SettledRun.matchesOnlyWith settled
          have tidy := FreshRun.tidy refines.run
          obtain ⟨machineAfter, machinePass, -, -⟩ :=
            refines.agrees.matchPass tidy refines.within pass
          obtain ⟨-, bids, asks, passed⟩ := tidy.matchPass machinePass
          obtain ⟨buy, buyAdded, buyIs, buyId⟩ :=
            refines.exists_entry passed.bid_stands
          obtain ⟨sell, sellAdded, sellIs, sellId⟩ :=
            refines.exists_entry passed.ask_stands
          have differ : buy.1 ≠ sell.1 := by
            rw [buyIs, sellIs]
            exact passed.bid_ne_ask tidy
          have parties := only (tidy.crossesPositively_of_pass machinePass) _
            passed.bid_mem _ passed.ask_mem passed.crossed
          rw [← buyId, ← sellId] at parties
          rw [passed.buyOrderId_eq, passed.sellOrderId_eq, ← buyId, ← sellId]
          rcases parties with isBuy | isSell
          · obtain ⟨entries, whole, before⟩ := refines.ends_with
              distinct.of_cons buyAdded sellAdded differ.symm isBuy
            exact ⟨entries, buy, whole, sell, before, .inl ⟨rfl, rfl⟩⟩
          · obtain ⟨entries, whole, before⟩ := refines.ends_with
              distinct.of_cons sellAdded buyAdded differ isSell
            exact ⟨entries, sell, whole, buy, before, .inr ⟨rfl, rfl⟩⟩

theorem pipeline_trades_last_overlapping :
    ∃ pipeline, Run (PipelineStep twoSlots)
        (.start (fun _ => 0) zeroHeap tickingClock) overlapping pipeline ∧
      ∃ entries last, [offered, taking] = entries ++ [last] ∧
        ∃ other ∈ entries, ((101 : OrderId) = last.2.id ∧ 100 = other.2.id) ∨
          ((101 : OrderId) = other.2.id ∧ 100 = last.2.id) := by
  obtain ⟨pipeline, run, -⟩ := exists_pipelineRun_of_replay twoSlots
    (.start (fun _ => 0) zeroHeap tickingClock) overlapping (fun _ => true)
    (by decide +kernel)
  have shape : overlapping = [.matchReturn 1] ++
      .executeTrade ⟨2, 1, ⟨101, 100, 5, 90, 1⟩⟩ :: overlapping.drop 2 := rfl
  refine ⟨pipeline, run, ?_⟩
  rw [shape] at run
  exact pipeline_trades_last run (by decide)

end TradingMatcher
