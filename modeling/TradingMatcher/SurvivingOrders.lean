import TradingMatcher.BookFromQueues
import TradingMatcher.MatchLoop
import TradingMatcher.OrderEntry

/-!
# Nothing but the surviving orders

Price and order of entry put the orders of a side into one queue, so histories
of adds and cancels that leave the same orders, in the same order of entry
within each price, leave the same book, and the matcher makes the same trades
of it.
-/

namespace TradingMatcher

open PriceTime

/-- The terms of a trade, all but its time. -/
def Trade.terms (trade : Trade) : OrderId × OrderId × Quantity × Price :=
  (trade.buyOrderId, trade.sellOrderId, trade.quantity, trade.priceScaled)

namespace Engine

variable {first second : Engine}

theorem Agrees.hasMatch (agrees : first.Agrees second) (tidy : first.Tidy)
    (otherTidy : second.Tidy) (matched : first.book.hasMatch = true) :
    second.book.hasMatch = true := by
  obtain ⟨bid, bids, ask, asks, buyQueue, sellQueue, positive, crossed⟩ :=
    tidy.hasMatch_iff.mp matched
  have bidStands : bid ∈ first.book.standing := by
    simp [OrderBook.standing, buyQueue]
  have askStands : ask ∈ first.book.standing := by
    simp [OrderBook.standing, sellQueue]
  rw [← agrees.fields ask askStands] at positive crossed
  rw [← agrees.fields bid bidStands] at crossed
  rw [← agrees.queues] at buyQueue sellQueue
  exact otherTidy.hasMatch_iff.mpr
    ⟨bid, bids, ask, asks, buyQueue, sellQueue, positive, crossed⟩

/-- Whether the loop makes a pass can be seen from queues and fields. -/
theorem Agrees.matchPass_eq_none_iff (agrees : first.Agrees second)
    (tidy : first.Tidy) (otherTidy : second.Tidy) :
    second.matchPass = none ↔ first.matchPass = none := by
  have hasMatch : second.book.hasMatch = true ↔ first.book.hasMatch = true :=
    ⟨agrees.symm.hasMatch otherTidy tidy, agrees.hasMatch tidy otherTidy⟩
  rw [tidy.matchPass_eq_none_iff, otherTidy.matchPass_eq_none_iff,
    Bool.eq_false_iff, Bool.eq_false_iff, ne_eq, ne_eq, hasMatch]

/-- Passes over agreeing engines make the same trade and leave agreeing
engines. -/
theorem Agrees.passed (agrees : first.Agrees second) (tidy : first.Tidy)
    (otherTidy : second.Tidy) {fill otherFill : Fill}
    {bids asks otherBids otherAsks : List OrderPtr} {after otherAfter : Engine}
    (passed : first.Passed fill bids asks after)
    (otherPassed : second.Passed otherFill otherBids otherAsks otherAfter) :
    otherFill.trade.terms = fill.trade.terms ∧ after.Agrees otherAfter := by
  have buyQueue := otherPassed.buyQueue
  have sellQueue := otherPassed.sellQueue
  rw [agrees.queues, passed.buyQueue] at buyQueue
  rw [agrees.queues, passed.sellQueue] at sellQueue
  obtain ⟨sameBid, sameBids⟩ := List.cons_eq_cons.mp buyQueue
  obtain ⟨sameAsk, sameAsks⟩ := List.cons_eq_cons.mp sellQueue
  have bidFields : second.heap fill.bid = first.heap fill.bid :=
    agrees.fields _ passed.bid_stands
  have askFields : second.heap fill.ask = first.heap fill.ask :=
    agrees.fields _ passed.ask_stands
  have sameTerms : otherFill.trade.terms = fill.trade.terms := by
    rw [passed.trade, otherPassed.trade, ← sameBid, ← sameAsk, bidFields,
      askFields]
    rfl
  have sameQuantity : otherFill.trade.quantity = fill.trade.quantity :=
    congrArg (fun terms => terms.2.2.1) sameTerms
  refine ⟨sameTerms, fun side => ?_, fun order stands => ?_⟩
  · cases side with
    | buy =>
        rw [passed.buyQueueAfter, otherPassed.buyQueueAfter, ← sameBid,
          ← sameBids, bidFields, sameQuantity]
    | sell =>
        rw [passed.sellQueueAfter, otherPassed.sellQueueAfter, ← sameAsk,
          ← sameAsks, askFields, sameQuantity]
  · have fields := agrees.fields order (passed.standing_subset stands)
    by_cases isBid : order = fill.bid
    · subst isBid
      rw [passed.heap_bid tidy, sameBid, otherPassed.heap_bid otherTidy,
        sameQuantity, ← sameBid, fields]
    · by_cases isAsk : order = fill.ask
      · subst isAsk
        rw [passed.heap_ask tidy, sameAsk, otherPassed.heap_ask otherTidy,
          sameQuantity, ← sameAsk, fields]
      · rw [passed.heap_of_ne isBid isAsk,
          otherPassed.heap_of_ne (sameBid ▸ isBid) (sameAsk ▸ isAsk), fields]

/-- A finished loop is followed trade by trade over an agreeing engine. -/
theorem Drains.agrees {fills : List Fill} {after : Engine}
    (drains : first.Drains fills after) (agrees : first.Agrees second)
    (tidy : first.Tidy) (otherTidy : second.Tidy) :
    ∃ otherFills otherAfter, second.Drains otherFills otherAfter ∧
      otherFills.map (fun fill => fill.trade.terms) =
        fills.map fun fill => fill.trade.terms := by
  induction drains generalizing second with
  | @done engine exits =>
      exact ⟨[], second,
        .done ((agrees.matchPass_eq_none_iff tidy otherTidy).mpr exits), rfl⟩
  | @pass engine middle after fill fills executes rest ih =>
      obtain ⟨tidyMiddle, bids, asks, passed⟩ := tidy.matchPass executes
      cases otherExecutes : second.matchPass with
      | none =>
          have exits :=
            (agrees.matchPass_eq_none_iff tidy otherTidy).mp otherExecutes
          cases executes.symm.trans exits
      | some executed =>
          obtain ⟨otherFill, otherMiddle⟩ := executed
          obtain ⟨otherTidyMiddle, otherBids, otherAsks, otherPassed⟩ :=
            otherTidy.matchPass otherExecutes
          obtain ⟨sameTerms, agreesMiddle⟩ :=
            agrees.passed tidy otherTidy passed otherPassed
          obtain ⟨otherFills, otherAfter, otherRest, sameRest⟩ :=
            ih agreesMiddle tidyMiddle otherTidyMiddle
          refine ⟨otherFill :: otherFills, otherAfter,
            .pass otherExecutes otherRest, ?_⟩
          rw [List.map_cons, List.map_cons, sameTerms, sameRest]

end Engine

/-- The step is an add or a cancel. -/
def Event.AddsOrCancels : Event → Prop
  | .addOrder .. => True
  | .cancelOrder .. => True
  | _ => False

instance : DecidablePred Event.AddsOrCancels
  | .addOrder .. => .isTrue trivial
  | .cancelOrder .. => .isTrue trivial
  | .modifyOrder .. => .isFalse id
  | .matchOrders => .isFalse id
  | .executeTrade _ => .isFalse id
  | .matchReturn _ => .isFalse id

/-- Two histories have left the same orders, with the same fields, and those of
one side and price entered in the same order. -/
structure SameSurvivors (history otherHistory : List Event)
    (engine other : Engine) : Prop where
  orders : ∀ order, order ∈ other.book.standing ↔ order ∈ engine.book.standing
  fields : ∀ order ∈ engine.book.standing, other.heap order = engine.heap order
  entry : ∀ first ∈ engine.book.standing, ∀ second ∈ engine.book.standing,
    (engine.heap first).bookSide = (engine.heap second).bookSide →
    (engine.heap first).priceScaled = (engine.heap second).priceScaled →
    (EnteredBefore otherHistory (engine.heap first).id (engine.heap second).id ↔
      EnteredBefore history (engine.heap first).id (engine.heap second).id)

section Runs

variable {heap otherHeap : Heap} {clock otherClock : Nat → Timestamp}
  {history otherHistory : List Event} {machine other : Machine}

/-- Without matching, the totals of all levels are right. -/
theorem FreshRun.totalRight_of_calls
    (run : FreshRun heap clock history machine)
    (calls : ∀ event ∈ history, event.AddsOrCancels) :
    machine.engine.EveryLevel fun heap level => level.TotalRight heap :=
  run.totalRight fun _ _ _ isSuffix =>
    (calls _ (isSuffix.subset List.mem_cons_self)).elim

/-- The same survivors stand in the same queues. -/
theorem SameSurvivors.queues
    (same : SameSurvivors history otherHistory machine.engine other.engine)
    (run : FreshRun heap clock history machine)
    (otherRun : FreshRun otherHeap otherClock otherHistory other)
    (side : Side) :
    other.engine.book.queue side = machine.engine.book.queue side := by
  have consistent := run.tidy.consistent
  have otherConsistent := otherRun.tidy.consistent
  have stood {order : OrderPtr} (member : order ∈ other.engine.book.queue side) :
      order ∈ machine.engine.book.standing :=
    (same.orders order).mp (OrderBook.mem_standing_iff.mpr ⟨side, member⟩)
  have members (order : OrderPtr) : order ∈ machine.engine.book.queue side ↔
      order ∈ other.engine.book.queue side := by
    constructor
    · intro member
      have stands := OrderBook.mem_standing_iff.mpr ⟨side, member⟩
      rw [← consistent.bookSide member, ← same.fields order stands]
      exact otherConsistent.mem_queue_bookSide ((same.orders order).mpr stands)
    · intro member
      have stands := stood member
      rw [← otherConsistent.bookSide member, same.fields order stands]
      exact consistent.mem_queue_bookSide stands
  have priority : InPriority side machine.engine.priceOf
      (other.engine.book.queue side) := by
    refine List.Pairwise.imp_of_mem ?_ (otherConsistent.inPriority side)
    intro earlier later earlierMember laterMember notBetter
    rwa [Engine.priceOf, Engine.priceOf, ← same.fields _ (stood earlierMember),
      ← same.fields _ (stood laterMember)]
  have ties : (other.engine.book.queue side).Pairwise fun earlier later =>
      machine.engine.priceOf earlier = machine.engine.priceOf later →
        EnteredBefore history (machine.engine.heap earlier).id
          (machine.engine.heap later).id := by
    refine List.Pairwise.imp_of_mem ?_ (otherRun.inEntryOrder side)
    intro earlier later earlierMember laterMember entered samePrice
    have sameSide : (other.engine.heap earlier).bookSide =
        (other.engine.heap later).bookSide :=
      (otherConsistent.bookSide earlierMember).trans
        (otherConsistent.bookSide laterMember).symm
    simp only [Engine.priceOf, same.fields _ (stood earlierMember),
      same.fields _ (stood laterMember)] at entered sameSide
    exact (same.entry _ (stood earlierMember) _ (stood laterMember) sameSide
      samePrice).mp (entered samePrice)
  symm
  exact (consistent.inPriority side).eq_of_perm (fun _ _ => EnteredBefore.asymm)
    (run.inEntryOrder side) priority ties
    ((List.perm_ext_iff_of_nodup (consistent.nodup side)
      (otherConsistent.nodup side)).mpr members)

/-- Two histories of adds and cancels that leave the same orders, with the same
order of entry within each side and price, leave the same book, and the matcher
makes the same trades of it. -/
theorem freshRuns_same_book (run : FreshRun heap clock history machine)
    (otherRun : FreshRun otherHeap otherClock otherHistory other)
    (calls : ∀ event ∈ history, event.AddsOrCancels)
    (otherCalls : ∀ event ∈ otherHistory, event.AddsOrCancels)
    (same : SameSurvivors history otherHistory machine.engine other.engine) :
    machine.engine.book = other.engine.book ∧
      ∃ fills after otherFills otherAfter,
        (∀ passes, machine.engine.book.standing.length ≤ passes →
          machine.engine.matchOrders passes = some (fills, after) ∧
          other.engine.matchOrders passes = some (otherFills, otherAfter)) ∧
        otherFills.map (fun fill => fill.trade.terms) =
          fills.map fun fill => fill.trade.terms := by
  have agrees : machine.engine.Agrees other.engine :=
    ⟨same.queues run otherRun, same.fields⟩
  have sameBook : machine.engine.book = other.engine.book :=
    agrees.book_eq run.tidy.consistent otherRun.tidy.consistent
      (run.totalRight_of_calls calls) (otherRun.totalRight_of_calls otherCalls)
      run.countRight otherRun.countRight
  obtain ⟨fills, after, drains, bound, -⟩ := run.tidy.exists_drains
  obtain ⟨otherFills, otherAfter, otherDrains, sameTerms⟩ :=
    drains.agrees agrees run.tidy otherRun.tidy
  have sameLength : otherFills.length = fills.length := by
    simpa using congrArg List.length sameTerms
  refine ⟨sameBook, fills, after, otherFills, otherAfter, ?_, sameTerms⟩
  intro passes enough
  have fits := bound.trans enough
  exact ⟨Engine.matchOrders_eq_some_iff.mpr ⟨drains, fits⟩,
    Engine.matchOrders_eq_some_iff.mpr ⟨otherDrains, sameLength ▸ fits⟩⟩

/-- Three orders: two buys at 100 and a sell at 90. -/
def survivor : OrderPtr → Order
  | 1 => Order.new 1 true 5 100 11
  | 2 => Order.new 2 true 5 100 12
  | _ => Order.new 3 false 4 90 13

/-- The three orders, added one after the other. -/
def plainHistory : List Event :=
  [.addOrder 3 (survivor 3) true, .addOrder 2 (survivor 2) true,
    .addOrder 1 (survivor 1) true]

/-- The three orders, with the sell first and a buy that was cancelled. -/
def detouredHistory : List Event :=
  [.addOrder 2 (survivor 2) true, .cancelOrder 9 true,
    .addOrder 1 (survivor 1) true, .addOrder 9 (Order.new 9 true 7 100 14) true,
    .addOrder 3 (survivor 3) true]

theorem freshRuns_same_book_detoured :
    ∃ machine other, FreshRun zeroHeap tickingClock plainHistory machine ∧
      FreshRun zeroHeap tickingClock detouredHistory other ∧
      machine.engine.book = other.engine.book := by
  have survives (history : List Event) (clock : Nat → Timestamp)
      (replays : (Run.replay (Run.guardNext FreshCall Machine.next?)
        (Machine.start zeroHeap clock) history).any (fun machine =>
          machine.engine.book.standing = [1, 2, 3] ∧
            ∀ order ∈ machine.engine.book.standing,
              machine.engine.heap order = survivor order) = true) :
      ∃ machine, FreshRun zeroHeap clock history machine ∧
        machine.engine.book.standing = [1, 2, 3] ∧
        ∀ order ∈ machine.engine.book.standing,
          machine.engine.heap order = survivor order := by
    obtain ⟨machine, run, passes⟩ := exists_guardedRun_of_replay FreshCall
      zeroHeap clock history _ replays
    exact ⟨machine, run, of_decide_eq_true passes⟩
  obtain ⟨machine, run, standing, fields⟩ :=
    survives plainHistory tickingClock (by decide)
  obtain ⟨other, otherRun, otherStanding, otherFields⟩ :=
    survives detouredHistory tickingClock (by decide)
  rw [standing] at fields
  rw [otherStanding] at otherFields
  have same : SameSurvivors plainHistory detouredHistory machine.engine
      other.engine := by
    refine ⟨fun order => ?_, fun order stands => ?_, ?_⟩
    · rw [standing, otherStanding]
    · rw [standing] at stands
      rw [fields order stands, otherFields order stands]
    · rw [standing]
      intro first firstStands second secondStands
      rw [fields first firstStands, fields second secondStands]
      revert first second
      decide
  exact ⟨machine, other, run, otherRun,
    (freshRuns_same_book run otherRun (by decide) (by decide) same).1⟩

end Runs

end TradingMatcher
