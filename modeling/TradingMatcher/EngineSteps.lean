import TradingMatcher.BookConsistency
import TradingMatcher.Matcher

/-!
# What one call can do to a tidy book

A book is tidy when it is consistent and every standing order has quantity.
For each call this file states once what it does to the objects, the queues and
the index of a tidy book; every later invariant is derived from these
statements and never unfolds the call again.
-/

namespace TradingMatcher

open PriceTime

/-- The smaller quantity, read as a natural number. -/
theorem Engine.toNat_matchQuantity (bid ask : Order) :
    (matchQuantity bid ask).toNat = min bid.quantity.toNat ask.quantity.toNat := by
  rw [matchQuantity]
  split
  next less => have := UInt32.lt_iff_toNat_lt.mp less; omega
  next notLess =>
    have := mt UInt32.lt_iff_toNat_lt.mpr notLess
    omega

/-- Unsigned subtraction leaves nothing exactly when it takes everything. -/
theorem sub_eq_zero_iff (first second : Quantity) :
    first - second = 0 ↔ first = second := by
  rw [UInt32.sub_eq_iff_eq_add, UInt32.zero_add]

namespace Engine

/-- The book is consistent and every standing order has quantity. -/
structure Tidy (engine : Engine) : Prop where
  consistent : engine.book.Consistent engine.heap
  hasQuantity : ∀ order ∈ engine.book.standing,
    (engine.heap order).quantity ≠ 0

/-- The object is not standing, and neither is any order with its identifier. -/
def Fresh (engine : Engine) (order : OrderPtr) (id : OrderId) : Prop :=
  order ∉ engine.book.standing ∧
    ∀ other ∈ engine.book.standing, (engine.heap other).id ≠ id

@[simp]
theorem new_standing (heap : Heap) (clock : Nat → Timestamp) :
    (new heap clock).book.standing = [] := rfl

theorem new_tidy (heap : Heap) (clock : Nat → Timestamp) :
    (new heap clock).Tidy where
  consistent := OrderBook.new_consistent heap
  hasQuantity order member := by simp at member

@[simp]
theorem store_heap_self (engine : Engine) (order : OrderPtr) (fields : Order) :
    (engine.store order fields).heap order = fields :=
  Function.update_self _ _ _

theorem store_heap_of_ne (engine : Engine) {order other : OrderPtr}
    (differ : other ≠ order) (fields : Order) :
    (engine.store order fields).heap other = engine.heap other :=
  Function.update_of_ne differ _ _

section Stamp

variable (engine : Engine) (order : OrderPtr)

@[simp]
theorem stamp_book : (engine.stamp order).book = engine.book := by
  rw [stamp]
  split <;> rfl

theorem stamp_heap_of_ne {other : OrderPtr} (differ : other ≠ order) :
    (engine.stamp order).heap other = engine.heap other := by
  rw [stamp]
  split
  · exact Function.update_of_ne differ _ _
  · rfl

/-- A timestamp is all that stamping can change. -/
theorem stamp_heap (other : OrderPtr) :
    ((engine.stamp order).heap other).id = (engine.heap other).id ∧
      ((engine.stamp order).heap other).priceScaled =
        (engine.heap other).priceScaled ∧
      ((engine.stamp order).heap other).quantity =
        (engine.heap other).quantity ∧
      ((engine.stamp order).heap other).side = (engine.heap other).side := by
  by_cases same : other = order
  · subst same
    rw [stamp]
    split <;> simp [store, getTimestampNs]
  · rw [stamp_heap_of_ne engine order same]
    exact ⟨rfl, rfl, rfl, rfl⟩

theorem stamp_bookSide :
    ((engine.stamp order).heap order).bookSide =
      (engine.heap order).bookSide := by
  rw [Order.bookSide, Order.bookSide, Order.isBuy, Order.isBuy,
    (engine.stamp_heap order order).2.2.2]

end Stamp

/-- An order with quantity is stamped and entered. -/
theorem addOrder_of_quantity {engine : Engine} {order : OrderPtr}
    (quantity : (engine.heap order).quantity ≠ 0) :
    engine.addOrder (some order) = (true, { engine.stamp order with
      book := engine.book.enter (engine.stamp order).heap order }) := by
  simp [addOrder, quantity]

/-- An order without quantity is refused, and nothing changes. -/
theorem addOrder_of_no_quantity {engine : Engine} {order : OrderPtr}
    (quantity : (engine.heap order).quantity = 0) :
    engine.addOrder (some order) = (false, engine) := by
  simp [addOrder, quantity]

namespace Tidy

variable {engine : Engine}

theorem bid_ne_ask (tidy : engine.Tidy) {bid ask : OrderPtr}
    (bidMember : bid ∈ engine.book.queue .buy)
    (askMember : ask ∈ engine.book.queue .sell) : bid ≠ ask := by
  rintro rfl
  have bidSide := tidy.consistent.bookSide bidMember
  rw [tidy.consistent.bookSide askMember] at bidSide
  cases bidSide

theorem id_ne_of_absent (tidy : engine.Tidy) {id : OrderId}
    (absent : engine.book.orderMap id = none) {order : OrderPtr}
    (stands : order ∈ engine.book.standing) :
    (engine.heap order).id ≠ id := by
  intro sameId
  have indexed := (tidy.consistent.indexed id order).mpr ⟨stands, sameId⟩
  rw [absent] at indexed
  cases indexed

/-- Writing an object that does not stand keeps a book tidy. -/
theorem store (tidy : engine.Tidy) {order : OrderPtr}
    (absent : order ∉ engine.book.standing) (fields : Order) :
    (engine.store order fields).Tidy := by
  have untouched : ∀ other ∈ engine.book.standing,
      (engine.store order fields).heap other = engine.heap other := by
    intro other member
    exact engine.store_heap_of_ne (ne_of_mem_of_not_mem member absent) fields
  refine ⟨tidy.consistent.congr fun other member => ?_, fun other member => ?_⟩
  · rw [untouched other member]
    exact ⟨rfl, rfl, rfl⟩
  · rw [untouched other member]
    exact tidy.hasQuantity other member

/-- Adding a fresh order with quantity stamps it and inserts it by priority
into the queue of its side. -/
theorem addOrder (tidy : engine.Tidy) {order : OrderPtr}
    (fresh : engine.Fresh order (engine.heap order).id)
    (quantity : (engine.heap order).quantity ≠ 0) :
    (engine.addOrder (some order)).2.Tidy ∧
      (∀ side, (engine.addOrder (some order)).2.book.queue side =
        if side = (engine.heap order).bookSide then
          insertBehind side (fun other => (engine.heap other).priceScaled) order
            (engine.book.queue side)
        else engine.book.queue side) ∧
      (engine.addOrder (some order)).2.heap = (engine.stamp order).heap ∧
      (engine.addOrder (some order)).2.clock = (engine.stamp order).clock := by
  have consistent : engine.book.Consistent (engine.stamp order).heap :=
    tidy.consistent.congr fun other _ =>
      have same := engine.stamp_heap order other
      ⟨same.1, same.2.1, same.2.2.2⟩
  have prices : (fun other => ((engine.stamp order).heap other).priceScaled) =
      fun other => (engine.heap other).priceScaled :=
    funext fun other => (engine.stamp_heap order other).2.1
  rw [addOrder_of_quantity quantity]
  refine ⟨⟨consistent.enter fresh.1 ?_, ?_⟩, ?_, rfl, rfl⟩
  · intro other member
    rw [(engine.stamp_heap order other).1, (engine.stamp_heap order order).1]
    exact fresh.2 other member
  · intro other member
    change ((engine.stamp order).heap other).quantity ≠ 0
    rw [(engine.stamp_heap order other).2.2.1]
    rcases consistent.mem_standing_enter.mp member with rfl | stands
    · exact quantity
    · exact tidy.hasQuantity other stands
  · intro side
    rw [consistent.queue_enter, prices, stamp_bookSide]

/-- Cancelling a standing order erases it; the objects are not touched. -/
theorem cancelOrder (tidy : engine.Tidy) {order : OrderPtr}
    (stands : order ∈ engine.book.standing) :
    (engine.cancelOrder (engine.heap order).id).1 = true ∧
      (engine.cancelOrder (engine.heap order).id).2.Tidy ∧
      (∀ side, (engine.cancelOrder (engine.heap order).id).2.book.queue side =
        (engine.book.queue side).erase order) ∧
      (engine.cancelOrder (engine.heap order).id).2.heap = engine.heap := by
  obtain ⟨succeeds, consistent, queues, -⟩ :=
    tidy.consistent.cancelOrder stands
  refine ⟨succeeds, ⟨consistent, fun other member => ?_⟩, queues, rfl⟩
  obtain ⟨side, inQueue⟩ := OrderBook.mem_standing_iff.mp member
  change other ∈ (engine.book.cancelOrder engine.heap _).2.queue side at inQueue
  rw [queues] at inQueue
  exact tidy.hasQuantity other
    (OrderBook.mem_standing_iff.mpr ⟨side, List.mem_of_mem_erase inQueue⟩)

/-- After a cancellation the order and its identifier are free. -/
theorem cancelOrder_fresh (tidy : engine.Tidy) {order : OrderPtr}
    (stands : order ∈ engine.book.standing) :
    (engine.cancelOrder (engine.heap order).id).2.Fresh order
      (engine.heap order).id := by
  obtain ⟨-, -, queues, -⟩ := tidy.cancelOrder stands
  have remaining (other : OrderPtr) :
      other ∈ (engine.cancelOrder (engine.heap order).id).2.book.standing ↔
        other ≠ order ∧ other ∈ engine.book.standing :=
    tidy.consistent.mem_standing_erase queues
  refine ⟨fun member => ((remaining order).mp member).1 rfl, ?_⟩
  intro other member sameId
  obtain ⟨differ, otherStands⟩ := (remaining other).mp member
  exact differ (tidy.consistent.eq_of_id_eq otherStands stands sameId)

end Tidy

/-- An identifier without index entry is not cancelled. -/
theorem cancelOrder_of_absent {engine : Engine} {id : OrderId}
    (absent : engine.book.orderMap id = none) :
    engine.cancelOrder id = (false, engine) := by
  simp [Engine.cancelOrder, OrderBook.cancelOrder, absent]

theorem modifyOrder_of_absent {engine : Engine} {id : OrderId}
    (absent : engine.book.orderMap id = none) (newPrice : Price)
    (newQuantity : Quantity) :
    engine.modifyOrder id newPrice newQuantity = (false, engine) := by
  simp [modifyOrder, absent]

/-- The fields a modification gives to an order. -/
def modifiedFields (engine : Engine) (order : OrderPtr) (newPrice : Price)
    (newQuantity : Quantity) : Order :=
  { engine.heap order with
    priceScaled := newPrice
    quantity := newQuantity
    timestampNs := engine.clock 0 }

/-- The engine as a modification hands it to `addOrder`: the order is cancelled
and its object overwritten. -/
def withdrawn (engine : Engine) (order : OrderPtr) (newPrice : Price)
    (newQuantity : Quantity) : Engine :=
  { engine with
    clock := fun index => engine.clock (index + 1)
    book := (engine.book.cancelOrder engine.heap (engine.heap order).id).2
    }.store order (engine.modifiedFields order newPrice newQuantity)

theorem modifyOrder_of_indexed {engine : Engine} {order : OrderPtr}
    (indexed : engine.book.orderMap (engine.heap order).id = some order)
    (newPrice : Price) (newQuantity : Quantity) :
    engine.modifyOrder (engine.heap order).id newPrice newQuantity =
      (engine.withdrawn order newPrice newQuantity).addOrder (some order) := by
  rw [modifyOrder, indexed]
  rfl

@[simp]
theorem withdrawn_heap_self (engine : Engine) (order : OrderPtr)
    (newPrice : Price) (newQuantity : Quantity) :
    (engine.withdrawn order newPrice newQuantity).heap order =
      engine.modifiedFields order newPrice newQuantity :=
  Function.update_self _ _ _

theorem withdrawn_heap_of_ne (engine : Engine) {order other : OrderPtr}
    (differ : other ≠ order) (newPrice : Price) (newQuantity : Quantity) :
    (engine.withdrawn order newPrice newQuantity).heap other =
      engine.heap other :=
  Function.update_of_ne differ _ _

/-- A modification first leaves a tidy book without the order. -/
theorem Tidy.withdrawn {engine : Engine} (tidy : engine.Tidy)
    {order : OrderPtr} (stands : order ∈ engine.book.standing)
    (newPrice : Price) (newQuantity : Quantity) :
    (engine.withdrawn order newPrice newQuantity).Tidy ∧
      (engine.withdrawn order newPrice newQuantity).Fresh order
        (engine.heap order).id ∧
      ∀ side, (engine.withdrawn order newPrice newQuantity).book.queue side =
        (engine.book.queue side).erase order := by
  obtain ⟨-, tidyAfter, queues, -⟩ := tidy.cancelOrder stands
  have fresh := tidy.cancelOrder_fresh stands
  have tidyClock : Engine.Tidy { engine with
      clock := fun index => engine.clock (index + 1)
      book := (engine.book.cancelOrder engine.heap
        (engine.heap order).id).2 } :=
    ⟨tidyAfter.consistent, tidyAfter.hasQuantity⟩
  refine ⟨tidyClock.store fresh.1 _, ⟨fresh.1, fun other member => ?_⟩, queues⟩
  have differ : other ≠ order := fun same => fresh.1 (same ▸ member)
  rw [withdrawn_heap_of_ne engine differ]
  exact fresh.2 other member

section Trades

/-- The heap after a trade: both orders lose the traded quantity. -/
def reducedHeap (engine : Engine) (bid ask : OrderPtr) (quantity : Quantity) :
    Heap :=
  ((engine.reduceQuantity bid quantity).reduceQuantity ask quantity).heap

theorem reducedHeap_of_ne (engine : Engine) {bid ask other : OrderPtr}
    (quantity : Quantity) (notBid : other ≠ bid) (notAsk : other ≠ ask) :
    engine.reducedHeap bid ask quantity other = engine.heap other := by
  simp [reducedHeap, reduceQuantity, store, notBid, notAsk]

theorem reducedHeap_bid (engine : Engine) {bid ask : OrderPtr}
    (quantity : Quantity) (differ : bid ≠ ask) :
    engine.reducedHeap bid ask quantity bid = { engine.heap bid with
      quantity := (engine.heap bid).quantity - quantity } := by
  simp [reducedHeap, reduceQuantity, store, differ]

theorem reducedHeap_ask (engine : Engine) {bid ask : OrderPtr}
    (quantity : Quantity) (differ : bid ≠ ask) :
    engine.reducedHeap bid ask quantity ask = { engine.heap ask with
      quantity := (engine.heap ask).quantity - quantity } := by
  simp [reducedHeap, reduceQuantity, store, differ.symm]

/-- A quantity is all that a trade can change in an order. -/
theorem reducedHeap_terms (engine : Engine) (bid ask : OrderPtr)
    (quantity : Quantity) (order : OrderPtr) :
    (engine.reducedHeap bid ask quantity order).id = (engine.heap order).id ∧
      (engine.reducedHeap bid ask quantity order).priceScaled =
        (engine.heap order).priceScaled ∧
      (engine.reducedHeap bid ask quantity order).timestampNs =
        (engine.heap order).timestampNs ∧
      (engine.reducedHeap bid ask quantity order).side =
        (engine.heap order).side := by
  by_cases isAsk : order = ask <;> by_cases isBid : order = bid <;>
    by_cases same : ask = bid <;>
    simp_all [reducedHeap, reduceQuantity, store]

theorem removeFilled_heap (engine : Engine) (order : OrderPtr) :
    (engine.removeFilled order).heap = engine.heap := by
  rw [removeFilled]
  split <;> rfl

/-- Removing an order that may be filled, from a consistent book. -/
theorem removeFilled_spec {engine : Engine}
    (consistent : engine.book.Consistent engine.heap) {order : OrderPtr}
    (stands : order ∈ engine.book.standing) :
    (engine.removeFilled order).heap = engine.heap ∧
      (engine.removeFilled order).clock = engine.clock ∧
      (engine.removeFilled order).book.Consistent engine.heap ∧
      ∀ side, (engine.removeFilled order).book.queue side =
        if (engine.heap order).quantity = 0 then
          (engine.book.queue side).erase order
        else engine.book.queue side := by
  obtain ⟨-, consistentAfter, queues, -⟩ := consistent.cancelOrder stands
  rw [removeFilled]
  split
  · exact ⟨rfl, rfl, consistentAfter, queues⟩
  · exact ⟨rfl, rfl, consistent, fun _ => rfl⟩

/-- One pass of the loop: what the fill says, and what the engine becomes.
`bids` and `asks` are the queues behind the two heads. -/
structure Passed (before : Engine) (fill : Fill) (bids asks : List OrderPtr)
    (after : Engine) : Prop where
  buyQueue : before.book.queue .buy = fill.bid :: bids
  sellQueue : before.book.queue .sell = fill.ask :: asks
  askPositive : 0 < (before.heap fill.ask).priceScaled
  crossed : (before.heap fill.ask).priceScaled ≤
    (before.heap fill.bid).priceScaled
  trade : fill.trade = {
    buyOrderId := (before.heap fill.bid).id
    sellOrderId := (before.heap fill.ask).id
    quantity := matchQuantity (before.heap fill.bid) (before.heap fill.ask)
    priceScaled := matchPrice (before.heap fill.bid) (before.heap fill.ask)
    timestampNs := before.clock 0 }
  heap : after.heap =
    before.reducedHeap fill.bid fill.ask fill.trade.quantity
  clock : after.clock = fun index => before.clock (index + 1)
  buyQueueAfter : after.book.queue .buy =
    if (before.heap fill.bid).quantity = fill.trade.quantity then bids
    else fill.bid :: bids
  sellQueueAfter : after.book.queue .sell =
    if (before.heap fill.ask).quantity = fill.trade.quantity then asks
    else fill.ask :: asks

theorem matchQuantity_eq_or (bid ask : Order) :
    matchQuantity bid ask = bid.quantity ∨
      matchQuantity bid ask = ask.quantity := by
  unfold matchQuantity
  split
  exacts [.inl rfl, .inr rfl]

namespace Passed

variable {before after : Engine} {fill : Fill} {bids asks : List OrderPtr}

theorem quantity_eq_or (passed : before.Passed fill bids asks after) :
    (before.heap fill.bid).quantity = fill.trade.quantity ∨
      (before.heap fill.ask).quantity = fill.trade.quantity := by
  rw [passed.trade]
  rcases matchQuantity_eq_or (before.heap fill.bid) (before.heap fill.ask) with
    isBid | isAsk
  exacts [.inl isBid.symm, .inr isAsk.symm]

theorem toNat_quantity (passed : before.Passed fill bids asks after) :
    fill.trade.quantity.toNat = min (before.heap fill.bid).quantity.toNat
      (before.heap fill.ask).quantity.toNat := by
  rw [passed.trade]
  exact toNat_matchQuantity _ _

theorem bid_mem (passed : before.Passed fill bids asks after) :
    fill.bid ∈ before.book.queue .buy := by
  rw [passed.buyQueue]
  exact List.mem_cons_self

theorem ask_mem (passed : before.Passed fill bids asks after) :
    fill.ask ∈ before.book.queue .sell := by
  rw [passed.sellQueue]
  exact List.mem_cons_self

theorem bid_stands (passed : before.Passed fill bids asks after) :
    fill.bid ∈ before.book.standing :=
  OrderBook.mem_standing_iff.mpr ⟨.buy, passed.bid_mem⟩

theorem ask_stands (passed : before.Passed fill bids asks after) :
    fill.ask ∈ before.book.standing :=
  OrderBook.mem_standing_iff.mpr ⟨.sell, passed.ask_mem⟩

theorem buyOrderId_eq (passed : before.Passed fill bids asks after) :
    fill.trade.buyOrderId = (before.heap fill.bid).id := by
  rw [passed.trade]

theorem sellOrderId_eq (passed : before.Passed fill bids asks after) :
    fill.trade.sellOrderId = (before.heap fill.ask).id := by
  rw [passed.trade]

theorem bid_ne_ask (passed : before.Passed fill bids asks after)
    (tidy : before.Tidy) : fill.bid ≠ fill.ask :=
  tidy.bid_ne_ask passed.bid_mem passed.ask_mem

/-- The two heads stand neither behind themselves nor behind each other. -/
theorem behind (passed : before.Passed fill bids asks after)
    (tidy : before.Tidy) {order : OrderPtr}
    (member : order ∈ bids ∨ order ∈ asks) :
    order ≠ fill.bid ∧ order ≠ fill.ask := by
  have buyNodup := tidy.consistent.nodup .buy
  have sellNodup := tidy.consistent.nodup .sell
  rw [passed.buyQueue, List.nodup_cons] at buyNodup
  rw [passed.sellQueue, List.nodup_cons] at sellNodup
  rcases member with inBids | inAsks
  · have stands : order ∈ before.book.queue .buy := by
      rw [passed.buyQueue]
      exact List.mem_cons_of_mem _ inBids
    exact ⟨ne_of_mem_of_not_mem inBids buyNodup.1,
      tidy.bid_ne_ask stands passed.ask_mem⟩
  · have stands : order ∈ before.book.queue .sell := by
      rw [passed.sellQueue]
      exact List.mem_cons_of_mem _ inAsks
    exact ⟨(tidy.bid_ne_ask passed.bid_mem stands).symm,
      ne_of_mem_of_not_mem inAsks sellNodup.1⟩

theorem heap_of_ne (passed : before.Passed fill bids asks after)
    {order : OrderPtr} (notBid : order ≠ fill.bid) (notAsk : order ≠ fill.ask) :
    after.heap order = before.heap order := by
  rw [passed.heap, reducedHeap_of_ne before _ notBid notAsk]

theorem heap_bid (passed : before.Passed fill bids asks after)
    (tidy : before.Tidy) :
    after.heap fill.bid = { before.heap fill.bid with
      quantity := (before.heap fill.bid).quantity - fill.trade.quantity } := by
  rw [passed.heap, reducedHeap_bid before _ (passed.bid_ne_ask tidy)]

theorem heap_ask (passed : before.Passed fill bids asks after)
    (tidy : before.Tidy) :
    after.heap fill.ask = { before.heap fill.ask with
      quantity := (before.heap fill.ask).quantity - fill.trade.quantity } := by
  rw [passed.heap, reducedHeap_ask before _ (passed.bid_ne_ask tidy)]

theorem quantity_le (passed : before.Passed fill bids asks after) :
    fill.trade.quantity ≤ (before.heap fill.bid).quantity ∧
      fill.trade.quantity ≤ (before.heap fill.ask).quantity := by
  rw [UInt32.le_iff_toNat_le, UInt32.le_iff_toNat_le, passed.toNat_quantity]
  omega

/-- A trade moves no order and changes quantities only. -/
theorem heap_terms (passed : before.Passed fill bids asks after)
    (order : OrderPtr) :
    (after.heap order).id = (before.heap order).id ∧
      (after.heap order).priceScaled = (before.heap order).priceScaled ∧
      (after.heap order).timestampNs = (before.heap order).timestampNs ∧
      (after.heap order).side = (before.heap order).side := by
  rw [passed.heap]
  exact before.reducedHeap_terms fill.bid fill.ask fill.trade.quantity order

theorem queue_sublist (passed : before.Passed fill bids asks after)
    (side : Side) :
    (after.book.queue side).Sublist (before.book.queue side) := by
  cases side with
  | buy =>
      rw [passed.buyQueueAfter, passed.buyQueue]
      split
      exacts [List.sublist_cons_self _ _, .refl _]
  | sell =>
      rw [passed.sellQueueAfter, passed.sellQueue]
      split
      exacts [List.sublist_cons_self _ _, .refl _]

theorem standing_subset (passed : before.Passed fill bids asks after) :
    after.book.standing ⊆ before.book.standing := by
  intro order stands
  obtain ⟨side, member⟩ := OrderBook.mem_standing_iff.mp stands
  exact OrderBook.mem_standing_iff.mpr ⟨side, (passed.queue_sublist side).subset member⟩

/-- Every pass takes at least one order off the ladders. -/
theorem standing_length_lt (passed : before.Passed fill bids asks after) :
    after.book.standing.length < before.book.standing.length := by
  simp only [OrderBook.standing, passed.buyQueue, passed.sellQueue,
    passed.buyQueueAfter, passed.sellQueueAfter, List.length_append,
    List.length_cons]
  rcases passed.quantity_eq_or with filled | filled
  · rw [if_pos filled]
    split
    · omega
    · rw [List.length_cons]
      omega
  · rw [if_pos filled]
    split
    · omega
    · rw [List.length_cons]
      omega

end Passed

namespace Tidy

variable {engine : Engine}

/-- The cached prices match exactly when positive heads of the two queues
cross. -/
theorem hasMatch_iff (tidy : engine.Tidy) :
    engine.book.hasMatch = true ↔ ∃ bid bids ask asks,
      engine.book.queue .buy = bid :: bids ∧
      engine.book.queue .sell = ask :: asks ∧
      0 < (engine.heap ask).priceScaled ∧
      (engine.heap ask).priceScaled ≤ (engine.heap bid).priceScaled := by
  have bestBid := tidy.consistent.bestPrice_eq .buy
  have bestAsk := tidy.consistent.bestPrice_eq .sell
  change engine.book.bestBidPrice = _ at bestBid
  change engine.book.bestAskPrice = _ at bestAsk
  simp only [OrderBook.hasMatch, Bool.and_eq_true, decide_eq_true_eq,
    bestBid, bestAsk]
  cases engine.book.queue .buy with
  | nil => simp
  | cons bid bids =>
      cases engine.book.queue .sell with
      | nil => simp
      | cons ask asks =>
          simp only [List.head?_cons, Option.map_some, Option.getD_some,
            List.cons.injEq]
          constructor
          · rintro ⟨⟨-, askPositive⟩, crossed⟩
            exact ⟨bid, bids, ask, asks, ⟨rfl, rfl⟩, ⟨rfl, rfl⟩, askPositive,
              crossed⟩
          · rintro ⟨_, _, _, _, ⟨rfl, rfl⟩, ⟨rfl, rfl⟩, askPositive, crossed⟩
            exact ⟨⟨askPositive.trans_le crossed, askPositive⟩, crossed⟩

/-- With a match, the pass executes a trade between the two heads. -/
theorem matchPass_of_hasMatch (tidy : engine.Tidy)
    (matches_ : engine.book.hasMatch = true) :
    ∃ bid bids ask asks,
      engine.book.queue .buy = bid :: bids ∧
      engine.book.queue .sell = ask :: asks ∧
      0 < (engine.heap ask).priceScaled ∧
      (engine.heap ask).priceScaled ≤ (engine.heap bid).priceScaled ∧
      engine.matchPass =
        let executed := engine.executeTrade bid ask
          (matchPrice (engine.heap bid) (engine.heap ask))
          (matchQuantity (engine.heap bid) (engine.heap ask))
        some (⟨bid, ask, executed.1⟩, executed.2) := by
  obtain ⟨bid, bids, ask, asks, buyQueue, sellQueue, askPositive, crossed⟩ :=
    tidy.hasMatch_iff.mp matches_
  refine ⟨bid, bids, ask, asks, buyQueue, sellQueue, askPositive, crossed, ?_⟩
  simp [matchPass, matches_, tidy.consistent.getBestBid_eq,
    tidy.consistent.getBestAsk_eq, buyQueue, sellQueue, crossed.not_gt]

/-- In a tidy book the loop is left only when the cached prices do not
match. -/
theorem matchPass_eq_none_iff (tidy : engine.Tidy) :
    engine.matchPass = none ↔ engine.book.hasMatch = false := by
  cases matches_ : engine.book.hasMatch with
  | false => simp [matchPass, matches_]
  | true =>
      obtain ⟨bid, _, ask, _, -, -, -, -, passEq⟩ :=
        tidy.matchPass_of_hasMatch matches_
      simp [passEq]

/-- Executing a trade between the two heads: each head leaves its queue exactly
when the trade takes its whole quantity. -/
theorem executeTrade (tidy : engine.Tidy) {bid ask : OrderPtr}
    {bids asks : List OrderPtr}
    (buyQueue : engine.book.queue .buy = bid :: bids)
    (sellQueue : engine.book.queue .sell = ask :: asks)
    (price : Price) (quantity : Quantity) :
    (engine.executeTrade bid ask price quantity).2.heap =
        engine.reducedHeap bid ask quantity ∧
      (engine.executeTrade bid ask price quantity).2.clock =
        (fun index => engine.clock (index + 1)) ∧
      (engine.executeTrade bid ask price quantity).2.book.Consistent
        (engine.reducedHeap bid ask quantity) ∧
      (engine.executeTrade bid ask price quantity).2.book.queue .buy =
        (if (engine.heap bid).quantity = quantity then bids else bid :: bids) ∧
      (engine.executeTrade bid ask price quantity).2.book.queue .sell =
        (if (engine.heap ask).quantity = quantity then asks
          else ask :: asks) := by
  have bidMember : bid ∈ engine.book.queue .buy := by simp [buyQueue]
  have askMember : ask ∈ engine.book.queue .sell := by simp [sellQueue]
  have differ := tidy.bid_ne_ask bidMember askMember
  have buyNodup := buyQueue ▸ tidy.consistent.nodup .buy
  have askNotBuy : ask ∉ engine.book.queue .buy := fun member =>
    tidy.bid_ne_ask member askMember rfl
  have bidNotSell : bid ∉ engine.book.queue .sell := fun member =>
    tidy.bid_ne_ask bidMember member rfl
  let reduced :=
    (engine.getTimestampNs.2.reduceQuantity bid quantity).reduceQuantity ask
      quantity
  have consistent : reduced.book.Consistent reduced.heap :=
    tidy.consistent.congr fun order _ =>
      have terms := engine.reducedHeap_terms bid ask quantity order
      ⟨terms.1, terms.2.1, terms.2.2.2⟩
  have bidLeft : (reduced.heap bid).quantity = 0 ↔
      (engine.heap bid).quantity = quantity := by
    change (engine.reducedHeap bid ask quantity bid).quantity = 0 ↔ _
    rw [reducedHeap_bid engine quantity differ]
    exact sub_eq_zero_iff _ _
  have askLeft : (reduced.heap ask).quantity = 0 ↔
      (engine.heap ask).quantity = quantity := by
    change (engine.reducedHeap bid ask quantity ask).quantity = 0 ↔ _
    rw [reducedHeap_ask engine quantity differ]
    exact sub_eq_zero_iff _ _
  -- The removals act on the reduced heap, which they leave as it is.
  obtain ⟨heapBid, clockBid, consistentBid, queuesBid⟩ :=
    removeFilled_spec consistent
      (OrderBook.mem_standing_iff.mpr ⟨.buy, bidMember⟩)
  have askStands : ask ∈ (reduced.removeFilled bid).book.standing := by
    refine OrderBook.mem_standing_iff.mpr ⟨.sell, ?_⟩
    rw [queuesBid]
    split
    · exact (List.mem_erase_of_ne differ.symm).mpr askMember
    · exact askMember
  rw [← heapBid] at consistentBid
  obtain ⟨heapAsk, clockAsk, consistentAsk, queuesAsk⟩ :=
    removeFilled_spec consistentBid askStands
  rw [heapBid] at heapAsk consistentAsk queuesAsk
  refine ⟨heapAsk, clockAsk.trans clockBid, consistentAsk, ?_, ?_⟩
  · change ((reduced.removeFilled bid).removeFilled ask).book.queue .buy = _
    have askNotLeft : ask ∉ (reduced.removeFilled bid).book.queue .buy := by
      rw [queuesBid]
      split
      · exact fun member => askNotBuy (List.mem_of_mem_erase member)
      · exact askNotBuy
    rw [queuesAsk, List.erase_of_not_mem askNotLeft, ite_self, queuesBid]
    simp only [bidLeft]
    change (if _ then (engine.book.queue .buy).erase bid
      else engine.book.queue .buy) = _
    rw [buyQueue, List.erase_cons_head]
  · change ((reduced.removeFilled bid).removeFilled ask).book.queue .sell = _
    rw [queuesAsk, queuesBid]
    simp only [askLeft]
    change (if _ then (if _ then (engine.book.queue .sell).erase bid
      else engine.book.queue .sell).erase ask
      else (if _ then (engine.book.queue .sell).erase bid
        else engine.book.queue .sell)) = _
    rw [List.erase_of_not_mem bidNotSell, ite_self, sellQueue,
      List.erase_cons_head]

/-- A pass of the loop over a tidy book. -/
theorem matchPass (tidy : engine.Tidy) {fill : Fill} {after : Engine}
    (pass : engine.matchPass = some (fill, after)) :
    after.Tidy ∧ ∃ bids asks, engine.Passed fill bids asks after := by
  have matches_ : engine.book.hasMatch = true := by
    by_contra noMatch
    have left := tidy.matchPass_eq_none_iff.mpr (by simpa using noMatch)
    rw [left] at pass
    cases pass
  obtain ⟨bid, bids, ask, asks, buyQueue, sellQueue, askPositive, crossed,
    passEq⟩ := tidy.matchPass_of_hasMatch matches_
  rw [passEq] at pass
  obtain ⟨rfl, rfl⟩ := Prod.mk.inj (Option.some.inj pass)
  obtain ⟨heapEq, clockEq, consistent, buyQueueAfter, sellQueueAfter⟩ :=
    tidy.executeTrade buyQueue sellQueue
      (matchPrice (engine.heap bid) (engine.heap ask))
      (matchQuantity (engine.heap bid) (engine.heap ask))
  have bidMember : bid ∈ engine.book.queue .buy := by simp [buyQueue]
  have askMember : ask ∈ engine.book.queue .sell := by simp [sellQueue]
  have differ := tidy.bid_ne_ask bidMember askMember
  have behindBid : ∀ order ∈ bids, order ≠ bid ∧ order ≠ ask ∧
      (engine.heap order).quantity ≠ 0 := by
    intro order member
    have stands : order ∈ engine.book.queue .buy := by simp [buyQueue, member]
    have nodup := List.nodup_cons.mp (buyQueue ▸ tidy.consistent.nodup .buy)
    exact ⟨ne_of_mem_of_not_mem member nodup.1, tidy.bid_ne_ask stands askMember,
      tidy.hasQuantity order (OrderBook.mem_standing_iff.mpr ⟨.buy, stands⟩)⟩
  have behindAsk : ∀ order ∈ asks, order ≠ bid ∧ order ≠ ask ∧
      (engine.heap order).quantity ≠ 0 := by
    intro order member
    have stands : order ∈ engine.book.queue .sell := by simp [sellQueue, member]
    have nodup := List.nodup_cons.mp (sellQueue ▸ tidy.consistent.nodup .sell)
    exact ⟨(tidy.bid_ne_ask bidMember stands).symm,
      ne_of_mem_of_not_mem member nodup.1,
      tidy.hasQuantity order (OrderBook.mem_standing_iff.mpr ⟨.sell, stands⟩)⟩
  refine ⟨⟨heapEq ▸ consistent, ?_⟩, bids, asks, buyQueue, sellQueue,
    askPositive, crossed, rfl, heapEq, clockEq, buyQueueAfter, sellQueueAfter⟩
  intro order member
  obtain ⟨side, inQueue⟩ := OrderBook.mem_standing_iff.mp member
  rw [heapEq]
  have behind : order ≠ bid ∧ order ≠ ask ∧ (engine.heap order).quantity ≠ 0 →
      (engine.reducedHeap bid ask (matchQuantity (engine.heap bid)
        (engine.heap ask)) order).quantity ≠ 0 := by
    rintro ⟨notBid, notAsk, quantity⟩
    rwa [reducedHeap_of_ne engine _ notBid notAsk]
  cases side with
  | buy =>
      rw [buyQueueAfter] at inQueue
      split at inQueue
      next => exact behind (behindBid order inQueue)
      next partly =>
        rcases List.mem_cons.mp inQueue with rfl | inQueue
        · rw [reducedHeap_bid engine _ differ]
          exact fun empty => partly ((sub_eq_zero_iff _ _).mp empty)
        · exact behind (behindBid order inQueue)
  | sell =>
      rw [sellQueueAfter] at inQueue
      split at inQueue
      next => exact behind (behindAsk order inQueue)
      next partly =>
        rcases List.mem_cons.mp inQueue with rfl | inQueue
        · rw [reducedHeap_ask engine _ differ]
          exact fun empty => partly ((sub_eq_zero_iff _ _).mp empty)
        · exact behind (behindAsk order inQueue)

end Tidy

end Trades

end Engine

end TradingMatcher
