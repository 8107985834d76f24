import TradingMatcher.Allocation
import TradingMatcher.OrderEntry
import TradingMatcher.Sweep

/-!
# Relabelled books

The book compares prices with each other and with zero, and looks at no order
type.  Orders with other prices that compare alike are therefore handled alike,
and so are buys and sells when the sides and the order of the prices are turned
round together.
-/

namespace TradingMatcher

open PriceTime

@[simp]
theorem PriceTime.Side.opposite_opposite (side : Side) :
    side.opposite.opposite = side := by
  cases side <;> rfl

def Trade.orderId (trade : Trade) : Side → OrderId
  | .buy => trade.buyOrderId
  | .sell => trade.sellOrderId

/-- A change of the prices and types of all orders; a mirrored one turns the
sides round. -/
structure Relabelling where
  mirrored : Bool
  price : Price → Price
  orderType : UInt8 → UInt8
  reserved : UInt16 → UInt16

namespace Relabelling

variable (relabelling : Relabelling)

def side (side : Side) : Side :=
  if relabelling.mirrored then side.opposite else side

def order (order : Order) : Order :=
  { order with
    priceScaled := relabelling.price order.priceScaled
    side :=
      if relabelling.mirrored then (if order.isBuy then 1 else 0)
      else order.side
    orderType := relabelling.orderType order.orderType
    reserved := relabelling.reserved order.reserved }

def trade (trade : Trade) : Trade where
  buyOrderId := trade.orderId (relabelling.side .buy)
  sellOrderId := trade.orderId (relabelling.side .sell)
  quantity := trade.quantity
  priceScaled := relabelling.price trade.priceScaled
  timestampNs := trade.timestampNs

def fill (fill : Fill) : Fill where
  bid := fill.order (relabelling.side .buy)
  ask := fill.order (relabelling.side .sell)
  trade := relabelling.trade fill.trade

/-- The same step for the relabelled orders. -/
def event : Event → Event
  | .addOrder order fields result =>
      .addOrder order (relabelling.order fields) result
  | .cancelOrder id result => .cancelOrder id result
  | .modifyOrder id newPrice newQuantity result =>
      .modifyOrder id (relabelling.price newPrice) newQuantity result
  | .matchOrders => .matchOrders
  | .executeTrade fill => .executeTrade (relabelling.fill fill)
  | .matchReturn tradeCount => .matchReturn tradeCount

/-- The comparisons that the book makes come out alike for these prices. -/
structure Keeps (prices : Set Price) : Prop where
  better_iff : ∀ first ∈ prices, ∀ second ∈ prices, ∀ side : Side,
    (relabelling.side side).Better (relabelling.price first)
      (relabelling.price second) ↔ side.Better first second
  positive_iff : ∀ price ∈ prices, 0 < relabelling.price price ↔ 0 < price

@[simp]
theorem side_side (side : Side) :
    relabelling.side (relabelling.side side) = side := by
  unfold Relabelling.side
  split
  · exact side.opposite_opposite
  · rfl

theorem side_opposite (side : Side) :
    relabelling.side side.opposite = (relabelling.side side).opposite := by
  unfold Relabelling.side
  split <;> rfl

theorem order_bookSide (order : Order) :
    (relabelling.order order).bookSide = relabelling.side order.bookSide := by
  unfold Order.bookSide Order.isBuy Relabelling.order Relabelling.side
  cases relabelling.mirrored with
  | false => rfl
  | true => cases buys : order.isBuy <;> simp_all [Order.isBuy, Side.opposite]

theorem fill_order (fill : Fill) (side : Side) :
    (relabelling.fill fill).order side =
      fill.order (relabelling.side side) := by
  cases side <;> rfl

variable {relabelling}

theorem matchQuantity_order (fields : Side → Order) :
    Engine.matchQuantity (relabelling.order (fields (relabelling.side .buy)))
        (relabelling.order (fields (relabelling.side .sell))) =
      Engine.matchQuantity (fields .buy) (fields .sell) := by
  unfold Relabelling.side
  cases relabelling.mirrored with
  | false => rfl
  | true =>
      apply UInt32.toNat_inj.mp
      rw [Engine.toNat_matchQuantity, Engine.toNat_matchQuantity]
      exact Nat.min_comm _ _

/-- The price of the trade is relabelled too, unless the book is mirrored and
the timestamps do not say which of two prices it is. -/
theorem matchPrice_order (fields : Side → Order)
    (decided : relabelling.mirrored = true →
      (fields .buy).timestampNs ≠ (fields .sell).timestampNs ∨
        (fields .buy).priceScaled = (fields .sell).priceScaled) :
    Engine.matchPrice (relabelling.order (fields (relabelling.side .buy)))
        (relabelling.order (fields (relabelling.side .sell))) =
      relabelling.price (Engine.matchPrice (fields .buy) (fields .sell)) := by
  unfold Relabelling.side Engine.matchPrice
  cases mirrored : relabelling.mirrored with
  | false =>
      rw [apply_ite relabelling.price]
      rfl
  | true =>
      rw [apply_ite relabelling.price]
      change (if (fields .sell).timestampNs < (fields .buy).timestampNs
        then relabelling.price (fields .sell).priceScaled
        else relabelling.price (fields .buy).priceScaled) = _
      rcases decided mirrored with differ | same
      · rcases lt_or_gt_of_ne differ with less | more
        · rw [if_neg less.not_gt, if_pos less]
        · rw [if_pos more, if_neg more.not_gt]
      · rw [same, ite_self, ite_self]

end Relabelling

namespace Engine

/-- The cached prices match when both heads have positive prices that cross,
which is the same seen from either side. -/
theorem Tidy.hasMatch_iff_heads {engine : Engine} (tidy : engine.Tidy) :
    engine.book.hasMatch = true ↔
      ∃ (heads : Side → OrderPtr) (rests : Side → List OrderPtr),
        (∀ side, engine.book.queue side = heads side :: rests side) ∧
        (∀ side, 0 < (engine.heap (heads side)).priceScaled) ∧
        ∀ side : Side, ¬ side.opposite.Better
          (engine.heap (heads side)).priceScaled
          (engine.heap (heads side.opposite)).priceScaled := by
  rw [tidy.hasMatch_iff]
  constructor
  · rintro ⟨bid, bids, ask, asks, buyQueue, sellQueue, positive, crossed⟩
    refine ⟨fun | .buy => bid | .sell => ask, fun | .buy => bids | .sell => asks,
      fun side => ?_, fun side => ?_, fun side => ?_⟩
    · cases side
      exacts [buyQueue, sellQueue]
    · cases side
      exacts [positive.trans_le crossed, positive]
    · cases side <;> exact crossed.not_gt
  · rintro ⟨heads, rests, queues, positive, crossed⟩
    exact ⟨_, _, _, _, queues .buy, queues .sell, positive .sell,
      not_lt.mp (crossed .buy)⟩

section Sides

variable {before after : Engine} {fill : Fill} {bids asks : List OrderPtr}

theorem Passed.orderId_eq (passed : before.Passed fill bids asks after)
    (side : Side) :
    fill.trade.orderId side = (before.heap (fill.order side)).id := by
  cases side
  exacts [passed.buyOrderId_eq, passed.sellOrderId_eq]

theorem Passed.heap_order (passed : before.Passed fill bids asks after)
    (tidy : before.Tidy) (side : Side) :
    after.heap (fill.order side) = { before.heap (fill.order side) with
      quantity :=
        (before.heap (fill.order side)).quantity - fill.trade.quantity } := by
  cases side
  exacts [passed.heap_bid tidy, passed.heap_ask tidy]

end Sides

/-- The second engine has the orders of the first one, relabelled. -/
structure Relabelled (relabelling : Relabelling) (prices : Set Price)
    (first second : Engine) : Prop where
  clock : second.clock = first.clock
  queues : ∀ side, second.book.queue side =
    first.book.queue (relabelling.side side)
  fields : ∀ order ∈ first.book.standing,
    second.heap order = relabelling.order (first.heap order)
  prices : ∀ order ∈ first.book.standing,
    (first.heap order).priceScaled ∈ prices

namespace Relabelled

variable {relabelling : Relabelling} {prices : Set Price}
  {first second : Engine} {order : OrderPtr}

theorem mem_standing (relabelled : Relabelled relabelling prices first second) :
    order ∈ second.book.standing ↔ order ∈ first.book.standing := by
  simp only [OrderBook.mem_standing_iff, relabelled.queues]
  constructor
  · rintro ⟨side, member⟩
    exact ⟨_, member⟩
  · rintro ⟨side, member⟩
    refine ⟨relabelling.side side, ?_⟩
    rwa [relabelling.side_side]

theorem sameId (relabelled : Relabelled relabelling prices first second)
    (stands : order ∈ first.book.standing) :
    (second.heap order).id = (first.heap order).id := by
  rw [relabelled.fields order stands]
  rfl

theorem fresh (relabelled : Relabelled relabelling prices first second)
    {id : OrderId} (fresh : first.Fresh order id) : second.Fresh order id := by
  refine ⟨fun stands => fresh.1 (relabelled.mem_standing.mp stands), ?_⟩
  intro other stands
  have stood := relabelled.mem_standing.mp stands
  rw [relabelled.sameId stood]
  exact fresh.2 other stood

/-- Writing an object that does not stand. -/
theorem store (relabelled : Relabelled relabelling prices first second)
    (absent : order ∉ first.book.standing) (fields otherFields : Order) :
    Relabelled relabelling prices (first.store order fields)
      (second.store order otherFields) where
  clock := relabelled.clock
  queues := relabelled.queues
  fields other stands := by
    have differ := ne_of_mem_of_not_mem stands absent
    rw [first.store_heap_of_ne differ, second.store_heap_of_ne differ]
    exact relabelled.fields other stands
  prices other stands := by
    rw [first.store_heap_of_ne (ne_of_mem_of_not_mem stands absent)]
    exact relabelled.prices other stands

theorem stamped (relabelled : Relabelled relabelling prices first second)
    (fields : Order) : second.stamped (relabelling.order fields) =
      relabelling.order (first.stamped fields) := by
  rw [Engine.stamped, Engine.stamped, relabelled.clock,
    apply_ite relabelling.order]
  rfl

theorem stamp_clock (relabelled : Relabelled relabelling prices first second)
    (same : second.heap order = relabelling.order (first.heap order)) :
    (second.stamp order).clock = (first.stamp order).clock := by
  have timestamp : (second.heap order).timestampNs =
      (first.heap order).timestampNs := by
    rw [same]
    rfl
  rw [Engine.stamp, Engine.stamp, timestamp]
  split
  · simp only [Engine.store, getTimestampNs, relabelled.clock]
  · exact relabelled.clock

theorem addOrder (relabelled : Relabelled relabelling prices first second)
    (keeps : relabelling.Keeps prices) (tidy : first.Tidy)
    (otherTidy : second.Tidy)
    (fresh : (first.heap order).quantity ≠ 0 →
      first.Fresh order (first.heap order).id)
    (same : second.heap order = relabelling.order (first.heap order))
    (priced : (first.heap order).priceScaled ∈ prices) :
    (second.addOrder (some order)).1 = (first.addOrder (some order)).1 ∧
      Relabelled relabelling prices (first.addOrder (some order)).2
        (second.addOrder (some order)).2 := by
  have sameQuantity : (second.heap order).quantity =
      (first.heap order).quantity := by
    rw [same]
    rfl
  by_cases empty : (first.heap order).quantity = 0
  · rw [addOrder_of_no_quantity empty,
      addOrder_of_no_quantity (sameQuantity.trans empty)]
    exact ⟨rfl, relabelled⟩
  · have quantity : (second.heap order).quantity ≠ 0 := by rwa [sameQuantity]
    have otherFresh : second.Fresh order (second.heap order).id := by
      rw [same]
      exact relabelled.fresh (fresh empty)
    obtain ⟨-, queues, heap, clock⟩ := tidy.addOrder (fresh empty) empty
    obtain ⟨-, otherQueues, otherHeap, otherClock⟩ :=
      otherTidy.addOrder otherFresh quantity
    have standing (other : OrderPtr)
        (stands : other ∈ (first.addOrder (some order)).2.book.standing) :
        other = order ∨ other ≠ order ∧ other ∈ first.book.standing := by
      by_cases isNew : other = order
      · exact .inl isNew
      · have stood := (mem_standing_insertBehind queues).mp stands
        exact .inr ⟨isNew,
          OrderBook.mem_standing_iff.mpr (stood.resolve_left isNew)⟩
    refine ⟨?_, ?_, fun side => ?_, fun other stands => ?_,
      fun other stands => ?_⟩
    · rw [addOrder_of_quantity empty, addOrder_of_quantity quantity]
    · rw [clock, otherClock]
      exact relabelled.stamp_clock same
    · have onSide : side = (second.heap order).bookSide ↔
          relabelling.side side = (first.heap order).bookSide := by
        rw [same, relabelling.order_bookSide]
        constructor
        · rintro rfl
          exact relabelling.side_side _
        · intro sameSide
          rw [← sameSide, relabelling.side_side]
      rw [queues, otherQueues, relabelled.queues]
      refine if_congr onSide (insertBehind_of_better_iff ?_) rfl
      intro entry member
      have stands := OrderBook.mem_standing_iff.mpr ⟨_, member⟩
      have compared := keeps.better_iff _ priced _
        (relabelled.prices entry stands) (relabelling.side side)
      rw [relabelling.side_side] at compared
      rw [same, relabelled.fields entry stands]
      exact compared
    · rw [heap, otherHeap]
      rcases standing other stands with rfl | ⟨isOld, stood⟩
      · rw [stamp_heap_self, stamp_heap_self, same, relabelled.stamped]
      · rw [stamp_heap_of_ne _ _ isOld, stamp_heap_of_ne _ _ isOld]
        exact relabelled.fields other stood
    · rw [heap, (first.stamp_heap order other).2.1]
      rcases standing other stands with rfl | ⟨-, stood⟩
      · exact priced
      · exact relabelled.prices other stood

/-- The index knows the same orders. -/
theorem orderMap_eq (relabelled : Relabelled relabelling prices first second)
    (tidy : first.Tidy) (otherTidy : second.Tidy) (id : OrderId) :
    second.book.orderMap id = first.book.orderMap id := by
  ext order
  rw [tidy.consistent.indexed, otherTidy.consistent.indexed,
    relabelled.mem_standing]
  exact and_congr_right fun stands => by rw [relabelled.sameId stands]

theorem cancelled (relabelled : Relabelled relabelling prices first second)
    (tidy : first.Tidy) (otherTidy : second.Tidy)
    (stands : order ∈ first.book.standing) :
    Relabelled relabelling prices (first.cancelOrder (first.heap order).id).2
      (second.cancelOrder (first.heap order).id).2 := by
  have otherStands := relabelled.mem_standing.mpr stands
  obtain ⟨-, -, queues, heap⟩ := tidy.cancelOrder stands
  obtain ⟨-, -, otherQueues, otherHeap⟩ := otherTidy.cancelOrder otherStands
  rw [relabelled.sameId stands] at otherQueues otherHeap
  have stood (other : OrderPtr) (remains : other ∈
      (first.cancelOrder (first.heap order).id).2.book.standing) :
      other ∈ first.book.standing :=
    ((tidy.consistent.mem_standing_erase queues).mp remains).2
  refine ⟨relabelled.clock, fun side => ?_, fun other remains => ?_,
    fun other remains => ?_⟩
  · rw [queues, otherQueues, relabelled.queues]
  · rw [heap, otherHeap]
    exact relabelled.fields other (stood other remains)
  · rw [heap]
    exact relabelled.prices other (stood other remains)

theorem cancelOrder (relabelled : Relabelled relabelling prices first second)
    (tidy : first.Tidy) (otherTidy : second.Tidy) (id : OrderId) :
    (second.cancelOrder id).1 = (first.cancelOrder id).1 ∧
      Relabelled relabelling prices (first.cancelOrder id).2
        (second.cancelOrder id).2 := by
  have sameIndex := relabelled.orderMap_eq tidy otherTidy id
  cases found : first.book.orderMap id with
  | none =>
      rw [cancelOrder_of_absent found,
        cancelOrder_of_absent (sameIndex.trans found)]
      exact ⟨rfl, relabelled⟩
  | some order =>
      obtain ⟨stands, rfl⟩ := (tidy.consistent.indexed id order).mp found
      refine ⟨?_, relabelled.cancelled tidy otherTidy stands⟩
      rw [(tidy.cancelOrder stands).1, ← relabelled.sameId stands,
        (otherTidy.cancelOrder (relabelled.mem_standing.mpr stands)).1]

/-- A modification withdraws an order. -/
theorem withdrawn (relabelled : Relabelled relabelling prices first second)
    (tidy : first.Tidy) (otherTidy : second.Tidy)
    (stands : order ∈ first.book.standing) (newPrice : Price)
    (newQuantity : Quantity) :
    Relabelled relabelling prices (first.withdrawn order newPrice newQuantity)
      (second.withdrawn order (relabelling.price newPrice) newQuantity) := by
  have cancelled := relabelled.cancelled tidy otherTidy stands
  have fresh := tidy.cancelOrder_fresh stands
  have ticked : Relabelled relabelling prices
      { first with
        clock := fun index => first.clock (index + 1)
        book := (first.book.cancelOrder first.heap (first.heap order).id).2 }
      { second with
        clock := fun index => second.clock (index + 1)
        book := (second.book.cancelOrder second.heap
          (first.heap order).id).2 } :=
    ⟨funext fun index => congrFun relabelled.clock (index + 1),
      cancelled.queues, cancelled.fields, cancelled.prices⟩
  rw [Engine.withdrawn, Engine.withdrawn, relabelled.sameId stands]
  exact ticked.store fresh.1 _ _

theorem modifiedFields (relabelled : Relabelled relabelling prices first second)
    (stands : order ∈ first.book.standing) (newPrice : Price)
    (newQuantity : Quantity) :
    second.modifiedFields order (relabelling.price newPrice) newQuantity =
      relabelling.order (first.modifiedFields order newPrice newQuantity) := by
  rw [Engine.modifiedFields, Engine.modifiedFields,
    relabelled.fields order stands, relabelled.clock]
  rfl

theorem modifyOrder (relabelled : Relabelled relabelling prices first second)
    (keeps : relabelling.Keeps prices) (tidy : first.Tidy)
    (otherTidy : second.Tidy) (id : OrderId) {newPrice : Price}
    (priced : newPrice ∈ prices) (newQuantity : Quantity) :
    (second.modifyOrder id (relabelling.price newPrice) newQuantity).1 =
        (first.modifyOrder id newPrice newQuantity).1 ∧
      Relabelled relabelling prices
        (first.modifyOrder id newPrice newQuantity).2
        (second.modifyOrder id (relabelling.price newPrice) newQuantity).2 := by
  have sameIndex := relabelled.orderMap_eq tidy otherTidy id
  cases found : first.book.orderMap id with
  | none =>
      rw [modifyOrder_of_absent found,
        modifyOrder_of_absent (sameIndex.trans found)]
      exact ⟨rfl, relabelled⟩
  | some order =>
      obtain ⟨stands, rfl⟩ := (tidy.consistent.indexed id order).mp found
      have otherStands := relabelled.mem_standing.mpr stands
      have otherFound : second.book.orderMap (second.heap order).id =
          some order := by
        rw [relabelled.sameId stands, sameIndex, found]
      obtain ⟨tidyNow, free, -⟩ := tidy.withdrawn stands newPrice newQuantity
      obtain ⟨otherTidyNow, -, -⟩ := otherTidy.withdrawn otherStands
        (relabelling.price newPrice) newQuantity
      rw [modifyOrder_of_indexed found, ← relabelled.sameId stands,
        modifyOrder_of_indexed otherFound]
      refine (relabelled.withdrawn tidy otherTidy stands newPrice
        newQuantity).addOrder keeps tidyNow otherTidyNow ?_ ?_ ?_
      · exact fun _ => by rwa [withdrawn_heap_self]
      · rw [withdrawn_heap_self, withdrawn_heap_self]
        exact relabelled.modifiedFields stands newPrice newQuantity
      · rw [withdrawn_heap_self]
        exact priced

theorem better_iff (relabelled : Relabelled relabelling prices first second)
    (keeps : relabelling.Keeps prices) {other : OrderPtr}
    (stands : order ∈ first.book.standing)
    (otherStands : other ∈ first.book.standing) (side : Side) :
    side.Better (second.heap order).priceScaled
        (second.heap other).priceScaled ↔
      (relabelling.side side).Better (first.heap order).priceScaled
        (first.heap other).priceScaled := by
  have compared := keeps.better_iff _ (relabelled.prices order stands) _
    (relabelled.prices other otherStands) (relabelling.side side)
  rw [relabelling.side_side] at compared
  rw [relabelled.fields order stands, relabelled.fields other otherStands]
  exact compared

theorem positive_iff (relabelled : Relabelled relabelling prices first second)
    (keeps : relabelling.Keeps prices) (stands : order ∈ first.book.standing) :
    0 < (second.heap order).priceScaled ↔
      0 < (first.heap order).priceScaled := by
  rw [relabelled.fields order stands]
  exact keeps.positive_iff _ (relabelled.prices order stands)

theorem hasMatch_iff (relabelled : Relabelled relabelling prices first second)
    (keeps : relabelling.Keeps prices) (tidy : first.Tidy)
    (otherTidy : second.Tidy) :
    second.book.hasMatch = true ↔ first.book.hasMatch = true := by
  rw [tidy.hasMatch_iff_heads, otherTidy.hasMatch_iff_heads]
  have stands {side : Side} {head : OrderPtr} {rest : List OrderPtr}
      (queue : first.book.queue side = head :: rest) :
      head ∈ first.book.standing :=
    OrderBook.mem_standing_iff.mpr ⟨side, queue ▸ List.mem_cons_self⟩
  constructor
  · rintro ⟨heads, rests, queues, positive, crossed⟩
    have own (side : Side) : first.book.queue side =
        heads (relabelling.side side) :: rests (relabelling.side side) := by
      rw [← queues, relabelled.queues, relabelling.side_side]
    refine ⟨fun side => heads (relabelling.side side), _, own, fun side => ?_,
      fun side better => ?_⟩
    · exact (relabelled.positive_iff keeps (stands (own side))).mp (positive _)
    · apply crossed (relabelling.side side)
      rw [← relabelling.side_opposite]
      rw [relabelled.better_iff keeps (stands (own side))
        (stands (own side.opposite)), relabelling.side_side]
      exact better
  · rintro ⟨heads, rests, queues, positive, crossed⟩
    have own (side : Side) : second.book.queue side =
        heads (relabelling.side side) :: rests (relabelling.side side) := by
      rw [← queues, relabelled.queues]
    refine ⟨fun side => heads (relabelling.side side), _, own, fun side => ?_,
      fun side better => ?_⟩
    · exact (relabelled.positive_iff keeps (stands (queues _))).mpr (positive _)
    · apply crossed (relabelling.side side)
      rw [← relabelling.side_opposite]
      exact (relabelled.better_iff keeps (stands (queues _))
        (stands (queues _)) _).mp better

theorem exits (relabelled : Relabelled relabelling prices first second)
    (keeps : relabelling.Keeps prices) (tidy : first.Tidy)
    (otherTidy : second.Tidy) (ends : first.matchPass = none) :
    second.matchPass = none := by
  rw [tidy.matchPass_eq_none_iff, Bool.eq_false_iff] at ends
  rw [otherTidy.matchPass_eq_none_iff, Bool.eq_false_iff]
  exact fun matched => ends
    ((relabelled.hasMatch_iff keeps tidy otherTidy).mp matched)

section Passes

variable {after otherAfter : Engine} {fill otherFill : Fill}
  {bids asks otherBids otherAsks : List OrderPtr}

/-- The pass of the second engine trades the same two orders. -/
theorem fill_order (relabelled : Relabelled relabelling prices first second)
    (tidy : first.Tidy) (otherTidy : second.Tidy)
    (passed : first.Passed fill bids asks after)
    (otherPassed : second.Passed otherFill otherBids otherAsks otherAfter)
    (side : Side) :
    otherFill.order side = fill.order (relabelling.side side) := by
  obtain ⟨rest, queue, -⟩ := passed.head_cases tidy (relabelling.side side)
  obtain ⟨otherRest, otherQueue, -⟩ := otherPassed.head_cases otherTidy side
  rw [relabelled.queues, queue] at otherQueue
  exact (List.cons_eq_cons.mp otherQueue).1.symm

/-- The pass of the second engine makes the relabelled trade. -/
theorem fill_eq (relabelled : Relabelled relabelling prices first second)
    (tidy : first.Tidy) (otherTidy : second.Tidy)
    (passed : first.Passed fill bids asks after)
    (otherPassed : second.Passed otherFill otherBids otherAsks otherAfter)
    (decided : relabelling.mirrored = true →
      (first.heap fill.bid).timestampNs ≠ (first.heap fill.ask).timestampNs ∨
        (first.heap fill.bid).priceScaled =
          (first.heap fill.ask).priceScaled) :
    otherFill = relabelling.fill fill := by
  have sameOrder := relabelled.fill_order tidy otherTidy passed otherPassed
  have sameBid : otherFill.bid = fill.order (relabelling.side .buy) :=
    sameOrder .buy
  have sameAsk : otherFill.ask = fill.order (relabelling.side .sell) :=
    sameOrder .sell
  have stands (side : Side) : fill.order side ∈ first.book.standing := by
    cases side
    exacts [passed.bid_stands, passed.ask_stands]
  have sameTrade : otherFill.trade = relabelling.trade fill.trade := by
    rw [Relabelling.trade, passed.orderId_eq, passed.orderId_eq, passed.trade,
      otherPassed.trade, sameBid, sameAsk, relabelled.fields _ (stands _),
      relabelled.fields _ (stands _), relabelled.clock,
      relabelling.matchQuantity_order fun side => first.heap (fill.order side),
      relabelling.matchPrice_order (fun side => first.heap (fill.order side))
        decided]
    rfl
  obtain ⟨bid, ask, trade⟩ := otherFill
  obtain rfl : bid = _ := sameBid
  obtain rfl : ask = _ := sameAsk
  obtain rfl : trade = _ := sameTrade
  rfl

theorem matchPass (relabelled : Relabelled relabelling prices first second)
    (keeps : relabelling.Keeps prices) (tidy : first.Tidy)
    (otherTidy : second.Tidy) (pass : first.matchPass = some (fill, after))
    (decided : relabelling.mirrored = true →
      (first.heap fill.bid).timestampNs ≠ (first.heap fill.ask).timestampNs ∨
        (first.heap fill.bid).priceScaled =
          (first.heap fill.ask).priceScaled) :
    ∃ otherAfter, second.matchPass = some (relabelling.fill fill, otherAfter) ∧
      Relabelled relabelling prices after otherAfter := by
  obtain ⟨-, bids, asks, passed⟩ := tidy.matchPass pass
  have goesOn : second.matchPass ≠ none := by
    rw [Ne, otherTidy.matchPass_eq_none_iff, Bool.not_eq_false,
      relabelled.hasMatch_iff keeps tidy otherTidy]
    by_contra unmatched
    rw [tidy.matchPass_eq_none_iff.mpr (Bool.eq_false_iff.mpr unmatched)] at pass
    cases pass
  obtain ⟨⟨otherFill, otherAfter⟩, otherPass⟩ :=
    Option.ne_none_iff_exists'.mp goesOn
  obtain ⟨-, otherBids, otherAsks, otherPassed⟩ := otherTidy.matchPass otherPass
  have sameOrder := relabelled.fill_order tidy otherTidy passed otherPassed
  obtain rfl := relabelled.fill_eq tidy otherTidy passed otherPassed decided
  have stands (side : Side) : fill.order side ∈ first.book.standing := by
    cases side
    exacts [passed.bid_stands, passed.ask_stands]
  refine ⟨otherAfter, otherPass, ?_, fun side => ?_, fun order remains => ?_,
    fun order remains => ?_⟩
  · rw [passed.clock, otherPassed.clock, relabelled.clock]
  · obtain ⟨rest, queue, next⟩ := passed.head_cases tidy (relabelling.side side)
    obtain ⟨otherRest, otherQueue, otherNext⟩ :=
      otherPassed.head_cases otherTidy side
    rw [relabelled.queues, queue] at otherQueue
    obtain ⟨-, rfl⟩ := List.cons_eq_cons.mp otherQueue
    rw [sameOrder, relabelled.fields _ (stands _)] at otherNext
    rcases next with ⟨filled, leaves⟩ | ⟨unfilled, stays, -⟩
    · rcases otherNext with ⟨-, otherLeaves⟩ | ⟨otherUnfilled, -⟩
      · rw [leaves, otherLeaves]
      · exact (otherUnfilled filled).elim
    · rcases otherNext with ⟨otherFilled, -⟩ | ⟨-, otherStays, -⟩
      · exact (unfilled otherFilled).elim
      · rw [stays, otherStays]
  · have stood := passed.standing_subset remains
    by_cases trades : ∃ side, order = fill.order side
    · obtain ⟨side, rfl⟩ := trades
      have same := otherPassed.heap_order otherTidy (relabelling.side side)
      rw [sameOrder, relabelling.side_side] at same
      rw [same, passed.heap_order tidy, relabelled.fields _ (stands side)]
      rfl
    · have differ (side : Side) : order ≠ fill.order side :=
        fun same => trades ⟨side, same⟩
      have notBid : order ≠ (relabelling.fill fill).bid := differ _
      have notAsk : order ≠ (relabelling.fill fill).ask := differ _
      rw [passed.heap_of_ne (differ .buy) (differ .sell),
        otherPassed.heap_of_ne notBid notAsk]
      exact relabelled.fields order stood
  · rw [(passed.heap_terms order).2.1]
    exact relabelled.prices order (passed.standing_subset remains)

end Passes

end Relabelled

end Engine

end TradingMatcher
