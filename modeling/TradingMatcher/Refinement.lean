import TradingMatcher.MatchLoop
import TradingMatcher.StandingOrders

/-!
# The engine refines price-time priority

The abstraction reads the two ladders as queues of entries.  Over a tidy book
every step of the engine is a step of the abstract machine with the same
observation, provided the prices are positive: the cached prices do not see a
crossing below one.
-/

namespace TradingMatcher

open PriceTime

namespace Engine

/-- An order object as an entry of the abstract book. -/
def entry (engine : Engine) (order : OrderPtr) :
    Entry OrderPtr OrderId Price where
  object := order
  id := (engine.heap order).id
  price := (engine.heap order).priceScaled
  quantity := (engine.heap order).quantity.toNat

/-- The abstract book an engine represents. -/
def view (engine : Engine) : Book OrderPtr OrderId Price where
  buys := (engine.book.queue .buy).map engine.entry
  sells := (engine.book.queue .sell).map engine.entry

theorem queue_view (engine : Engine) (side : Side) :
    engine.view.queue side = (engine.book.queue side).map engine.entry := by
  cases side <;> rfl

theorem entry_congr {first second : Engine} {order : OrderPtr}
    (same : first.heap order = second.heap order) :
    first.entry order = second.entry order := by
  rw [entry, entry, same]

/-- Stamping is invisible in the abstract book. -/
theorem entry_stamp {before after : Engine} {order : OrderPtr}
    (heap : after.heap = (before.stamp order).heap) :
    after.entry = before.entry := by
  ext other
  obtain ⟨sameId, samePrice, sameQuantity, -⟩ := before.stamp_heap order other
  rw [entry, entry, heap, sameId, samePrice, sameQuantity]

/-- Entering an order is an insertion by priority into one abstract queue. -/
theorem queue_view_insertBehind {before after : Engine} {order : OrderPtr}
    (heap : after.heap = (before.stamp order).heap) {side : Side}
    {rest : List OrderPtr}
    (queue : after.book.queue side =
      insertBehind side before.priceOf order rest) :
    after.view.queue side = insertBehind side Entry.price (before.entry order)
      (rest.map before.entry) := by
  rw [queue_view, queue, entry_stamp heap]
  exact map_insertBehind side Entry.price before.entry order rest

/-- An identifier without a standing order names nothing in a queue. -/
theorem find?_queue_of_absent {engine : Engine} {id : OrderId} {side : Side}
    (absent : ∀ order ∈ engine.book.queue side, (engine.heap order).id ≠ id) :
    (engine.view.queue side).find? (·.id = id) = none := by
  rw [queue_view]
  apply List.find?_eq_none.mpr
  simpa [entry] using absent

namespace Tidy

variable {engine : Engine}

theorem find?_queue (tidy : engine.Tidy) {order : OrderPtr}
    {side : Side} (member : order ∈ engine.book.queue side) :
    (engine.view.queue side).find? (·.id = (engine.heap order).id) =
      some (engine.entry order) := by
  rw [queue_view, List.find?_map, Option.map_eq_some_iff]
  refine ⟨order, ?_, rfl⟩
  cases search : (engine.book.queue side).find?
      ((fun entry : Entry OrderPtr OrderId Price =>
        decide (entry.id = (engine.heap order).id)) ∘ engine.entry) with
  | none => simpa [entry] using List.find?_eq_none.mp search order member
  | some other =>
      have otherMember := List.mem_of_find?_eq_some search
      have sameId := List.find?_some search
      rw [tidy.consistent.eq_of_id_eq
        (OrderBook.mem_standing_iff.mpr ⟨side, otherMember⟩)
        (OrderBook.mem_standing_iff.mpr ⟨side, member⟩)
        (of_decide_eq_true sameId)]

/-- The index answers as a search through the abstract book does. -/
theorem find?_view (tidy : engine.Tidy) (id : OrderId) :
    engine.view.find? id = (engine.book.orderMap id).map fun order =>
      ((engine.heap order).bookSide, engine.entry order) := by
  have searchBuys : engine.view.buys.find? (·.id = id) =
      (engine.view.queue .buy).find? (·.id = id) := rfl
  have searchSells : engine.view.sells.find? (·.id = id) =
      (engine.view.queue .sell).find? (·.id = id) := rfl
  rw [Book.find?, searchBuys, searchSells]
  cases indexed : engine.book.orderMap id with
  | none =>
      have absent (side : Side) : ∀ order ∈ engine.book.queue side,
          (engine.heap order).id ≠ id := fun order member =>
        tidy.id_ne_of_absent indexed
          (OrderBook.mem_standing_iff.mpr ⟨side, member⟩)
      rw [find?_queue_of_absent (absent .buy),
        find?_queue_of_absent (absent .sell)]
      rfl
  | some order =>
      obtain ⟨stands, rfl⟩ := (tidy.consistent.indexed id order).mp indexed
      have member := tidy.consistent.mem_queue_bookSide stands
      cases side : (engine.heap order).bookSide with
      | buy =>
          rw [side] at member
          rw [tidy.find?_queue member]
          simp [side]
      | sell =>
          rw [side] at member
          have notBuy : ∀ other ∈ engine.book.queue .buy,
              (engine.heap other).id ≠ (engine.heap order).id := by
            intro other otherMember sameId
            have same := tidy.consistent.eq_of_id_eq
              (OrderBook.mem_standing_iff.mpr ⟨.buy, otherMember⟩) stands sameId
            exact tidy.bid_ne_ask otherMember member same
          rw [find?_queue_of_absent notBuy, tidy.find?_queue member]
          simp [side]

/-- Deleting the identifier of a standing order deletes that order. -/
theorem filter_queue (tidy : engine.Tidy) {order : OrderPtr}
    (stands : order ∈ engine.book.standing) (side : Side) :
    (engine.view.queue side).filter (·.id ≠ (engine.heap order).id) =
      ((engine.book.queue side).erase order).map engine.entry := by
  rw [queue_view, List.filter_map, (tidy.consistent.nodup side).erase_eq_filter]
  congr 1
  apply List.filter_congr
  intro other member
  have sameIff : (engine.heap other).id = (engine.heap order).id ↔
      other = order :=
    ⟨tidy.consistent.eq_of_id_eq (OrderBook.mem_standing_iff.mpr ⟨side, member⟩)
      stands, fun same => by rw [same]⟩
  rw [Bool.eq_iff_iff]
  simp [entry, sameIff]

theorem filter_queue_of_absent (tidy : engine.Tidy) {id : OrderId}
    (absent : engine.book.orderMap id = none) (side : Side) :
    (engine.view.queue side).filter (·.id ≠ id) = engine.view.queue side := by
  rw [queue_view]
  apply List.filter_eq_self.mpr
  intro found member
  obtain ⟨order, inQueue, rfl⟩ := List.mem_map.mp member
  have differ := tidy.id_ne_of_absent absent
    (OrderBook.mem_standing_iff.mpr ⟨side, inQueue⟩)
  exact decide_eq_true differ

theorem cancel_view (tidy : engine.Tidy) {order : OrderPtr}
    (stands : order ∈ engine.book.standing) {after : Engine}
    (queues : ∀ side, after.book.queue side =
      (engine.book.queue side).erase order)
    (untouched : ∀ other ≠ order, after.entry other = engine.entry other) :
    engine.view.cancel (engine.heap order).id = (true, after.view) := by
  have indexed := (tidy.consistent.indexed _ order).mpr ⟨stands, rfl⟩
  have queueAfter (side : Side) : after.view.queue side =
      (engine.view.queue side).filter (·.id ≠ (engine.heap order).id) := by
    rw [tidy.filter_queue stands, queue_view, queues]
    apply List.map_congr_left
    intro other member
    exact untouched other
      ((tidy.consistent.nodup side).mem_erase_iff.mp member).1
  rw [Book.cancel, tidy.find?_view, indexed]
  exact Prod.ext rfl (Book.ext (queueAfter .buy).symm (queueAfter .sell).symm)

theorem cancel_view_of_absent (tidy : engine.Tidy) {id : OrderId}
    (absent : engine.book.orderMap id = none) :
    engine.view.cancel id = (false, engine.view) := by
  rw [Book.cancel, tidy.find?_view, absent]
  exact Prod.ext rfl (Book.ext (tidy.filter_queue_of_absent absent .buy)
    (tidy.filter_queue_of_absent absent .sell))

end Tidy

theorem view_congr {before after : Engine}
    (queues : ∀ side, after.book.queue side = before.book.queue side)
    (entries : ∀ order ∈ before.book.standing,
      after.entry order = before.entry order) :
    after.view = before.view := by
  apply Book.ext_queue
  intro side
  rw [queue_view, queue_view, queues]
  apply List.map_congr_left
  intro order member
  exact entries order (OrderBook.mem_standing_iff.mpr ⟨side, member⟩)

/-- Taking a quantity from the head of an abstract queue is what a trade does
to the order and to its queue. -/
theorem fillHead_map_entry {before after : Engine} {order : OrderPtr}
    {rest : List OrderPtr} {quantity : Quantity}
    (enough : quantity ≤ (before.heap order).quantity)
    (reduced : after.heap order = { before.heap order with
      quantity := (before.heap order).quantity - quantity })
    (untouched : ∀ other ∈ rest, after.heap other = before.heap other) :
    Book.fillHead quantity.toNat ((order :: rest).map before.entry) =
      (if (before.heap order).quantity = quantity then rest
        else order :: rest).map after.entry := by
  have restEq : rest.map before.entry = rest.map after.entry :=
    List.map_congr_left fun other member =>
      (entry_congr (untouched other member)).symm
  have left : (before.entry order).quantity - quantity.toNat =
      ((before.heap order).quantity - quantity).toNat :=
    (UInt32.toNat_sub_of_le _ _ enough).symm
  have emptyIff : ((before.heap order).quantity - quantity).toNat = 0 ↔
      (before.heap order).quantity = quantity := by
    rw [← UInt32.toNat_zero, UInt32.toNat_inj, sub_eq_zero_iff]
  rw [List.map_cons, Book.fillHead, left, restEq]
  simp only [emptyIff]
  split
  · rfl
  · rw [List.map_cons, entry, entry, reduced]

theorem Passed.trade?_view {before after : Engine} {fill : Fill}
    {bids asks : List OrderPtr} (tidy : before.Tidy)
    (passed : before.Passed fill bids asks after) :
    before.view.trade? =
      some (⟨fill.trade.buyOrderId, fill.trade.sellOrderId,
        fill.trade.quantity.toNat⟩, after.view) := by
  have buysAfter := fillHead_map_entry passed.quantity_le.1
    (passed.heap_bid tidy) fun other (member : other ∈ bids) =>
      have differ := passed.behind tidy (.inl member)
      passed.heap_of_ne differ.1 differ.2
  have sellsAfter := fillHead_map_entry passed.quantity_le.2
    (passed.heap_ask tidy) fun other (member : other ∈ asks) =>
      have differ := passed.behind tidy (.inr member)
      passed.heap_of_ne differ.1 differ.2
  rw [← passed.buyQueueAfter] at buysAfter
  rw [← passed.sellQueueAfter] at sellsAfter
  rw [Book.trade?, view, passed.buyQueue, passed.sellQueue]
  have crosses : (before.entry fill.ask).price ≤
      (before.entry fill.bid).price := passed.crossed
  simp only [List.map_cons, if_pos crosses]
  have traded : min (before.entry fill.bid).quantity
      (before.entry fill.ask).quantity = fill.trade.quantity.toNat :=
    passed.toNat_quantity.symm
  rw [traded]
  rw [passed.buyOrderId_eq, passed.sellOrderId_eq]
  exact congrArg some (Prod.ext rfl (Book.ext buysAfter sellsAfter))

/-- With positive prices the loop is left only when the heads do not cross. -/
theorem Tidy.trade?_view_of_exits {engine : Engine} (tidy : engine.Tidy)
    (positive : ∀ order ∈ engine.book.standing,
      0 < (engine.heap order).priceScaled)
    (exits : engine.matchPass = none) : engine.view.trade? = none := by
  have noMatch := tidy.matchPass_eq_none_iff.mp exits
  rw [Book.trade?, view]
  cases buyQueue : engine.book.queue .buy with
  | nil => rfl
  | cons bid bids =>
      cases sellQueue : engine.book.queue .sell with
      | nil => rfl
      | cons ask asks =>
          have askStands : ask ∈ engine.book.standing :=
            OrderBook.mem_standing_iff.mpr ⟨.sell, by simp [sellQueue]⟩
          simp only [List.map_cons]
          rw [if_neg]
          intro crosses
          have matched := tidy.hasMatch_iff.mpr ⟨bid, bids, ask, asks, buyQueue,
            sellQueue, positive ask askStands, crosses⟩
          rw [noMatch] at matched
          cases matched

/-- A loop that returns makes the trades of the abstract match. -/
theorem Drains.matchAll_view {engine after : Engine} {fills : List Fill}
    (drains : engine.Drains fills after) (tidy : engine.Tidy)
    (positive : ∀ order ∈ engine.book.standing,
      0 < (engine.heap order).priceScaled) :
    engine.view.matchAll = (fills.map fun fill =>
      ⟨fill.trade.buyOrderId, fill.trade.sellOrderId,
        fill.trade.quantity.toNat⟩, after.view) := by
  induction drains with
  | done exits =>
      exact Book.matchAll_of_none (tidy.trade?_view_of_exits positive exits)
  | pass executes _ ih =>
      obtain ⟨tidyMiddle, bids, asks, passed⟩ := tidy.matchPass executes
      have positiveMiddle := fun order stands =>
        (passed.heap_terms order).2.1 ▸
          positive order (passed.standing_subset stands)
      rw [Book.matchAll_of_some (passed.trade?_view tidy),
        ih tidyMiddle positiveMiddle, List.map_cons]

end Engine

/-- What the abstract machine shows of a step. -/
def Event.observe : Event → Observation OrderPtr OrderId Price
  | .addOrder order fields result =>
      .add fields.bookSide ⟨order, fields.id, fields.priceScaled,
        fields.quantity.toNat⟩ result
  | .cancelOrder id result => .cancel id result
  | .modifyOrder id newPrice newQuantity result =>
      .modify id newPrice newQuantity.toNat result
  | .matchOrders => .beginMatch
  | .executeTrade fill => .trade ⟨fill.trade.buyOrderId,
      fill.trade.sellOrderId, fill.trade.quantity.toNat⟩
  | .matchReturn tradeCount => .endMatch tradeCount

/-- The prices given to the book in a call are positive. -/
def Event.PositivePrice (event : Event) : Prop :=
  ∀ price ∈ event.price?, 0 < price

instance (event : Event) : Decidable event.PositivePrice :=
  decidable_of_iff (event.price?.all fun price => 0 < price)
    (by cases price : event.price? <;> simp [Event.PositivePrice, price])

/-- A fresh call with a positive price. -/
def PositiveCall (machine : Machine) (event : Event) : Prop :=
  FreshCall machine event ∧ event.PositivePrice

instance (machine : Machine) (event : Event) :
    Decidable (PositiveCall machine event) :=
  inferInstanceAs (Decidable (_ ∧ _))

/-- A fresh run in which all prices given to the book are positive. -/
abbrev PositiveRun (heap : Heap) (clock : Nat → Timestamp) :
    List Event → Machine → Prop :=
  Run (Guarded PositiveCall Step) (Machine.start heap clock)

/-- The state of the abstract machine that a machine represents. -/
def Machine.view (machine : Machine) :
    PriceTime.Machine OrderPtr OrderId Price where
  book := machine.engine.view
  trades := match machine.phase with
    | .idle => none
    | .matching tradeCount => some tradeCount

/-- The queries of the book are answered as from the abstract queues. -/
structure Answers (engine : Engine)
    (book : Book OrderPtr OrderId Price) : Prop where
  getOrder : ∀ id, engine.book.getOrder id =
    (book.find? id).map fun found => found.2.object
  getBestBid : engine.book.getBestBid = book.buys.head?.map Entry.object
  getBestAsk : engine.book.getBestAsk = book.sells.head?.map Entry.object

theorem Engine.Tidy.answers {engine : Engine} (tidy : engine.Tidy) :
    Answers engine engine.view where
  getOrder id := by
    rw [tidy.find?_view, Option.map_map, OrderBook.getOrder]
    exact Option.map_id'.symm
  getBestBid := by
    rw [tidy.consistent.getBestBid_eq, view, List.head?_map, Option.map_map]
    exact Option.map_id'.symm
  getBestAsk := by
    rw [tidy.consistent.getBestAsk_eq, view, List.head?_map, Option.map_map]
    exact Option.map_id'.symm

namespace Effect

variable {before after : Engine}

theorem add_view {order : OrderPtr} {fields : Order} {result : Bool}
    (effect : Effect before (.addOrder order fields result) after) :
    before.view.add fields.bookSide ⟨order, fields.id, fields.priceScaled,
      fields.quantity.toNat⟩ = (result, after.view) := by
  have untouched (absent : order ∉ before.book.standing) :
      ∀ other ∈ before.book.standing,
        (before.store order fields).entry other = before.entry other :=
    fun other stands => Engine.entry_congr
      (before.store_heap_of_ne (ne_of_mem_of_not_mem stands absent) fields)
  cases effect with
  | refused absent empty =>
      have same : (before.store order fields).view = before.view :=
        Engine.view_congr (fun _ => rfl) (untouched absent)
      rw [Book.add_of_no_quantity (congrArg UInt32.toNat empty), same]
  | added fresh quantity _ heap queues =>
      rw [Book.add_of_quantity (fun none => quantity (UInt32.toNat_inj.mp none))]
      refine Prod.ext rfl (Book.ext_queue fun side => ?_)
      change _ = after.view.queue side
      have unchanged : (before.book.queue side).map
          (before.store order fields).entry = before.view.queue side := by
        rw [Engine.queue_view]
        exact List.map_congr_left fun other member => untouched fresh.1 other
          (OrderBook.mem_standing_iff.mpr ⟨side, member⟩)
      have written : (before.store order fields).entry order = ⟨order,
          fields.id, fields.priceScaled, fields.quantity.toNat⟩ := by
        rw [Engine.entry, before.store_heap_self]
      rw [Book.queue_withQueue]
      split
      next same =>
        subst same
        rw [Engine.queue_view_insertBehind heap ((queues _).trans (if_pos rfl)),
          unchanged, written]
      next differ =>
        rw [after.queue_view, queues side, if_neg differ,
          Engine.entry_stamp heap, unchanged]

theorem cancel_view {id : OrderId} {result : Bool}
    (effect : Effect before (.cancelOrder id result) after)
    (tidy : before.Tidy) : before.view.cancel id = (result, after.view) := by
  cases effect with
  | cancelAbsent absent => exact tidy.cancel_view_of_absent absent
  | cancelled stands afterEq queues =>
      exact tidy.cancel_view stands queues fun other _ =>
        Engine.entry_congr (by rw [afterEq]; rfl)

theorem modify_view {id : OrderId} {newPrice : Price} {newQuantity : Quantity}
    {result : Bool}
    (effect : Effect before (.modifyOrder id newPrice newQuantity result) after)
    (tidy : before.Tidy) :
    before.view.modify id newPrice newQuantity.toNat =
      (result, after.view) := by
  have cancelled {order : OrderPtr} (stands : order ∈ before.book.standing) :
      before.view.cancel (before.heap order).id =
        (true, (before.withdrawn order newPrice newQuantity).view) :=
    tidy.cancel_view stands (tidy.withdrawn stands newPrice newQuantity).2.2
      fun other differ =>
        Engine.entry_congr (before.withdrawn_heap_of_ne differ _ _)
  cases effect with
  | modifyAbsent absent =>
      rw [Book.modify, tidy.find?_view, absent]
      rfl
  | emptied stands =>
      rw [Book.modify, tidy.find?_view,
        (tidy.consistent.indexed _ _).mpr ⟨stands, rfl⟩]
      simp only [Option.map_some]
      rw [cancelled stands, Book.add_of_no_quantity rfl]
  | @modified order _ _ _ stands quantity _ heap queues =>
      rw [Book.modify, tidy.find?_view,
        (tidy.consistent.indexed _ _).mpr ⟨stands, rfl⟩]
      simp only [Option.map_some]
      rw [cancelled stands,
        Book.add_of_quantity (fun none => quantity (UInt32.toNat_inj.mp none))]
      refine Prod.ext rfl (Book.ext_queue fun side => ?_)
      change _ = after.view.queue side
      have erased := (tidy.withdrawn stands newPrice newQuantity).2.2
      rw [Book.queue_withQueue]
      split
      next same =>
        subst same
        rw [Engine.queue_view_insertBehind heap
          ((queues _).trans (if_pos rfl)), Engine.queue_view, erased]
        congr 1
        rw [Engine.entry, Engine.entry, before.withdrawn_heap_self]
        rfl
      next differ =>
        rw [Engine.queue_view, Engine.queue_view, queues side, if_neg differ,
          Engine.entry_stamp heap, erased]

end Effect

/-- Over a tidy book with positive prices, one step is one abstract step with
the same observation. -/
theorem Step.simulates {source target : Machine} {event : Event}
    (tidy : source.engine.Tidy) (fresh : FreshCall source event)
    (positive : ∀ order ∈ source.engine.book.standing,
      0 < (source.engine.heap order).priceScaled)
    (step : Step source event target) :
    PriceTime.Step source.view event.observe target.view := by
  obtain ⟨-, effect⟩ := step.effect tidy fresh
  cases step with
  | addOrder => exact .add effect.add_view
  | cancelOrder => exact .cancel (effect.cancel_view tidy)
  | modifyOrder => exact .modify (effect.modify_view tidy)
  | matchOrders => exact .beginMatch
  | executeTrade pass =>
      obtain ⟨-, bids, asks, passed⟩ := tidy.matchPass pass
      exact .trade (passed.trade?_view tidy)
  | matchReturn exits =>
      exact .endMatch (tidy.trade?_view_of_exits positive exits)

section Runs

variable {heap : Heap} {clock : Nat → Timestamp} {history : List Event}
  {machine : Machine}

theorem PositiveRun.fresh (run : PositiveRun heap clock history machine) :
    FreshRun heap clock history machine :=
  run.mono fun step => ⟨step.1.1, step.2⟩

theorem PositiveRun.positive (run : PositiveRun heap clock history machine) :
    ∀ order ∈ machine.engine.book.standing,
      0 < (machine.engine.heap order).priceScaled := by
  apply run.invariant fun _ machine => ∀ order ∈ machine.engine.book.standing,
    0 < (machine.engine.heap order).priceScaled
  · intro order stands
    simp [Machine.start] at stands
  · intro earlier source event target sourceRun positive step order stands
    have tidy := (PositiveRun.fresh sourceRun).tidy
    have effect := (Step.effect tidy step.1.1 step.2).2
    rcases (effect.fate tidy stands).price with ⟨stood, same⟩ | entered
    · rw [same]
      exact positive order stood
    · exact step.1.2 _ entered

/-- Every run of calls with positive prices and free identifiers is, with the
same answers and trades, a run of the price-time-priority machine; the queries
agree with it in every state, and a match started in any of them returns with
the trades of the abstract match. -/
theorem positiveRun_refines (run : PositiveRun heap clock history machine) :
    Run PriceTime.Step ⟨Book.empty, none⟩ (history.map Event.observe)
        machine.view ∧
      Answers machine.engine machine.engine.view ∧
      ∃ fills after,
        machine.engine.matchOrders machine.engine.book.standing.length =
          some (fills, after) ∧
        machine.engine.view.matchAll = (fills.map fun fill =>
          ⟨fill.trade.buyOrderId, fill.trade.sellOrderId,
            fill.trade.quantity.toNat⟩, after.view) := by
  have tidy := run.fresh.tidy
  refine ⟨?_, tidy.answers, ?_⟩
  · obtain ⟨abstract, abstractRun, related⟩ := run.simulate
      (fun machine abstract => abstract = machine.view) rfl
      fun sourceRun related step => ⟨_, related ▸ Step.simulates
        (PositiveRun.fresh sourceRun).tidy step.1.1
        (PositiveRun.positive sourceRun) step.2, rfl⟩
    exact related ▸ abstractRun
  · obtain ⟨fills, after, drains, bound, -⟩ := tidy.exists_drains
    exact ⟨fills, after, Engine.matchOrders_eq_some_iff.mpr ⟨drains, bound⟩,
      drains.matchAll_view tidy run.positive⟩

theorem positiveRun_refines_modified :
    ∃ machine, PositiveRun zeroHeap tickingClock
        [.executeTrade ⟨1, 2, ⟨1, 2, 3, 100, 4⟩⟩, .matchOrders,
          .addOrder 2 (Order.new 2 false 3 90 0) true,
          .modifyOrder 1 100 4 true,
          .addOrder 1 (Order.new 1 true 5 80 0) true] machine ∧
      Answers machine.engine machine.engine.view := by
  obtain ⟨machine, run, -⟩ := exists_guardedRun_of_replay PositiveCall zeroHeap
    tickingClock
    [.executeTrade ⟨1, 2, ⟨1, 2, 3, 100, 4⟩⟩, .matchOrders,
      .addOrder 2 (Order.new 2 false 3 90 0) true, .modifyOrder 1 100 4 true,
      .addOrder 1 (Order.new 1 true 5 80 0) true] (fun _ => true) (by decide)
  exact ⟨machine, run, (positiveRun_refines run).2.1⟩

end Runs

end TradingMatcher
