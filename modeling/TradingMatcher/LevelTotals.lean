import TradingMatcher.Ledger

/-!
# The running totals of the price levels

A level keeps the number of its orders and, modulo 2^32, the sum of their
quantities.  Adding, cancelling and modifying keep both.  A trade reduces the
quantities of two orders without telling their levels, so it leaves the total
of each of the two levels too large unless the level is gone afterwards.
-/

namespace TradingMatcher

open PriceTime

/-- The exact sum of the quantities of some orders. -/
def heldQuantity (heap : Heap) (orders : List OrderPtr) : Nat :=
  (orders.map fun order => (heap order).quantity.toNat).sum

theorem heldQuantity_congr {heap other : Heap} {orders : List OrderPtr}
    (agree : ∀ order ∈ orders, (other order).quantity = (heap order).quantity) :
    heldQuantity other orders = heldQuantity heap orders := by
  unfold heldQuantity
  congr 1
  exact List.map_congr_left fun order member => by rw [agree order member]

theorem heldQuantity_append (heap : Heap) (orders : List OrderPtr)
    (order : OrderPtr) :
    heldQuantity heap (orders ++ [order]) =
      heldQuantity heap orders + (heap order).quantity.toNat := by
  simp [heldQuantity]

theorem heldQuantity_eraseP {heap : Heap} {orders : List OrderPtr}
    {test : OrderPtr → Bool} {order : OrderPtr}
    (found : orders.find? test = some order) :
    heldQuantity heap orders =
      heldQuantity heap (orders.eraseP test) + (heap order).quantity.toNat := by
  induction orders with
  | nil => cases found
  | cons head rest ih =>
      cases passes : test head with
      | true =>
          rw [List.find?_cons_of_pos passes] at found
          obtain rfl := Option.some.inj found
          rw [List.eraseP_cons_of_pos passes]
          simp only [heldQuantity, List.map_cons, List.sum_cons]
          omega
      | false =>
          have fails : ¬ test head = true := by simp [passes]
          rw [List.find?_cons_of_neg fails] at found
          have restEq := ih found
          rw [List.eraseP_cons_of_neg fails]
          simp only [heldQuantity, List.map_cons, List.sum_cons] at restEq ⊢
          omega

/-- Taking a quantity from one of some different orders takes it from their
sum. -/
theorem heldQuantity_reduce {heap reduced : Heap} {orders : List OrderPtr}
    {order : OrderPtr} {quantity : Nat} (nodup : orders.Nodup)
    (member : order ∈ orders)
    (taken : (heap order).quantity.toNat =
      (reduced order).quantity.toNat + quantity)
    (others : ∀ other ∈ orders, other ≠ order →
      (reduced other).quantity = (heap other).quantity) :
    heldQuantity heap orders = heldQuantity reduced orders + quantity := by
  induction orders with
  | nil => cases member
  | cons head rest ih =>
      obtain ⟨headAbsent, restNodup⟩ := List.nodup_cons.mp nodup
      simp only [heldQuantity, List.map_cons, List.sum_cons] at ih ⊢
      by_cases same : head = order
      · subst same
        have restEq : heldQuantity reduced rest = heldQuantity heap rest :=
          heldQuantity_congr fun other inRest => others other
            (List.mem_cons_of_mem _ inRest) (ne_of_mem_of_not_mem inRest headAbsent)
        simp only [heldQuantity] at restEq
        omega
      · have inRest := (List.mem_cons.mp member).resolve_left (Ne.symm same)
        have headEq := others head List.mem_cons_self same
        have restEq := ih restNodup inRest fun other otherInRest =>
          others other (List.mem_cons_of_mem _ otherInRest)
        rw [headEq]
        omega

namespace PriceLevel

/-- The level has the right number of orders. -/
def CountRight (level : PriceLevel) : Prop :=
  level.orderCount = level.orders.length

/-- The level's total exceeds what its orders hold by a drift, modulo 2^32. -/
def DriftsBy (heap : Heap) (level : PriceLevel) (drift : Quantity) : Prop :=
  level.getTotalQuantity =
    UInt32.ofNat (heldQuantity heap level.orders) + drift

/-- The total is what the orders hold, modulo 2^32. -/
def TotalRight (heap : Heap) (level : PriceLevel) : Prop :=
  level.getTotalQuantity = UInt32.ofNat (heldQuantity heap level.orders)

theorem driftsBy_zero_iff {heap : Heap} {level : PriceLevel} :
    level.DriftsBy heap 0 ↔ level.TotalRight heap := by
  rw [DriftsBy, TotalRight, UInt32.add_zero]

theorem DriftsBy.totalRight_iff {heap : Heap} {level : PriceLevel}
    {drift : Quantity} (drifts : level.DriftsBy heap drift) :
    level.TotalRight heap ↔ drift = 0 := by
  rw [TotalRight, drifts, UInt32.add_eq_left]

theorem DriftsBy.addOrder {heap : Heap} {level : PriceLevel}
    {drift : Quantity} (drifts : level.DriftsBy heap drift)
    (order : OrderPtr) : (level.addOrder heap order).DriftsBy heap drift := by
  unfold DriftsBy getTotalQuantity at drifts ⊢
  rw [PriceLevel.addOrder, heldQuantity_append, UInt32.ofNat_add,
    UInt32.ofNat_toNat, drifts]
  ac_rfl

theorem DriftsBy.removeOrder {heap : Heap} {level : PriceLevel}
    {drift : Quantity} (drifts : level.DriftsBy heap drift) (id : OrderId) :
    (level.removeOrder heap id).2.DriftsBy heap drift := by
  unfold DriftsBy getTotalQuantity at drifts ⊢
  rw [PriceLevel.removeOrder]
  split
  next => exact drifts
  next order found =>
    rw [heldQuantity_eraseP found, UInt32.ofNat_add, UInt32.ofNat_toNat]
      at drifts
    rw [UInt32.sub_eq_iff_eq_add, drifts]
    ac_rfl

theorem CountRight.addOrder {level : PriceLevel} (right : level.CountRight)
    (heap : Heap) (order : OrderPtr) :
    (level.addOrder heap order).CountRight := by
  unfold CountRight at right ⊢
  simp [PriceLevel.addOrder, right]

theorem CountRight.removeOrder {level : PriceLevel} (right : level.CountRight)
    (heap : Heap) (id : OrderId) :
    (level.removeOrder heap id).2.CountRight := by
  unfold CountRight at right ⊢
  rw [PriceLevel.removeOrder]
  split
  next => exact right
  next order found =>
    rw [right, List.length_eraseP_of_mem (List.mem_of_find?_eq_some found)
      (List.find?_some found)]

end PriceLevel

namespace OrderBook

/-- A property of every level of both ladders, at its side and price. -/
def EveryLevel (book : OrderBook)
    (property : Side → Price → PriceLevel → Prop) : Prop :=
  ∀ side price level, (price, level) ∈ (book.levels side).entries →
    property side price level

theorem EveryLevel.withLevels {book : OrderBook}
    {property : Side → Price → PriceLevel → Prop}
    (every : book.EveryLevel property) {side : Side} {ladder : Ladder}
    (replaced : ∀ price level, (price, level) ∈ ladder.entries →
      property side price level) :
    (book.withLevels side ladder).EveryLevel property := by
  intro other price level member
  by_cases same : other = side
  · subst same
    rw [levels_withLevels_self] at member
    exact replaced price level member
  · rw [levels_withLevels_of_ne _ same] at member
    exact every other price level member

theorem EveryLevel.enter {heap : Heap} {book : OrderBook} {order : OrderPtr}
    {property : Side → Price → PriceLevel → Prop}
    (every : book.EveryLevel property)
    (created : property (heap order).bookSide (heap order).priceScaled
      PriceLevel.new)
    (added : ∀ side price level, property side price level →
      property side price (level.addOrder heap order)) :
    (book.enter heap order).EveryLevel property := by
  rw [enter_eq]
  apply EveryLevel.withLevels
  · intro side price level member
    rw [levels_withIndex] at member
    exact every side price level member
  · intro price level member
    rcases SortedMap.mem_insert_entries.mp member with ⟨rfl, rfl⟩ | ⟨-, member⟩
    · apply added
      cases found : (book.levels (heap order).bookSide).find?
          (heap order).priceScaled with
      | none => exact created
      | some present =>
          exact every _ _ present
            (SortedMap.mem_entries_iff_find?_eq_some.mpr found)
    · exact every _ price level member

theorem EveryLevel.cancelOrder {heap : Heap} {book : OrderBook} {id : OrderId}
    {property : Side → Price → PriceLevel → Prop}
    (every : book.EveryLevel property)
    (removed : ∀ side price level, property side price level →
      property side price (level.removeOrder heap id).2) :
    (book.cancelOrder heap id).2.EveryLevel property := by
  cases indexed : book.orderMap id with
  | none =>
      rw [OrderBook.cancelOrder, indexed]
      exact every
  | some order =>
      have remaining {result : Bool} {ladder : Ladder}
          (removal : (book.levels (heap order).bookSide).removeOrder heap
            (heap order).priceScaled id = some (result, ladder)) :
          ∀ price level, (price, level) ∈ ladder.entries →
            property (heap order).bookSide price level := by
        obtain ⟨present, found, taken⟩ := Option.map_eq_some_iff.mp removal
        obtain ⟨-, rfl⟩ := Prod.mk.inj taken
        have inLadder := SortedMap.mem_entries_iff_find?_eq_some.mpr found
        intro price level member
        split at member
        · exact every _ price level (SortedMap.mem_erase_entries.mp member).2
        · rcases SortedMap.mem_insert_entries.mp member with
            ⟨rfl, rfl⟩ | ⟨-, member⟩
          · exact removed _ _ present (every _ _ present inLadder)
          · exact every _ price level member
      rw [cancelOrder_eq heap indexed]
      split
      next => exact every
      next ladder removal =>
        intro side price level member
        rw [levels_withIndex] at member
        exact every.withLevels (remaining removal) side price level member
      next ladder removal => exact every.withLevels (remaining removal)

end OrderBook

/-- A property of levels that the operations of a level keep, and that looks at
the objects only for the quantities of the level's orders. -/
structure LevelInvariant (property : Heap → PriceLevel → Prop) : Prop where
  created : ∀ heap, property heap PriceLevel.new
  added : ∀ {heap level}, property heap level →
    ∀ order, property heap (level.addOrder heap order)
  removed : ∀ {heap level}, property heap level →
    ∀ id, property heap (level.removeOrder heap id).2
  congr : ∀ {heap other level}, (∀ order ∈ level.orders,
      (other order).quantity = (heap order).quantity) →
    property heap level → property other level

theorem countRight_invariant :
    LevelInvariant fun _ level => level.CountRight where
  created _ := rfl
  added right order := right.addOrder _ order
  removed right id := right.removeOrder _ id
  congr _ right := right

theorem totalRight_invariant :
    LevelInvariant fun heap level => level.TotalRight heap where
  created _ := rfl
  added right order := by
    rw [← PriceLevel.driftsBy_zero_iff] at right ⊢
    exact right.addOrder order
  removed right id := by
    rw [← PriceLevel.driftsBy_zero_iff] at right ⊢
    exact right.removeOrder id
  congr agree right := by
    rw [PriceLevel.TotalRight, heldQuantity_congr agree]
    exact right

namespace Engine

/-- A property of the objects and a level, for every level of the book. -/
def EveryLevel (engine : Engine) (property : Heap → PriceLevel → Prop) :
    Prop :=
  engine.book.EveryLevel fun _ _ level => property engine.heap level

theorem mem_standing_of_level {engine : Engine} {side : Side} {price : Price}
    {level : PriceLevel}
    (present : (price, level) ∈ (engine.book.levels side).entries)
    {order : OrderPtr} (member : order ∈ level.orders) :
    order ∈ engine.book.standing :=
  OrderBook.mem_standing_iff.mpr
    ⟨side, Ladder.mem_queue_iff.mpr ⟨price, level, present, member⟩⟩

section Invariant

variable {property : Heap → PriceLevel → Prop} {engine : Engine}
  (invariant : LevelInvariant property)

include invariant

theorem EveryLevel.congr {other : Engine} (every : engine.EveryLevel property)
    (sameBook : other.book = engine.book)
    (agree : ∀ order ∈ engine.book.standing,
      (other.heap order).quantity = (engine.heap order).quantity) :
    other.EveryLevel property := by
  intro side price level present
  rw [sameBook] at present
  exact invariant.congr (fun order member =>
    agree order (mem_standing_of_level present member))
    (every side price level present)

theorem EveryLevel.store (every : engine.EveryLevel property)
    {order : OrderPtr} (absent : order ∉ engine.book.standing)
    (fields : Order) : (engine.store order fields).EveryLevel property := by
  refine every.congr invariant rfl fun other stands => ?_
  rw [engine.store_heap_of_ne (ne_of_mem_of_not_mem stands absent)]

theorem EveryLevel.addOrder (every : engine.EveryLevel property)
    (order : OrderPtr) :
    (engine.addOrder (some order)).2.EveryLevel property := by
  by_cases quantity : (engine.heap order).quantity = 0
  · rw [addOrder_of_no_quantity quantity]
    exact every
  · have stamped : (engine.stamp order).EveryLevel property :=
      every.congr invariant (engine.stamp_book order) fun other _ =>
        (engine.stamp_heap order other).2.2.1
    rw [addOrder_of_quantity quantity]
    rw [EveryLevel, stamp_book] at stamped
    exact OrderBook.EveryLevel.enter stamped (invariant.created _)
      fun _ _ _ held => invariant.added held order

theorem EveryLevel.cancelOrder (every : engine.EveryLevel property)
    (id : OrderId) : (engine.cancelOrder id).2.EveryLevel property :=
  OrderBook.EveryLevel.cancelOrder every fun _ _ _ held =>
    invariant.removed held id

theorem EveryLevel.withdrawn (every : engine.EveryLevel property)
    (tidy : engine.Tidy) {order : OrderPtr}
    (stands : order ∈ engine.book.standing) (newPrice : Price)
    (newQuantity : Quantity) :
    (engine.withdrawn order newPrice newQuantity).EveryLevel property := by
  have absent := (tidy.cancelOrder_fresh stands).1
  have cancelled : EveryLevel { engine with
      clock := fun index => engine.clock (index + 1)
      book := (engine.cancelOrder (engine.heap order).id).2.book } property :=
    every.cancelOrder invariant (engine.heap order).id
  exact cancelled.store invariant absent _

end Invariant

/-- Outside trades, every step keeps such a property. -/
theorem EveryLevel.effect {property : Heap → PriceLevel → Prop}
    {before after : Engine} {event : Event}
    (every : before.EveryLevel property)
    (invariant : LevelInvariant property)
    (effect : Effect before event after) (tidy : before.Tidy)
    (noTrade : ∀ fill, event ≠ .executeTrade fill) :
    after.EveryLevel property := by
  cases effect with
  | refused absent => exact every.store invariant absent _
  | added fresh _ afterEq =>
      rw [afterEq]
      exact (every.store invariant fresh.1 _).addOrder invariant _
  | cancelAbsent => exact every
  | cancelled _ afterEq =>
      rw [afterEq]
      exact every.cancelOrder invariant _
  | modifyAbsent => exact every
  | emptied stands => exact every.withdrawn invariant tidy stands _ _
  | modified stands _ afterEq =>
      rw [afterEq]
      exact (every.withdrawn invariant tidy stands _ _).addOrder invariant _
  | entered => exact every
  | traded => exact (noTrade _ rfl).elim
  | returned => exact every

theorem after_of_matchPass {before after : Engine} {fill : Fill}
    (pass : before.matchPass = some (fill, after)) :
    ∃ price quantity,
      after = (before.executeTrade fill.bid fill.ask price quantity).2 := by
  simp only [Engine.matchPass] at pass
  split at pass
  · split at pass
    · split at pass
      · cases pass
      · obtain ⟨rfl, rfl⟩ := Prod.mk.inj (Option.some.inj pass)
        exact ⟨_, _, rfl⟩
    · cases pass
  · cases pass

/-- The removals of a pass act on the levels by `removeOrder` only. -/
theorem everyLevel_matchPass {before after : Engine} {fill : Fill}
    (pass : before.matchPass = some (fill, after))
    {property : Side → Price → PriceLevel → Prop}
    (every : before.book.EveryLevel property)
    (removed : ∀ side price level id, property side price level →
      property side price (level.removeOrder after.heap id).2) :
    after.book.EveryLevel property := by
  have removal {engine : Engine} (order : OrderPtr)
      (heap : engine.heap = after.heap)
      (held : engine.book.EveryLevel property) :
      (engine.removeFilled order).book.EveryLevel property := by
    rw [removeFilled]
    split
    · refine OrderBook.EveryLevel.cancelOrder held fun side price level => ?_
      rw [heap]
      exact removed side price level _
    · exact held
  obtain ⟨price, quantity, rfl⟩ := after_of_matchPass pass
  have heap : (before.executeTrade fill.bid fill.ask price quantity).2.heap =
      before.reducedHeap fill.bid fill.ask quantity := by
    rw [executeTrade, removeFilled_heap, removeFilled_heap]
    rfl
  apply removal
  · rw [heap, removeFilled_heap]
    rfl
  · exact removal fill.bid heap.symm every

end Engine

/-- The order a trade takes from a side. -/
def Fill.head (fill : Fill) : Side → OrderPtr
  | .buy => fill.bid
  | .sell => fill.ask

namespace Engine.Passed

variable {before after : Engine} {fill : Fill} {bids asks : List OrderPtr}

theorem head_mem (passed : before.Passed fill bids asks after) (side : Side) :
    fill.head side ∈ before.book.queue side := by
  cases side
  exacts [passed.bid_mem, passed.ask_mem]

theorem heap_head (passed : before.Passed fill bids asks after)
    (tidy : before.Tidy) (side : Side) :
    (before.heap (fill.head side)).quantity.toNat =
      (after.heap (fill.head side)).quantity.toNat +
        fill.trade.quantity.toNat := by
  have enough := passed.quantity_le
  rw [UInt32.le_iff_toNat_le, UInt32.le_iff_toNat_le] at enough
  cases side with
  | buy =>
      have left := UInt32.toNat_sub_of_le _ _ passed.quantity_le.1
      rw [Fill.head, passed.heap_bid tidy, left]
      omega
  | sell =>
      have left := UInt32.toNat_sub_of_le _ _ passed.quantity_le.2
      rw [Fill.head, passed.heap_ask tidy, left]
      omega

theorem heap_of_ne_head (passed : before.Passed fill bids asks after)
    (tidy : before.Tidy) {side : Side} {order : OrderPtr}
    (member : order ∈ before.book.queue side) (differ : order ≠ fill.head side) :
    after.heap order = before.heap order := by
  cases side with
  | buy => exact passed.heap_of_ne differ (tidy.bid_ne_ask member passed.ask_mem)
  | sell =>
      exact passed.heap_of_ne (tidy.bid_ne_ask passed.bid_mem member).symm differ

/-- A pass makes the totals of the levels it trades at too large by the traded
quantity, and keeps the others. -/
theorem driftsBy (passed : before.Passed fill bids asks after)
    (tidy : before.Tidy) (pass : before.matchPass = some (fill, after))
    (right : before.EveryLevel fun heap level => level.TotalRight heap) :
    after.book.EveryLevel fun side price level => level.DriftsBy after.heap
      (if price = (before.heap (fill.head side)).priceScaled
        then fill.trade.quantity else 0) := by
  refine everyLevel_matchPass pass ?_ fun _ _ _ id drifts =>
    drifts.removeOrder id
  intro side price level present
  have total : level.getTotalQuantity =
      UInt32.ofNat (heldQuantity before.heap level.orders) :=
    right side price level present
  have inQueue (order : OrderPtr) (member : order ∈ level.orders) :
      order ∈ before.book.queue side :=
    Ladder.mem_queue_iff.mpr ⟨price, level, present, member⟩
  rw [PriceLevel.DriftsBy, total]
  split
  next atHead =>
    obtain ⟨found, foundEq, headMember⟩ :=
      (tidy.consistent.wellPlaced side).exists_level (passed.head_mem side)
    rw [← atHead, SortedMap.mem_entries_iff_find?_eq_some.mp present] at foundEq
    obtain rfl := Option.some.inj foundEq
    have nodup : level.orders.Nodup := by
      obtain ⟨ahead, behind, queueEq, -⟩ :=
        (before.book.levels side).exists_queue_split side price
      rw [SortedMap.mem_entries_iff_find?_eq_some.mp present] at queueEq
      have whole := tidy.consistent.nodup side
      rw [OrderBook.queue, queueEq] at whole
      exact (List.nodup_append.mp (List.nodup_append.mp whole).2.1).1
    rw [heldQuantity_reduce nodup headMember (passed.heap_head tidy side)
      fun other member differ => by
        rw [passed.heap_of_ne_head tidy (inQueue other member) differ],
      UInt32.ofNat_add, UInt32.ofNat_toNat]
  next elsewhere =>
    rw [UInt32.add_zero, heldQuantity_congr fun order member => ?_]
    have differ : order ≠ fill.head side := by
      rintro rfl
      exact elsewhere ((tidy.consistent.wellPlaced side).placed price level
        present _ member).1.symm
    rw [passed.heap_of_ne_head tidy (inQueue order member) differ]

end Engine.Passed

/-- A trade takes the last order off both of its levels: the two orders have
the same quantity and stand alone at their prices. -/
structure ClearsLevels (before : Engine) (fill : Fill) : Prop where
  sameQuantity : (before.heap fill.bid).quantity =
    (before.heap fill.ask).quantity
  alone : ∀ side, ∀ order ∈ before.book.queue side,
    (before.heap order).priceScaled =
      (before.heap (fill.head side)).priceScaled → order = fill.head side

namespace Engine.Passed

variable {before after : Engine} {fill : Fill} {bids asks : List OrderPtr}

theorem queue_eq (passed : before.Passed fill bids asks after) (side : Side) :
    ∃ behind, before.book.queue side = fill.head side :: behind ∧
      after.book.queue side =
        if (before.heap (fill.head side)).quantity = fill.trade.quantity
        then behind else fill.head side :: behind := by
  cases side
  exacts [⟨bids, passed.buyQueue, passed.buyQueueAfter⟩,
    ⟨asks, passed.sellQueue, passed.sellQueueAfter⟩]

/-- A side is clear at the traded price exactly when the trade fills its head
and no other order of the side has that price. -/
theorem side_clear_iff (passed : before.Passed fill bids asks after)
    (tidy : before.Tidy) (side : Side) :
    (∀ order ∈ after.book.queue side, (after.heap order).priceScaled ≠
        (before.heap (fill.head side)).priceScaled) ↔
      (before.heap (fill.head side)).quantity = fill.trade.quantity ∧
        ∀ order ∈ before.book.queue side, (before.heap order).priceScaled =
          (before.heap (fill.head side)).priceScaled →
            order = fill.head side := by
  obtain ⟨behind, queue, queueAfter⟩ := passed.queue_eq side
  have nodup := tidy.consistent.nodup side
  rw [queue, List.nodup_cons] at nodup
  have terms (order : OrderPtr) := (passed.heap_terms order).2.1
  simp only [terms]
  constructor
  · intro clear
    by_cases filled : (before.heap (fill.head side)).quantity =
        fill.trade.quantity
    · refine ⟨filled, fun order member samePrice => ?_⟩
      rw [queue] at member
      rw [queueAfter, if_pos filled] at clear
      exact (List.mem_cons.mp member).resolve_right
        fun inBehind => clear order inBehind samePrice
    · rw [queueAfter, if_neg filled] at clear
      exact (clear _ List.mem_cons_self rfl).elim
  · rintro ⟨filled, alone⟩ order member samePrice
    rw [queueAfter, if_pos filled] at member
    have inQueue : order ∈ before.book.queue side := by
      rw [queue]
      exact List.mem_cons_of_mem _ member
    rw [alone order inQueue samePrice] at member
    exact nodup.1 member

theorem sides_clear_iff (passed : before.Passed fill bids asks after)
    (tidy : before.Tidy) :
    (∀ side, ∀ order ∈ after.book.queue side, (after.heap order).priceScaled ≠
        (before.heap (fill.head side)).priceScaled) ↔
      ClearsLevels before fill := by
  simp only [passed.side_clear_iff tidy]
  have least := passed.quantity_eq_or
  constructor
  · intro clear
    exact ⟨(clear .buy).1.trans (clear .sell).1.symm,
      fun side => (clear side).2⟩
  · rintro ⟨sameQuantity, alone⟩ side
    refine ⟨?_, alone side⟩
    cases side with
    | buy => exact least.elim id sameQuantity.trans
    | sell => exact least.elim sameQuantity.symm.trans id

/-- After a trade from right totals the totals are right exactly when the trade
cleared its two levels. -/
theorem totalRight_iff (passed : before.Passed fill bids asks after)
    (tidy : before.Tidy) (tidyAfter : after.Tidy)
    (pass : before.matchPass = some (fill, after))
    (right : before.EveryLevel fun heap level => level.TotalRight heap) :
    (after.EveryLevel fun heap level => level.TotalRight heap) ↔
      ClearsLevels before fill := by
  have drifts := passed.driftsBy tidy pass right
  have traded : fill.trade.quantity ≠ 0 := by
    have positive := (passed.tradesStanding tidy).positive
    rintro nothing
    rw [nothing, UInt32.toNat_zero] at positive
    omega
  rw [← passed.sides_clear_iff tidy]
  constructor
  · intro rightAfter side order member samePrice
    obtain ⟨level, found, -⟩ :=
      (tidyAfter.consistent.wellPlaced side).exists_level member
    have present := SortedMap.mem_entries_iff_find?_eq_some.mpr found
    have drift := (drifts side _ level present).totalRight_iff.mp
      (rightAfter side _ level present)
    rw [if_pos samePrice] at drift
    exact traded drift
  · intro clear side price level present
    refine (drifts side price level present).totalRight_iff.mpr (if_neg ?_)
    rintro rfl
    obtain ⟨order, _, orders⟩ := List.exists_cons_of_ne_nil
      ((tidyAfter.consistent.wellPlaced side).nonempty _ level present)
    have member : order ∈ level.orders := by simp [orders]
    exact clear side order
      (Ladder.mem_queue_iff.mpr ⟨_, level, present, member⟩)
      ((tidyAfter.consistent.wellPlaced side).placed _ level present order
        member).1

end Engine.Passed

section Runs

variable {heap : Heap} {clock : Nat → Timestamp} {history : List Event}
  {machine : Machine}

/-- In every state of a run, also between two trades, the totals are right. -/
def TotalsRight (heap : Heap) (clock : Nat → Timestamp)
    (history : List Event) : Prop :=
  ∀ earlier middle, earlier <:+ history → BookRun heap clock earlier middle →
    middle.engine.EveryLevel fun heap level => level.TotalRight heap

/-- Every trade of a run clears its two levels. -/
def TradesClear (heap : Heap) (clock : Nat → Timestamp)
    (history : List Event) : Prop :=
  ∀ fill earlier before, .executeTrade fill :: earlier <:+ history →
    BookRun heap clock earlier before → ClearsLevels before.engine fill

theorem FreshRun.totalRight (run : FreshRun heap clock history machine)
    (clear : TradesClear heap clock history) :
    machine.engine.EveryLevel fun heap level => level.TotalRight heap := by
  induction run with
  | start =>
      intro side price level present
      cases side <;> cases present
  | @next earlier source target event run edge ih =>
      have right := ih fun fill older before isSuffix =>
        clear fill older before (isSuffix.trans (List.suffix_cons _ _))
      have tidy := FreshRun.tidy run
      obtain ⟨tidyAfter, effect⟩ := Step.effect tidy edge.1 edge.2
      by_cases trade : ∃ fill, event = .executeTrade fill
      · obtain ⟨fill, rfl⟩ := trade
        cases effect with
        | traded pass passed =>
            exact (passed.totalRight_iff tidy tidyAfter pass right).mpr
              (clear fill earlier source (List.suffix_refl _) run.unguard)
      · exact right.effect totalRight_invariant effect tidy
          fun fill isTrade => trade ⟨fill, isTrade⟩

theorem FreshRun.countRight (run : FreshRun heap clock history machine) :
    machine.engine.EveryLevel fun _ level => level.CountRight := by
  apply run.invariant_of_effect fun _ engine =>
    engine.EveryLevel fun _ level => level.CountRight
  · intro side price level present
    cases side <;> cases present
  · intro _ before event after tidy _ counted effect
    by_cases trade : ∃ fill, event = .executeTrade fill
    · obtain ⟨fill, rfl⟩ := trade
      cases effect with
      | traded pass =>
          have counts : before.book.EveryLevel
              fun _ _ level => level.CountRight := counted
          exact Engine.everyLevel_matchPass pass counts
            fun _ _ _ id right => right.removeOrder _ id
    · exact counted.effect countRight_invariant effect tidy
        fun fill isTrade => trade ⟨fill, isTrade⟩

/-- Along every fresh run the counts of the levels are right, and the totals
are right throughout exactly when every trade clears its two levels. -/
theorem freshRun_totalsRight_iff
    (run : FreshRun heap clock history machine) :
    (machine.engine.EveryLevel fun _ level => level.CountRight) ∧
      (TotalsRight heap clock history ↔ TradesClear heap clock history) := by
  refine ⟨run.countRight, ?_, ?_⟩
  · intro right fill earlier before isSuffix runBefore
    obtain ⟨after, freshAfter⟩ := run.of_suffix isSuffix
    cases freshAfter with
    | next freshBefore edge =>
        obtain rfl := BookRun.unique runBefore freshBefore.unguard
        have tidy := FreshRun.tidy freshBefore
        obtain ⟨tidyAfter, effect⟩ := Step.effect tidy edge.1 edge.2
        cases effect with
        | traded pass passed =>
            have rightBefore := right earlier before
              ((List.suffix_cons _ _).trans isSuffix) runBefore
            have rightAfter := right _ after isSuffix (runBefore.next edge.2)
            exact (passed.totalRight_iff tidy tidyAfter pass rightBefore).mp
              rightAfter
  · intro clear earlier middle isSuffix runMiddle
    obtain ⟨state, freshState⟩ := run.of_suffix isSuffix
    obtain rfl := BookRun.unique runMiddle freshState.unguard
    exact FreshRun.totalRight freshState fun fill older before olderSuffix =>
      clear fill older before (olderSuffix.trans isSuffix)

theorem freshRun_totalsRight_iff_traded :
    TotalsRight zeroHeap tickingClock
        [.executeTrade ⟨1, 2, ⟨1, 2, 5, 100, 3⟩⟩, .matchOrders,
          .addOrder 2 (Order.new 2 false 5 90 0) true,
          .addOrder 1 (Order.new 1 true 5 100 0) true] ↔
      TradesClear zeroHeap tickingClock
        [.executeTrade ⟨1, 2, ⟨1, 2, 5, 100, 3⟩⟩, .matchOrders,
          .addOrder 2 (Order.new 2 false 5 90 0) true,
          .addOrder 1 (Order.new 1 true 5 100 0) true] := by
  obtain ⟨machine, run, -⟩ := exists_guardedRun_of_replay FreshCall zeroHeap
    tickingClock [.executeTrade ⟨1, 2, ⟨1, 2, 5, 100, 3⟩⟩, .matchOrders,
      .addOrder 2 (Order.new 2 false 5 90 0) true,
      .addOrder 1 (Order.new 1 true 5 100 0) true] (fun _ => true) (by decide)
  exact (freshRun_totalsRight_iff run).2

/-- A partial fill leaves a total of 5 over an order of 2. -/
theorem totals_wrong_after_partial_fill :
    ∃ machine, FreshRun zeroHeap tickingClock
        [.matchReturn 1, .executeTrade ⟨1, 2, ⟨1, 2, 3, 100, 3⟩⟩, .matchOrders,
          .addOrder 2 (Order.new 2 false 3 90 0) true,
          .addOrder 1 (Order.new 1 true 5 100 0) true] machine ∧
      machine.phase = .idle ∧
      ∃ level, machine.engine.book.buyLevels.find? 100 = some level ∧
        level.getTotalQuantity = 5 ∧
        heldQuantity machine.engine.heap level.orders = 2 ∧
        ¬ level.TotalRight machine.engine.heap := by
  obtain ⟨machine, run, passes⟩ := exists_guardedRun_of_replay FreshCall
    zeroHeap tickingClock
    [.matchReturn 1, .executeTrade ⟨1, 2, ⟨1, 2, 3, 100, 3⟩⟩, .matchOrders,
      .addOrder 2 (Order.new 2 false 3 90 0) true,
      .addOrder 1 (Order.new 1 true 5 100 0) true]
    (fun machine => machine.phase = .idle ∧
      (machine.engine.book.buyLevels.find? 100).any fun level =>
        level.getTotalQuantity = 5 ∧
          heldQuantity machine.engine.heap level.orders = 2) (by decide)
  obtain ⟨idle, present⟩ := of_decide_eq_true passes
  obtain ⟨level, found, totals⟩ := (Option.any_eq_true _ _).mp present
  obtain ⟨total, held⟩ := of_decide_eq_true totals
  refine ⟨machine, run, idle, level, found, total, held, ?_⟩
  rw [PriceLevel.TotalRight, total, held]
  decide

end Runs

end TradingMatcher
