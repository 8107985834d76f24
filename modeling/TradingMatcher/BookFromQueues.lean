import TradingMatcher.LevelTotals

/-!
# A book is determined by its queues

Where the levels count and add up their orders rightly, nothing in a consistent
book is free: the queues of the two sides and the fields of the orders in them
give the levels, the index and the cached prices.
-/

namespace TradingMatcher

open PriceTime

/-- The level that holds the given orders, with its totals. -/
def PriceLevel.holding (heap : Heap) (orders : List OrderPtr) : PriceLevel where
  orders := orders
  totalQuantity := UInt32.ofNat (heldQuantity heap orders)
  orderCount := orders.length

theorem PriceLevel.eq_holding {heap : Heap} {level : PriceLevel}
    (total : level.TotalRight heap) (count : level.CountRight) :
    level = PriceLevel.holding heap level.orders := by
  obtain ⟨orders, totalQuantity, orderCount⟩ := level
  obtain rfl : totalQuantity = UInt32.ofNat (heldQuantity heap orders) := total
  obtain rfl : orderCount = orders.length := count
  rfl

theorem PriceLevel.holding_congr {heap other : Heap} {orders : List OrderPtr}
    (agree : ∀ order ∈ orders, other order = heap order) :
    holding other orders = holding heap orders := by
  rw [holding, holding,
    heldQuantity_congr fun order member => by rw [agree order member]]

/-- The orders of a queue at one price. -/
def ordersAt (heap : Heap) (queue : List OrderPtr) (price : Price) :
    List OrderPtr :=
  queue.filter fun order => (heap order).priceScaled = price

theorem ordersAt_congr {heap other : Heap} {queue : List OrderPtr}
    (agree : ∀ order ∈ queue, other order = heap order) (price : Price) :
    ordersAt other queue price = ordersAt heap queue price :=
  List.filter_congr fun order member => by rw [agree order member]

namespace Ladder.WellPlaced

variable {heap : Heap} {side : Side} {ladder : Ladder}

/-- A level of a ladder holds the orders of the queue at its price. -/
theorem orders_eq (wellPlaced : ladder.WellPlaced heap side) (price : Price) :
    ((ladder.find? price).getD PriceLevel.new).orders =
      ordersAt heap (ladder.queue side) price := by
  obtain ⟨ahead, behind, queue, -, -, aheadBetter, behindWorse⟩ :=
    ladder.exists_queue_split side price
  have none_elsewhere {orders : List OrderPtr}
      (elsewhere : ∀ order ∈ orders, ∃ other level,
        (other, level) ∈ ladder.entries ∧ order ∈ level.orders ∧
          other ≠ price) : ordersAt heap orders price = [] := by
    refine List.filter_eq_nil_iff.mpr fun order member same => ?_
    obtain ⟨other, level, present, inLevel, differ⟩ := elsewhere order member
    apply differ
    rw [← (wellPlaced.placed other level present order inLevel).1]
    exact of_decide_eq_true same
  have none_ahead := none_elsewhere fun order member =>
    have ⟨other, level, present, inLevel, better⟩ := aheadBetter order member
    ⟨other, level, present, inLevel, better.ne⟩
  have none_behind := none_elsewhere fun order member =>
    have ⟨other, level, present, inLevel, better⟩ := behindWorse order member
    ⟨other, level, present, inLevel, better.ne.symm⟩
  have all_level : ordersAt heap
      ((ladder.find? price).getD PriceLevel.new).orders price =
        ((ladder.find? price).getD PriceLevel.new).orders := by
    refine List.filter_eq_self.mpr fun order member => decide_eq_true ?_
    cases found : ladder.find? price with
    | none =>
        rw [found] at member
        cases member
    | some level =>
        rw [found] at member
        exact (wellPlaced.placed price level
          (SortedMap.mem_entries_iff_find?_eq_some.mpr found) order member).1
  rw [ordersAt] at none_ahead none_behind all_level
  rw [ordersAt, queue, List.filter_append, List.filter_append, none_ahead,
    none_behind, all_level, List.nil_append, List.append_nil]

/-- The lookup of a price in a ladder with right totals. -/
theorem find?_eq (wellPlaced : ladder.WellPlaced heap side)
    (total : ∀ price level, (price, level) ∈ ladder.entries →
      level.TotalRight heap)
    (count : ∀ price level, (price, level) ∈ ladder.entries →
      level.CountRight) (price : Price) :
    ladder.find? price =
      if ordersAt heap (ladder.queue side) price = [] then none
      else some (PriceLevel.holding heap
        (ordersAt heap (ladder.queue side) price)) := by
  rw [← wellPlaced.orders_eq price]
  cases found : ladder.find? price with
  | none => rfl
  | some level =>
      have present := SortedMap.mem_entries_iff_find?_eq_some.mpr found
      rw [Option.getD_some, if_neg (wellPlaced.nonempty price level present),
        ← PriceLevel.eq_holding (total price level present)
          (count price level present)]

end Ladder.WellPlaced

/-- The components of a book. -/
theorem OrderBook.eq_of_parts {first second : OrderBook}
    (levels : ∀ side, first.levels side = second.levels side)
    (index : first.orderMap = second.orderMap)
    (cached : ∀ side, first.bestPrice side = second.bestPrice side) :
    first = second := by
  obtain ⟨buyLevels, sellLevels, orderMap, bestBidPrice, bestAskPrice⟩ := first
  obtain rfl : buyLevels = second.buyLevels := levels .buy
  obtain rfl : sellLevels = second.sellLevels := levels .sell
  obtain rfl : orderMap = second.orderMap := index
  obtain rfl : bestBidPrice = second.bestBidPrice := cached .buy
  obtain rfl : bestAskPrice = second.bestAskPrice := cached .sell
  rfl

namespace Engine

/-- The queues hold the same orders with the same fields. -/
structure Agrees (first second : Engine) : Prop where
  queues : ∀ side, second.book.queue side = first.book.queue side
  fields : ∀ order ∈ first.book.standing, second.heap order = first.heap order

variable {first second : Engine}

theorem Agrees.symm (agrees : first.Agrees second) : second.Agrees first where
  queues side := (agrees.queues side).symm
  fields order stands := by
    rw [OrderBook.standing, agrees.queues, agrees.queues] at stands
    exact (agrees.fields order stands).symm

/-- Two consistent books with right levels that agree on their queues and the
fields of the orders in them are equal. -/
theorem Agrees.book_eq (agrees : first.Agrees second)
    (consistent : first.book.Consistent first.heap)
    (otherConsistent : second.book.Consistent second.heap)
    (total : first.EveryLevel fun heap level => level.TotalRight heap)
    (otherTotal : second.EveryLevel fun heap level => level.TotalRight heap)
    (count : first.EveryLevel fun _ level => level.CountRight)
    (otherCount : second.EveryLevel fun _ level => level.CountRight) :
    first.book = second.book := by
  have levels (side : Side) : first.book.levels side = second.book.levels side := by
    have agree : ∀ order ∈ (first.book.levels side).queue side,
        second.heap order = first.heap order := fun order member =>
      agrees.fields order (OrderBook.mem_standing_iff.mpr ⟨side, member⟩)
    have sameQueue : (second.book.levels side).queue side =
        (first.book.levels side).queue side := agrees.queues side
    refine SortedMap.ext_find? fun price => ?_
    have sameLevel : PriceLevel.holding second.heap
        (ordersAt first.heap ((first.book.levels side).queue side) price) =
          PriceLevel.holding first.heap
            (ordersAt first.heap ((first.book.levels side).queue side) price) :=
      PriceLevel.holding_congr fun order member =>
        agree order (List.mem_of_mem_filter member)
    rw [(consistent.wellPlaced side).find?_eq (total side) (count side),
      (otherConsistent.wellPlaced side).find?_eq (otherTotal side)
        (otherCount side), sameQueue, ordersAt_congr agree, sameLevel]
  have index : first.book.orderMap = second.book.orderMap := by
    funext id
    refine Option.ext fun order => ?_
    have sameStanding : order ∈ second.book.standing ↔
        order ∈ first.book.standing := by
      rw [OrderBook.standing, OrderBook.standing, agrees.queues, agrees.queues]
    rw [consistent.indexed, otherConsistent.indexed, sameStanding]
    exact and_congr_right fun stands => by rw [agrees.fields order stands]
  have cached (side : Side) :
      first.book.bestPrice side = second.book.bestPrice side := by
    rw [consistent.cached, otherConsistent.cached, levels]
  exact OrderBook.eq_of_parts levels index cached

end Engine

end TradingMatcher
