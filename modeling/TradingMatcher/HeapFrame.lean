import TradingMatcher.EngineSteps
import Mathlib.Data.List.Find

/-!
# What the engine reads of the heap

The calls read and write the standing orders and the order they are given, so
two engines with one book, whose heaps agree on a set of objects that contains
those, go on with one book and agree on the set.
-/

namespace TradingMatcher

open PriceTime

/-- A removal looks at the orders of the level only. -/
theorem PriceLevel.removeOrder_congr {heap other : Heap} {level : PriceLevel}
    (agree : ∀ order ∈ level.orders, other order = heap order) (id : OrderId) :
    level.removeOrder other id = level.removeOrder heap id := by
  have found : level.orders.find? (fun order => (other order).id = id) =
      level.orders.find? fun order => (heap order).id = id :=
    List.find?_congr fun order member => by rw [agree order member]
  have erased : level.orders.eraseP (fun order => (other order).id = id) =
      level.orders.eraseP fun order => (heap order).id = id := by
    generalize level.orders = orders at agree
    induction orders with
    | nil => rfl
    | cons order orders ih =>
        have head := agree order List.mem_cons_self
        have rest := ih fun later member =>
          agree later (List.mem_cons_of_mem _ member)
        simp only [List.eraseP_cons, head, rest]
  rw [removeOrder, removeOrder, found, erased]
  cases first : level.orders.find? fun order => (heap order).id = id with
  | none => rfl
  | some order =>
      simp only [agree order (List.mem_of_find?_eq_some first)]

theorem Ladder.removeOrder_congr {heap other : Heap} {ladder : Ladder}
    {side : Side} (agree : ∀ order ∈ ladder.queue side, other order = heap order)
    (price : Price) (id : OrderId) :
    ladder.removeOrder other price id = ladder.removeOrder heap price id := by
  rw [removeOrder, removeOrder]
  cases found : ladder.find? price with
  | none => rfl
  | some level =>
      have inLadder := SortedMap.mem_entries_iff_find?_eq_some.mpr found
      rw [Option.map_some, Option.map_some, PriceLevel.removeOrder_congr]
      intro order member
      exact agree order (mem_queue_iff.mpr ⟨price, level, inLadder, member⟩)

theorem OrderBook.Consistent.cancelOrder_congr {heap other : Heap}
    {book : OrderBook} (consistent : book.Consistent heap)
    (agree : ∀ order ∈ book.standing, other order = heap order) (id : OrderId) :
    book.cancelOrder other id = book.cancelOrder heap id := by
  cases indexed : book.orderMap id with
  | none => rw [OrderBook.cancelOrder, OrderBook.cancelOrder, indexed]
  | some order =>
      have stands := ((consistent.indexed id order).mp indexed).1
      have inQueue (side : Side) (present : OrderPtr)
          (member : present ∈ (book.levels side).queue side) :
          other present = heap present :=
        agree present (mem_standing_iff.mpr ⟨side, member⟩)
      rw [cancelOrder_eq other indexed, cancelOrder_eq heap indexed,
        agree order stands, Ladder.removeOrder_congr (inQueue _)]

theorem OrderBook.enter_congr {heap other : Heap} {order : OrderPtr}
    (same : other order = heap order) (book : OrderBook) :
    book.enter other order = book.enter heap order := by
  simp only [enter, Ladder.addOrder, PriceLevel.addOrder, same]

namespace Engine

/-- One book and one clock, and agreement on a set of objects. -/
structure AgreesOn (objects : Set OrderPtr) (first second : Engine) : Prop where
  book : second.book = first.book
  clock : second.clock = first.clock
  heap : ∀ order ∈ objects, second.heap order = first.heap order

theorem executeTrade_heap (engine : Engine) (bid ask : OrderPtr)
    (price : Price) (quantity : Quantity) :
    (engine.executeTrade bid ask price quantity).2.heap =
      engine.reducedHeap bid ask quantity := by
  rw [executeTrade, removeFilled_heap, removeFilled_heap]
  rfl

namespace AgreesOn

variable {objects : Set OrderPtr} {first second : Engine} {order : OrderPtr}

theorem mono {fewer : Set OrderPtr} (agrees : first.AgreesOn objects second)
    (subset : fewer ⊆ objects) : first.AgreesOn fewer second where
  book := agrees.book
  clock := agrees.clock
  heap order member := agrees.heap order (subset member)

/-- Storing the same fields adds the object to the set. -/
theorem store (agrees : first.AgreesOn objects second) (order : OrderPtr)
    (fields : Order) :
    (first.store order fields).AgreesOn (insert order objects)
      (second.store order fields) where
  book := agrees.book
  clock := agrees.clock
  heap other member := by
    by_cases same : other = order
    · subst same
      rw [store_heap_self, store_heap_self]
    · rw [first.store_heap_of_ne same, second.store_heap_of_ne same]
      exact agrees.heap other (Set.mem_of_mem_insert_of_ne member same)

/-- Writing an object outside the set is not seen. -/
theorem store_right (agrees : first.AgreesOn objects second)
    (outside : order ∉ objects) (fields : Order) :
    first.AgreesOn objects (second.store order fields) where
  book := agrees.book
  clock := agrees.clock
  heap other member := by
    rw [second.store_heap_of_ne (ne_of_mem_of_not_mem member outside)]
    exact agrees.heap other member

theorem getTimestampNs (agrees : first.AgreesOn objects second) :
    first.getTimestampNs.1 = second.getTimestampNs.1 ∧
      first.getTimestampNs.2.AgreesOn objects second.getTimestampNs.2 := by
  obtain ⟨book, clock, heap⟩ := agrees
  refine ⟨(congrFun clock 0).symm, book, ?_, heap⟩
  funext index
  exact congrFun clock (index + 1)

theorem reduceQuantity (agrees : first.AgreesOn objects second)
    (member : order ∈ objects) (quantity : Quantity) :
    (first.reduceQuantity order quantity).AgreesOn objects
      (second.reduceQuantity order quantity) := by
  rw [Engine.reduceQuantity, Engine.reduceQuantity, agrees.heap order member]
  exact (agrees.store order _).mono (Set.subset_insert _ _)

theorem cancelOrder (agrees : first.AgreesOn objects second)
    (consistent : first.book.Consistent first.heap)
    (within : ∀ order ∈ first.book.standing, order ∈ objects) (id : OrderId) :
    (second.cancelOrder id).1 = (first.cancelOrder id).1 ∧
      (first.cancelOrder id).2.AgreesOn objects (second.cancelOrder id).2 := by
  have same : second.book.cancelOrder second.heap id =
      first.book.cancelOrder first.heap id := by
    rw [agrees.book]
    exact consistent.cancelOrder_congr
      (fun order stands => agrees.heap order (within order stands)) id
  refine ⟨?_, ?_, agrees.clock, agrees.heap⟩
  · change (second.book.cancelOrder second.heap id).1 = _
    rw [same]
    rfl
  · change (second.book.cancelOrder second.heap id).2 = _
    rw [same]
    rfl

theorem removeFilled (agrees : first.AgreesOn objects second)
    (consistent : first.book.Consistent first.heap)
    (within : ∀ order ∈ first.book.standing, order ∈ objects)
    (member : order ∈ objects) :
    (first.removeFilled order).AgreesOn objects
      (second.removeFilled order) := by
  rw [Engine.removeFilled, Engine.removeFilled, agrees.heap order member]
  split
  · exact (agrees.cancelOrder consistent within _).2
  · exact agrees

/-- Adding an order of the set. -/
theorem addOrder (agrees : first.AgreesOn objects second)
    (member : order ∈ objects) :
    (second.addOrder (some order)).1 = (first.addOrder (some order)).1 ∧
      (first.addOrder (some order)).2.AgreesOn objects
        (second.addOrder (some order)).2 := by
  by_cases empty : (first.heap order).quantity = 0
  · have otherEmpty : (second.heap order).quantity = 0 := by
      rwa [agrees.heap order member]
    rw [addOrder_of_no_quantity empty, addOrder_of_no_quantity otherEmpty]
    exact ⟨rfl, agrees⟩
  · have otherQuantity : (second.heap order).quantity ≠ 0 := by
      rwa [agrees.heap order member]
    have stamped : (first.stamp order).AgreesOn objects
        (second.stamp order) := by
      rw [stamp, stamp, agrees.heap order member]
      split
      · obtain ⟨now, later⟩ := agrees.getTimestampNs
        dsimp only
        rw [← now, later.heap order member]
        exact (later.store order _).mono (Set.subset_insert _ _)
      · exact agrees
    rw [addOrder_of_quantity empty, addOrder_of_quantity otherQuantity]
    refine ⟨rfl, ?_, stamped.clock, stamped.heap⟩
    dsimp only
    rw [agrees.book]
    exact OrderBook.enter_congr (stamped.heap order member) _

/-- A trade between two standing orders. -/
theorem executeTrade (agrees : first.AgreesOn objects second)
    (tidy : first.Tidy)
    (within : ∀ order ∈ first.book.standing, order ∈ objects)
    {bid ask : OrderPtr} (bidStands : bid ∈ first.book.queue .buy)
    (askStands : ask ∈ first.book.queue .sell) (price : Price)
    (quantity : Quantity) :
    (second.executeTrade bid ask price quantity).1 =
        (first.executeTrade bid ask price quantity).1 ∧
      (first.executeTrade bid ask price quantity).2.AgreesOn objects
        (second.executeTrade bid ask price quantity).2 := by
  have bidStanding := OrderBook.mem_standing_iff.mpr ⟨.buy, bidStands⟩
  have askStanding := OrderBook.mem_standing_iff.mpr ⟨.sell, askStands⟩
  have bidMember := within bid bidStanding
  have askMember := within ask askStanding
  obtain ⟨now, timed⟩ := agrees.getTimestampNs
  have reduced := (timed.reduceQuantity bidMember quantity).reduceQuantity
    askMember quantity
  have consistent : first.book.Consistent
      (first.reducedHeap bid ask quantity) :=
    tidy.consistent.congr fun order _ =>
      have terms := first.reducedHeap_terms bid ask quantity order
      ⟨terms.1, terms.2.1, terms.2.2.2⟩
  let leaner := (first.getTimestampNs.2.reduceQuantity bid
    quantity).reduceQuantity ask quantity
  have consistentLeaner : leaner.book.Consistent leaner.heap := consistent
  obtain ⟨heapBid, -, consistentBid, queuesBid⟩ :=
    removeFilled_spec consistentLeaner bidStanding
  have withinBid : ∀ order ∈ (leaner.removeFilled bid).book.standing,
      order ∈ objects := by
    intro order stands
    obtain ⟨side, inQueue⟩ := OrderBook.mem_standing_iff.mp stands
    apply within order
    apply OrderBook.mem_standing_iff.mpr
    rw [queuesBid] at inQueue
    split at inQueue
    · exact ⟨side, List.mem_of_mem_erase inQueue⟩
    · exact ⟨side, inQueue⟩
  rw [← heapBid] at consistentBid
  have withoutBid := reduced.removeFilled consistentLeaner within bidMember
  refine ⟨?_, withoutBid.removeFilled consistentBid withinBid askMember⟩
  rw [Engine.executeTrade, Engine.executeTrade]
  simp only [← now, timed.heap bid bidMember, timed.heap ask askMember]

/-- The passes of the two engines make the same trade. -/
theorem matchPass (agrees : first.AgreesOn objects second)
    (tidy : first.Tidy)
    (within : ∀ order ∈ first.book.standing, order ∈ objects)
    {fill : Fill} {after : Engine}
    (pass : second.matchPass = some (fill, after)) :
    ∃ firstAfter, first.matchPass = some (fill, firstAfter) ∧
      firstAfter.AgreesOn objects after ∧
        ∀ order ∉ first.book.standing,
          after.heap order = second.heap order := by
  have matches_ : first.book.hasMatch = true := by
    by_contra noMatch
    rw [← agrees.book, Bool.not_eq_true] at noMatch
    simp [Engine.matchPass, noMatch] at pass
  obtain ⟨bid, bids, ask, asks, buyQueue, sellQueue, -, crossed, passEq⟩ :=
    tidy.matchPass_of_hasMatch matches_
  have bidStands : bid ∈ first.book.queue .buy := by simp [buyQueue]
  have askStands : ask ∈ first.book.queue .sell := by simp [sellQueue]
  have bidStanding := OrderBook.mem_standing_iff.mpr ⟨.buy, bidStands⟩
  have askStanding := OrderBook.mem_standing_iff.mpr ⟨.sell, askStands⟩
  have bidFields := agrees.heap bid (within bid bidStanding)
  have askFields := agrees.heap ask (within ask askStanding)
  have bestBid : first.book.getBestBid = some bid := by
    rw [tidy.consistent.getBestBid_eq, buyQueue, List.head?_cons]
  have bestAsk : first.book.getBestAsk = some ask := by
    rw [tidy.consistent.getBestAsk_eq, sellQueue, List.head?_cons]
  simp only [Engine.matchPass, agrees.book, matches_, if_true, bestBid, bestAsk,
    bidFields, askFields, if_neg crossed.not_gt] at pass
  obtain ⟨rfl, rfl⟩ := Prod.mk.inj (Option.some.inj pass)
  obtain ⟨sameTrade, agreesAfter⟩ := agrees.executeTrade tidy within bidStands
    askStands (matchPrice (first.heap bid) (first.heap ask))
    (matchQuantity (first.heap bid) (first.heap ask))
  refine ⟨_, ?_, agreesAfter, ?_⟩
  · rw [passEq, sameTrade]
  · intro order notStanding
    rw [executeTrade_heap, reducedHeap_of_ne]
    · rintro rfl
      exact notStanding bidStanding
    · rintro rfl
      exact notStanding askStanding

theorem matchPass_eq_none_iff (agrees : first.AgreesOn objects second)
    (tidy : first.Tidy)
    (within : ∀ order ∈ first.book.standing, order ∈ objects) :
    second.matchPass = none ↔ first.matchPass = none := by
  constructor
  · intro exits
    by_contra goesOn
    obtain ⟨⟨fill, after⟩, pass⟩ := Option.ne_none_iff_exists'.mp goesOn
    have matches_ : first.book.hasMatch = true := by
      by_contra noMatch
      exact goesOn (tidy.matchPass_eq_none_iff.mpr (by simpa using noMatch))
    obtain ⟨bid, bids, ask, asks, buyQueue, sellQueue, -, crossed, -⟩ :=
      tidy.matchPass_of_hasMatch matches_
    have bidFields := agrees.heap bid (within bid
      (OrderBook.mem_standing_iff.mpr ⟨.buy, by simp [buyQueue]⟩))
    have askFields := agrees.heap ask (within ask
      (OrderBook.mem_standing_iff.mpr ⟨.sell, by simp [sellQueue]⟩))
    simp [Engine.matchPass, agrees.book, matches_,
      tidy.consistent.getBestBid_eq, tidy.consistent.getBestAsk_eq, buyQueue,
      sellQueue, bidFields, askFields, crossed.not_gt] at exits
  · intro exits
    by_contra goesOn
    obtain ⟨⟨fill, after⟩, pass⟩ := Option.ne_none_iff_exists'.mp goesOn
    obtain ⟨_, firstPass, -⟩ := agrees.matchPass tidy within pass
    rw [exits] at firstPass
    cases firstPass

end AgreesOn

end Engine

end TradingMatcher
