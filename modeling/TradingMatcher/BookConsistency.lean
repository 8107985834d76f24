import TradingMatcher.LadderQueue

/-!
# Consistency of the order book

The two ladders, the index and the cached prices are redundant.  The book is
consistent when every standing order stands once, in the level of its price on
its own side, when the index holds exactly the standing orders, and when the
cached prices are those of the best levels.  Entering an order under a free
identifier and cancelling an order keep the book consistent, and each of them
changes one queue in the way price-time priority says.
-/

namespace TradingMatcher

open PriceTime

namespace OrderBook

def levels (book : OrderBook) : Side → Ladder
  | .buy => book.buyLevels
  | .sell => book.sellLevels

def bestPrice (book : OrderBook) : Side → Price
  | .buy => book.bestBidPrice
  | .sell => book.bestAskPrice

/-- Replace the ladder of a side and recompute its cached best price. -/
def withLevels (book : OrderBook) : Side → Ladder → OrderBook
  | .buy, ladder => { book with buyLevels := ladder }.updateBestBid
  | .sell, ladder => { book with sellLevels := ladder }.updateBestAsk

@[simp]
theorem levels_withLevels_self (book : OrderBook) (side : Side)
    (ladder : Ladder) : (book.withLevels side ladder).levels side = ladder := by
  cases side <;> rfl

theorem levels_withLevels_of_ne (book : OrderBook) {side other : Side}
    (differ : other ≠ side) (ladder : Ladder) :
    (book.withLevels side ladder).levels other = book.levels other := by
  cases side <;> cases other <;> first | rfl | exact (differ rfl).elim

@[simp]
theorem bestPrice_withLevels_self (book : OrderBook) (side : Side)
    (ladder : Ladder) :
    (book.withLevels side ladder).bestPrice side = ladder.bestKey side := by
  cases side <;> rfl

theorem bestPrice_withLevels_of_ne (book : OrderBook) {side other : Side}
    (differ : other ≠ side) (ladder : Ladder) :
    (book.withLevels side ladder).bestPrice other = book.bestPrice other := by
  cases side <;> cases other <;> first | rfl | exact (differ rfl).elim

@[simp]
theorem levels_withIndex (book : OrderBook) (id : OrderId)
    (entry : Option OrderPtr) (side : Side) :
    (book.withIndex id entry).levels side = book.levels side := by
  cases side <;> rfl

@[simp]
theorem bestPrice_withIndex (book : OrderBook) (id : OrderId)
    (entry : Option OrderPtr) (side : Side) :
    (book.withIndex id entry).bestPrice side = book.bestPrice side := by
  cases side <;> rfl

@[simp]
theorem orderMap_withIndex (book : OrderBook) (id : OrderId)
    (entry : Option OrderPtr) :
    (book.withIndex id entry).orderMap =
      Function.update book.orderMap id entry :=
  rfl

@[simp]
theorem orderMap_withLevels (book : OrderBook) (side : Side) (ladder : Ladder) :
    (book.withLevels side ladder).orderMap = book.orderMap := by
  cases side <;> rfl

/-- Entering an order, as one change of the index and one of a ladder. -/
theorem enter_eq (heap : Heap) (book : OrderBook) (order : OrderPtr) :
    book.enter heap order =
      (book.withIndex (heap order).id (some order)).withLevels
        (heap order).bookSide
        ((book.levels (heap order).bookSide).addOrder heap
          (heap order).priceScaled order) := by
  rw [enter, Order.bookSide]
  cases (heap order).isBuy <;> rfl

/-- Cancelling an indexed order, as one removal from a ladder. -/
theorem cancelOrder_eq (heap : Heap) {book : OrderBook} {id : OrderId}
    {order : OrderPtr} (indexed : book.orderMap id = some order) :
    book.cancelOrder heap id =
      match (book.levels (heap order).bookSide).removeOrder heap
          (heap order).priceScaled id with
      | none => (false, book)
      | some (true, ladder) =>
          (true, (book.withLevels (heap order).bookSide ladder).withIndex id none)
      | some (false, ladder) =>
          (false, book.withLevels (heap order).bookSide ladder) := by
  rw [cancelOrder, indexed, Order.bookSide]
  cases buys : (heap order).isBuy with
  | true =>
      simp only [if_true, buys, levels]
      rcases book.buyLevels.removeOrder heap (heap order).priceScaled id with
        _ | ⟨_ | _, ladder⟩ <;> rfl
  | false =>
      simp only [Bool.false_eq_true, if_false, buys, levels]
      rcases book.sellLevels.removeOrder heap (heap order).priceScaled id with
        _ | ⟨_ | _, ladder⟩ <;> rfl

/-- The queue of a side in priority order. -/
def queue (book : OrderBook) (side : Side) : List OrderPtr :=
  (book.levels side).queue side

/-- The orders standing in the two ladders. -/
def standing (book : OrderBook) : List OrderPtr :=
  book.queue .buy ++ book.queue .sell

theorem mem_standing_iff {book : OrderBook} {order : OrderPtr} :
    order ∈ book.standing ↔ ∃ side, order ∈ book.queue side := by
  rw [standing, List.mem_append]
  constructor
  · rintro (buys | sells)
    exacts [⟨.buy, buys⟩, ⟨.sell, sells⟩]
  · rintro ⟨side, member⟩
    cases side
    exacts [.inl member, .inr member]

@[simp]
theorem queue_withLevels_self (book : OrderBook) (side : Side)
    (ladder : Ladder) :
    (book.withLevels side ladder).queue side = ladder.queue side := by
  rw [queue, levels_withLevels_self]

theorem queue_withLevels_of_ne (book : OrderBook) {side other : Side}
    (differ : other ≠ side) (ladder : Ladder) :
    (book.withLevels side ladder).queue other = book.queue other := by
  rw [queue, queue, levels_withLevels_of_ne book differ]

@[simp]
theorem queue_withIndex (book : OrderBook) (id : OrderId)
    (entry : Option OrderPtr) (side : Side) :
    (book.withIndex id entry).queue side = book.queue side := by
  rw [queue, queue, levels_withIndex]

/-- The four redundant structures of the book agree. -/
structure Consistent (heap : Heap) (book : OrderBook) : Prop where
  wellPlaced : ∀ side, (book.levels side).WellPlaced heap side
  nodup : ∀ side, (book.queue side).Nodup
  indexed : ∀ id order, book.orderMap id = some order ↔
    order ∈ book.standing ∧ (heap order).id = id
  cached : ∀ side, book.bestPrice side = (book.levels side).bestKey side

theorem new_consistent (heap : Heap) : Consistent heap OrderBook.new where
  wellPlaced side := by cases side <;> exact Ladder.WellPlaced.empty
  nodup side := by cases side <;> exact List.nodup_nil
  indexed _ _ := by
    simp [new, standing, queue, levels, Ladder.queue, SortedMap.empty]
  cached side := by cases side <;> rfl

namespace Consistent

variable {heap : Heap} {book : OrderBook}

theorem bookSide (consistent : Consistent heap book) {side : Side}
    {order : OrderPtr} (member : order ∈ book.queue side) :
    (heap order).bookSide = side :=
  (consistent.wellPlaced side).bookSide member

theorem mem_queue_bookSide (consistent : Consistent heap book)
    {order : OrderPtr} (standing : order ∈ book.standing) :
    order ∈ book.queue (heap order).bookSide := by
  obtain ⟨side, member⟩ := mem_standing_iff.mp standing
  rwa [consistent.bookSide member]

/-- Two standing orders with one identifier are one order. -/
theorem eq_of_id_eq (consistent : Consistent heap book)
    {first second : OrderPtr} (firstStands : first ∈ book.standing)
    (secondStands : second ∈ book.standing)
    (sameId : (heap first).id = (heap second).id) : first = second := by
  have firstIndexed :=
    (consistent.indexed (heap second).id first).mpr ⟨firstStands, sameId⟩
  have secondIndexed :=
    (consistent.indexed (heap second).id second).mpr ⟨secondStands, rfl⟩
  exact Option.some.inj (firstIndexed.symm.trans secondIndexed)

theorem standing_nodup (consistent : Consistent heap book) :
    book.standing.Nodup := by
  refine List.nodup_append.mpr ⟨consistent.nodup _, consistent.nodup _, ?_⟩
  rintro buy buyMember sell sellMember rfl
  have buySide := consistent.bookSide buyMember
  rw [consistent.bookSide sellMember] at buySide
  cases buySide

/-- Consistency looks at the identifiers, prices and sides of the standing
orders only. -/
theorem congr {other : Heap} (consistent : Consistent heap book)
    (agree : ∀ order ∈ book.standing,
      (other order).id = (heap order).id ∧
        (other order).priceScaled = (heap order).priceScaled ∧
        (other order).side = (heap order).side) :
    Consistent other book where
  wellPlaced side := (consistent.wellPlaced side).congr fun order member =>
    (agree order (mem_standing_iff.mpr ⟨side, member⟩)).2
  nodup := consistent.nodup
  indexed id order := by
    rw [consistent.indexed]
    refine and_congr_right fun stands => ?_
    rw [(agree order stands).1]
  cached := consistent.cached

theorem inPriority (consistent : Consistent heap book) (side : Side) :
    InPriority side (fun order => (heap order).priceScaled)
      (book.queue side) :=
  (consistent.wellPlaced side).inPriority

/-- The first order of the best buy level heads the buy queue. -/
theorem getBestBid_eq (consistent : Consistent heap book) :
    book.getBestBid = (book.queue .buy).head? :=
  (consistent.wellPlaced .buy).best?_eq.1

theorem getBestAsk_eq (consistent : Consistent heap book) :
    book.getBestAsk = (book.queue .sell).head? :=
  (consistent.wellPlaced .sell).best?_eq.1

/-- The cached best price is the price of the head of the queue. -/
theorem bestPrice_eq (consistent : Consistent heap book) (side : Side) :
    book.bestPrice side = ((book.queue side).head?.map
      fun order => (heap order).priceScaled).getD 0 := by
  have best := (consistent.wellPlaced side).best?_eq.2
  change _ = (book.queue side).head?.map _ at best
  rw [consistent.cached, Ladder.bestKey, ← best]
  cases (book.levels side).best? side <;> rfl

/-- Entering an order inserts it by priority into the queue of its side. -/
theorem queue_enter (consistent : Consistent heap book) (order : OrderPtr)
    (side : Side) :
    (book.enter heap order).queue side =
      if side = (heap order).bookSide then
        insertBehind side (fun other => (heap other).priceScaled) order
          (book.queue side)
      else book.queue side := by
  rw [enter_eq]
  split
  next same =>
    subst same
    rw [queue_withLevels_self,
      (consistent.wellPlaced _).queue_addOrder]
    rfl
  next differ => rw [queue_withLevels_of_ne _ differ, queue_withIndex]

theorem mem_standing_enter (consistent : Consistent heap book)
    {order other : OrderPtr} :
    other ∈ (book.enter heap order).standing ↔
      other = order ∨ other ∈ book.standing := by
  have inserted (side : Side) :
      other ∈ (book.enter heap order).queue side ↔
        (side = (heap order).bookSide ∧ other = order) ∨
          other ∈ book.queue side := by
    rw [consistent.queue_enter]
    split
    next same => simp [(insertBehind_perm _ _ _ _).mem_iff, same]
    next differ => simp [differ]
  simp only [mem_standing_iff, inserted]
  constructor
  · rintro ⟨side, ⟨-, same⟩ | member⟩
    exacts [.inl same, .inr ⟨side, member⟩]
  · rintro (same | ⟨side, member⟩)
    exacts [⟨_, .inl ⟨rfl, same⟩⟩, ⟨side, .inr member⟩]

/-- Entering an order that does not stand, under an identifier that no standing
order has, keeps the book consistent. -/
theorem enter (consistent : Consistent heap book) {order : OrderPtr}
    (absent : order ∉ book.standing)
    (freeId : ∀ other ∈ book.standing, (heap other).id ≠ (heap order).id) :
    Consistent heap (book.enter heap order) where
  wellPlaced side := by
    rw [enter_eq]
    by_cases same : side = (heap order).bookSide
    · subst same
      rw [levels_withLevels_self]
      exact (consistent.wellPlaced _).addOrder rfl
    · rw [levels_withLevels_of_ne _ same, levels_withIndex]
      exact consistent.wellPlaced side
  nodup side := by
    rw [consistent.queue_enter]
    split
    · rw [(insertBehind_perm _ _ _ _).nodup_iff, List.nodup_cons]
      exact ⟨fun member => absent (mem_standing_iff.mpr ⟨side, member⟩),
        consistent.nodup side⟩
    · exact consistent.nodup side
  indexed id other := by
    rw [consistent.mem_standing_enter, enter_eq, orderMap_withLevels,
      orderMap_withIndex, Function.update_apply]
    split
    next same =>
      subst same
      constructor
      · rintro ⟨⟩
        exact ⟨.inl rfl, rfl⟩
      · rintro ⟨rfl | stands, sameId⟩
        · rfl
        · exact (freeId other stands sameId).elim
    next differ =>
      rw [consistent.indexed]
      refine and_congr_left fun sameId => (or_iff_right ?_).symm
      rintro rfl
      exact differ sameId.symm
  cached side := by
    rw [enter_eq]
    by_cases same : side = (heap order).bookSide
    · subst same
      rw [bestPrice_withLevels_self, levels_withLevels_self]
    · rw [bestPrice_withLevels_of_ne _ same, levels_withLevels_of_ne _ same,
        bestPrice_withIndex, levels_withIndex]
      exact consistent.cached side

/-- Erasing an order from both queues leaves the other standing orders. -/
theorem mem_standing_erase (consistent : Consistent heap book)
    {after : OrderBook} {order other : OrderPtr}
    (queues : ∀ side, after.queue side = (book.queue side).erase order) :
    other ∈ after.standing ↔ other ≠ order ∧ other ∈ book.standing := by
  simp only [mem_standing_iff, queues, (consistent.nodup _).mem_erase_iff,
    exists_and_left]

/-- Cancelling a standing order succeeds, erases it from the queues and from
the index, and keeps the book consistent. -/
theorem cancelOrder (consistent : Consistent heap book) {order : OrderPtr}
    (stands : order ∈ book.standing) :
    (book.cancelOrder heap (heap order).id).1 = true ∧
      Consistent heap (book.cancelOrder heap (heap order).id).2 ∧
      (∀ side, (book.cancelOrder heap (heap order).id).2.queue side =
        (book.queue side).erase order) ∧
      (book.cancelOrder heap (heap order).id).2.orderMap =
        Function.update book.orderMap (heap order).id none := by
  have inQueue := consistent.mem_queue_bookSide stands
  obtain ⟨ladder, removalEq, wellPlaced, queueEq⟩ :=
    (consistent.wellPlaced (heap order).bookSide).removeOrder inQueue
      fun other member sameId => consistent.eq_of_id_eq
        (mem_standing_iff.mpr ⟨_, member⟩) stands sameId
  rw [cancelOrder_eq heap ((consistent.indexed _ _).mpr ⟨stands, rfl⟩),
    removalEq]
  have queues (side : Side) :
      ((book.withLevels (heap order).bookSide ladder).withIndex
        (heap order).id none).queue side = (book.queue side).erase order := by
    rw [queue_withIndex]
    by_cases same : side = (heap order).bookSide
    · subst same
      rw [queue_withLevels_self, queueEq]
      rfl
    · rw [queue_withLevels_of_ne _ same, List.erase_of_not_mem]
      exact fun member => same (consistent.bookSide member).symm
  have standingAfter (other : OrderPtr) :
      other ∈ ((book.withLevels (heap order).bookSide ladder).withIndex
        (heap order).id none).standing ↔
          other ≠ order ∧ other ∈ book.standing :=
    consistent.mem_standing_erase queues
  refine ⟨rfl, ⟨?_, ?_, ?_, ?_⟩, queues, by
    rw [orderMap_withIndex, orderMap_withLevels]⟩
  · intro side
    rw [levels_withIndex]
    by_cases same : side = (heap order).bookSide
    · subst same
      rwa [levels_withLevels_self]
    · rw [levels_withLevels_of_ne _ same]
      exact consistent.wellPlaced side
  · intro side
    rw [queues]
    exact (consistent.nodup side).erase order
  · intro id other
    rw [standingAfter, orderMap_withIndex, orderMap_withLevels,
      Function.update_apply]
    split
    next same =>
      subst same
      constructor
      · rintro ⟨⟩
      · rintro ⟨⟨differ, otherStands⟩, sameId⟩
        exact (differ (consistent.eq_of_id_eq otherStands stands sameId)).elim
    next differ =>
      rw [consistent.indexed, and_assoc]
      refine (and_iff_right_of_imp ?_).symm
      rintro ⟨-, sameId⟩ rfl
      exact differ sameId.symm
  · intro side
    rw [bestPrice_withIndex, levels_withIndex]
    by_cases same : side = (heap order).bookSide
    · subst same
      rw [bestPrice_withLevels_self, levels_withLevels_self]
    · rw [bestPrice_withLevels_of_ne _ same, levels_withLevels_of_ne _ same]
      exact consistent.cached side

end Consistent

end OrderBook

end TradingMatcher
