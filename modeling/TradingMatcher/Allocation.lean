import TradingMatcher.MatchLoop

/-!
# Who gets the trades

A call of `matchOrders` serves each side from the head of its queue: the orders
that trade are a prefix of the queue, all but the last of them are used up and
leave, and the orders behind are not touched.
-/

namespace TradingMatcher

open PriceTime

/-- The order of a side in a trade. -/
def Fill.order (fill : Fill) : Side → OrderPtr
  | .buy => fill.bid
  | .sell => fill.ask

/-- The orders of a side that trade, each once. -/
def traders (side : Side) (fills : List Fill) : List OrderPtr :=
  (fills.map fun fill => fill.order side).dedup

/-- The quantity that an order trades on a side. -/
def tradedBy (side : Side) (order : OrderPtr) (fills : List Fill) : Nat :=
  ((fills.filter fun fill => fill.order side = order).map
    fun fill => fill.trade.quantity.toNat).sum

theorem mem_traders {side : Side} {fills : List Fill} {order : OrderPtr} :
    order ∈ traders side fills ↔ ∃ fill ∈ fills, fill.order side = order := by
  simp [traders]

theorem traders_cons (side : Side) (fill : Fill) (fills : List Fill) :
    traders side (fill :: fills) =
      if fill.order side ∈ traders side fills then traders side fills
      else fill.order side :: traders side fills := by
  by_cases again : fill.order side ∈ traders side fills
  · rw [if_pos again]
    exact List.dedup_cons_of_mem (List.mem_dedup.mp again)
  · rw [if_neg again]
    exact List.dedup_cons_of_notMem fun member =>
      again (List.mem_dedup.mpr member)

theorem tradedBy_cons (side : Side) (order : OrderPtr) (fill : Fill)
    (fills : List Fill) :
    tradedBy side order (fill :: fills) =
      (if fill.order side = order then fill.trade.quantity.toNat else 0) +
        tradedBy side order fills := by
  rw [tradedBy, List.filter_cons]
  by_cases same : fill.order side = order <;> simp [same, tradedBy]

theorem tradedBy_eq_zero {side : Side} {order : OrderPtr} {fills : List Fill}
    (silent : order ∉ traders side fills) : tradedBy side order fills = 0 := by
  have none : (fills.filter fun fill => fill.order side = order) = [] := by
    apply List.filter_eq_nil_iff.mpr
    intro fill member same
    exact silent (mem_traders.mpr ⟨fill, member, of_decide_eq_true same⟩)
  rw [tradedBy, none]
  rfl

namespace Engine

variable {before middle after : Engine} {fill : Fill} {fills : List Fill}
  {bids asks : List OrderPtr} {side : Side}

/-- What a pass does to the head of a side: it is used up and leaves, or stays
with the rest of its quantity. -/
theorem Passed.head_cases (passed : before.Passed fill bids asks after)
    (tidy : before.Tidy) (side : Side) :
    ∃ rest, before.book.queue side = fill.order side :: rest ∧
      (((before.heap (fill.order side)).quantity = fill.trade.quantity ∧
          after.book.queue side = rest) ∨
        ((before.heap (fill.order side)).quantity ≠ fill.trade.quantity ∧
          after.book.queue side = fill.order side :: rest ∧
          (after.heap (fill.order side)).quantity.toNat +
            fill.trade.quantity.toNat =
              (before.heap (fill.order side)).quantity.toNat)) := by
  obtain ⟨bidEnough, askEnough⟩ := passed.quantity_le
  cases side with
  | buy =>
      refine ⟨bids, passed.buyQueue, ?_⟩
      have remains := passed.buyQueueAfter
      split at remains
      next filled => exact .inl ⟨filled, remains⟩
      next notFilled =>
        refine .inr ⟨notFilled, remains, ?_⟩
        change (after.heap fill.bid).quantity.toNat + _ = _
        rw [passed.heap_bid tidy, UInt32.toNat_sub_of_le _ _ bidEnough]
        exact Nat.sub_add_cancel (UInt32.le_iff_toNat_le.mp bidEnough)
  | sell =>
      refine ⟨asks, passed.sellQueue, ?_⟩
      have remains := passed.sellQueueAfter
      split at remains
      next filled => exact .inl ⟨filled, remains⟩
      next notFilled =>
        refine .inr ⟨notFilled, remains, ?_⟩
        change (after.heap fill.ask).quantity.toNat + _ = _
        rw [passed.heap_ask tidy, UInt32.toNat_sub_of_le _ _ askEnough]
        exact Nat.sub_add_cancel (UInt32.le_iff_toNat_le.mp askEnough)

/-- A pass leaves the orders behind the heads as they are. -/
theorem Passed.heap_behind (passed : before.Passed fill bids asks after)
    (tidy : before.Tidy) {order : OrderPtr}
    (member : order ∈ before.book.queue side)
    (differ : order ≠ fill.order side) :
    after.heap order = before.heap order := by
  cases side with
  | buy => exact passed.heap_of_ne differ (tidy.bid_ne_ask member passed.ask_mem)
  | sell =>
      exact passed.heap_of_ne (tidy.bid_ne_ask passed.bid_mem member).symm differ

/-- How the trades of a call are allocated to the orders of a side.  Orders that
remain have a quantity, the head that has traded in part too. -/
structure Allocated (side : Side) (before : Engine) (fills : List Fill)
    (after : Engine) (filled : List OrderPtr) : Prop where
  queue : before.book.queue side = filled ++ after.book.queue side
  traders : traders side fills = filled ∨ ∃ head rest,
    after.book.queue side = head :: rest ∧ traders side fills = filled ++ [head]
  quantity : ∀ order ∈ before.book.queue side,
    tradedBy side order fills +
        (if order ∈ filled then 0 else (after.heap order).quantity.toNat) =
      (before.heap order).quantity.toNat
  untouched : ∀ order ∈ before.book.queue side,
    order ∉ TradingMatcher.traders side fills →
      after.heap order = before.heap order
  remains : ∀ order ∈ after.book.queue side, (after.heap order).quantity ≠ 0

namespace Allocated

variable {filled : List OrderPtr}

theorem refl (side : Side) {engine : Engine} (tidy : engine.Tidy) :
    Allocated side engine [] engine [] where
  queue := rfl
  traders := .inl rfl
  quantity _ _ := Nat.zero_add _
  untouched _ _ _ := rfl
  remains order stands :=
    tidy.hasQuantity order (OrderBook.mem_standing_iff.mpr ⟨side, stands⟩)

/-- The orders that trade stand in the queue. -/
theorem traders_subset (allocated : Allocated side before fills after filled) :
    TradingMatcher.traders side fills ⊆ before.book.queue side := by
  intro order member
  rw [allocated.queue]
  rcases allocated.traders with same | ⟨head, rest, queue, same⟩
  · rw [same] at member
    exact List.mem_append_left _ member
  · rw [same] at member
    rw [queue]
    rcases List.mem_append.mp member with member | last
    · exact List.mem_append_left _ member
    · obtain rfl := List.mem_singleton.mp last
      exact List.mem_append_right _ List.mem_cons_self

/-- A pass that uses up the head of the side. -/
theorem pass_filled (allocated : Allocated side middle fills after filled)
    {rest : List OrderPtr} (nodup : (fill.order side :: rest).Nodup)
    (queueBefore : before.book.queue side = fill.order side :: rest)
    (queueMiddle : middle.book.queue side = rest)
    (usedUp : (before.heap (fill.order side)).quantity = fill.trade.quantity)
    (behind : ∀ order ∈ rest, middle.heap order = before.heap order) :
    Allocated side before (fill :: fills) after (fill.order side :: filled) := by
  have absent := (List.nodup_cons.mp nodup).1
  have silent : fill.order side ∉ TradingMatcher.traders side fills := by
    intro member
    have stands := allocated.traders_subset member
    rw [queueMiddle] at stands
    exact absent stands
  refine ⟨?_, ?_, ?_, ?_, allocated.remains⟩
  · rw [queueBefore, ← queueMiddle, allocated.queue, List.cons_append]
  · rw [traders_cons, if_neg silent]
    rcases allocated.traders with same | ⟨head, later, queue, same⟩
    · exact .inl (by rw [same])
    · exact .inr ⟨head, later, queue, by rw [same, List.cons_append]⟩
  · intro order member
    rw [queueBefore] at member
    rcases List.mem_cons.mp member with rfl | member
    · rw [tradedBy_cons, if_pos rfl, tradedBy_eq_zero silent,
        if_pos List.mem_cons_self, usedUp, Nat.add_zero]
    · have differ : order ≠ fill.order side := ne_of_mem_of_not_mem member absent
      have later := allocated.quantity order (queueMiddle ▸ member)
      rw [behind order member] at later
      rw [tradedBy_cons, if_neg differ.symm, Nat.zero_add]
      simpa [differ] using later
  · intro order member notTrader
    rw [traders_cons, if_neg silent, List.mem_cons, not_or] at notTrader
    rw [queueBefore] at member
    have inRest := (List.mem_cons.mp member).resolve_left notTrader.1
    rw [allocated.untouched order (queueMiddle ▸ inRest) notTrader.2,
      behind order inRest]

/-- A pass that leaves the head of the side in the book. -/
theorem pass_remains (allocated : Allocated side middle fills after filled)
    {rest : List OrderPtr} (nodup : (fill.order side :: rest).Nodup)
    (queueBefore : before.book.queue side = fill.order side :: rest)
    (queueMiddle : middle.book.queue side = fill.order side :: rest)
    (reduced : (middle.heap (fill.order side)).quantity.toNat +
      fill.trade.quantity.toNat = (before.heap (fill.order side)).quantity.toNat)
    (behind : ∀ order ∈ rest, middle.heap order = before.heap order) :
    Allocated side before (fill :: fills) after filled := by
  have queue := allocated.queue
  rw [queueMiddle] at queue
  refine ⟨?_, ?_, ?_, ?_, allocated.remains⟩
  · rw [queueBefore, queue]
  · rw [traders_cons]
    by_cases again : fill.order side ∈ TradingMatcher.traders side fills
    · rw [if_pos again]
      exact allocated.traders
    · -- The head has not traded later, so nothing behind it has.
      rw [if_neg again]
      have first : filled = [] := by
        cases filled with
        | nil => rfl
        | cons order filled =>
            obtain ⟨rfl, -⟩ := List.cons.inj queue
            refine (again ?_).elim
            rcases allocated.traders with same | ⟨_, _, -, same⟩ <;>
              rw [same] <;> simp
      subst first
      refine .inr ⟨fill.order side, rest, queue.symm, ?_⟩
      rcases allocated.traders with same | ⟨head, later, queueAfter, same⟩
      · rw [same]
        rfl
      · rw [queueAfter, List.nil_append] at queue
        obtain ⟨rfl, -⟩ := List.cons.inj queue
        rw [same] at again
        exact (again List.mem_cons_self).elim
  · intro order member
    rw [queueBefore] at member
    have later := allocated.quantity order (queueMiddle ▸ member)
    rw [tradedBy_cons]
    rcases List.mem_cons.mp member with rfl | inRest
    · rw [if_pos rfl]
      omega
    · have differ : order ≠ fill.order side :=
        ne_of_mem_of_not_mem inRest (List.nodup_cons.mp nodup).1
      rw [behind order inRest] at later
      rw [if_neg differ.symm, Nat.zero_add, later]
  · intro order member notTrader
    rw [queueBefore] at member
    rw [traders_cons] at notTrader
    have differ : order ≠ fill.order side := by
      rintro rfl
      split at notTrader
      next again => exact notTrader again
      next => exact notTrader List.mem_cons_self
    have silent : order ∉ TradingMatcher.traders side fills := by
      split at notTrader
      next => exact notTrader
      next => exact fun member => notTrader (List.mem_cons_of_mem _ member)
    have inRest := (List.mem_cons.mp member).resolve_left differ
    rw [allocated.untouched order (queueMiddle ▸ member) silent,
      behind order inRest]

end Allocated

/-- Every call of `matchOrders` that returns allocates its trades so on both
sides, and each of them takes an order off the book. -/
theorem Drains.allocated (drains : before.Drains fills after)
    (tidy : before.Tidy) :
    ∃ filled : Side → List OrderPtr,
      (∀ side, Allocated side before fills after (filled side)) ∧
        fills.length ≤ (filled .buy).length + (filled .sell).length := by
  induction drains with
  | done exits =>
      exact ⟨fun _ => [], fun side => .refl side tidy, Nat.zero_le _⟩
  | @pass before middle after fill fills executes rest ih =>
      obtain ⟨tidyMiddle, bids, asks, passed⟩ := tidy.matchPass executes
      obtain ⟨filled, allocated, count⟩ := ih tidyMiddle
      have (side : Side) : ∃ filledNow,
          Allocated side before (fill :: fills) after filledNow ∧
            (filled side).length ≤ filledNow.length ∧
            ((before.heap (fill.order side)).quantity = fill.trade.quantity →
              filledNow.length = (filled side).length + 1) := by
        obtain ⟨behindHead, queue, cases⟩ := passed.head_cases tidy side
        have nodup := tidy.consistent.nodup side
        rw [queue] at nodup
        have behind : ∀ order ∈ behindHead,
            middle.heap order = before.heap order := by
          intro order member
          apply passed.heap_behind tidy (queue ▸ List.mem_cons_of_mem _ member)
          exact ne_of_mem_of_not_mem member (List.nodup_cons.mp nodup).1
        rcases cases with ⟨usedUp, queueAfter⟩ | ⟨more, queueAfter, reduced⟩
        · exact ⟨_, (allocated side).pass_filled nodup queue queueAfter usedUp
            behind, Nat.le_succ _, fun _ => rfl⟩
        · exact ⟨_, (allocated side).pass_remains nodup queue queueAfter
            reduced behind, Nat.le_refl _, fun usedUp => (more usedUp).elim⟩
      choose filledNow allocatedNow grows usedUp using this
      refine ⟨filledNow, allocatedNow, ?_⟩
      have growsBuy := grows .buy
      have growsSell := grows .sell
      rw [List.length_cons]
      rcases passed.quantity_eq_or with bidUsed | askUsed
      · have := usedUp .buy bidUsed
        omega
      · have := usedUp .sell askUsed
        omega

/-- The price of a trade lies between the limits of its two orders. -/
theorem Passed.price_within (passed : before.Passed fill bids asks after) :
    (before.heap fill.ask).priceScaled ≤ fill.trade.priceScaled ∧
      fill.trade.priceScaled ≤ (before.heap fill.bid).priceScaled := by
  rw [passed.trade, matchPrice]
  split
  exacts [⟨passed.crossed, le_rfl⟩, ⟨le_rfl, passed.crossed⟩]

/-- No order pays more or gets less than its limit in a call of
`matchOrders`. -/
theorem Drains.price_within (drains : before.Drains fills after)
    (tidy : before.Tidy) :
    ∀ fill ∈ fills,
      (before.heap fill.ask).priceScaled ≤ fill.trade.priceScaled ∧
        fill.trade.priceScaled ≤ (before.heap fill.bid).priceScaled := by
  induction drains with
  | done => simp
  | pass executes _ ih =>
      obtain ⟨tidyMiddle, bids, asks, passed⟩ := tidy.matchPass executes
      intro fill member
      rcases List.mem_cons.mp member with rfl | member
      · exact passed.price_within
      · have within := ih tidyMiddle fill member
        rwa [(passed.heap_terms _).2.1, (passed.heap_terms _).2.1] at within

end Engine

/-- In every state of a fresh run, a call of `matchOrders` that returns serves
each side in the order of its queue, every order to the end before the next, and
within its limit. -/
theorem freshRun_allocates {heap : Heap} {clock : Nat → Timestamp}
    {history : List Event} {machine : Machine} {passes : Nat}
    {fills : List Fill} {after : Engine}
    (run : FreshRun heap clock history machine)
    (returns : machine.engine.matchOrders passes = some (fills, after)) :
    (∃ filled : Side → List OrderPtr,
      (∀ side, Engine.Allocated side machine.engine fills after (filled side)) ∧
        fills.length ≤ (filled .buy).length + (filled .sell).length) ∧
      ∀ fill ∈ fills,
        (machine.engine.heap fill.ask).priceScaled ≤ fill.trade.priceScaled ∧
          fill.trade.priceScaled ≤
            (machine.engine.heap fill.bid).priceScaled := by
  obtain ⟨drains, -⟩ := Engine.matchOrders_eq_some_iff.mp returns
  exact ⟨drains.allocated run.tidy, drains.price_within run.tidy⟩

/-- A sell of 3 that trades with the first of two buys and with a part of the
second. -/
theorem freshRun_allocates_partly :
    ∃ machine fills after, FreshRun zeroHeap tickingClock
        [.addOrder 3 (Order.new 3 false 3 90 0) true,
          .addOrder 2 (Order.new 2 true 5 100 0) true,
          .addOrder 1 (Order.new 1 true 2 100 0) true] machine ∧
      Engine.matchOrders 3 machine.engine = some (fills, after) ∧
      fills.length = 2 ∧
      ∃ filled : Side → List OrderPtr,
        (∀ side, Engine.Allocated side machine.engine fills after
          (filled side)) ∧
          fills.length ≤ (filled .buy).length + (filled .sell).length := by
  obtain ⟨machine, run, two⟩ := exists_guardedRun_of_replay FreshCall zeroHeap
    tickingClock [.addOrder 3 (Order.new 3 false 3 90 0) true,
      .addOrder 2 (Order.new 2 true 5 100 0) true,
      .addOrder 1 (Order.new 1 true 2 100 0) true]
    (fun machine => (machine.engine.matchOrders 3).any fun result =>
      result.1.length = 2) (by decide)
  simp only [Option.any_eq_true, decide_eq_true_eq] at two
  obtain ⟨⟨fills, after⟩, returns, two⟩ := two
  exact ⟨machine, fills, after, run, returns, two,
    (freshRun_allocates run returns).1⟩

end TradingMatcher
