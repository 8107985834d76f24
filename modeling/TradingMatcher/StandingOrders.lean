import TradingMatcher.BookRuns

/-!
# What one step does to one standing order

An order that stands after a step was entered by it, modified by it, was one of
the two heads of its trade, or stood before and was neither named nor written.
An order that stood before the step and not after it was cancelled, modified to
no quantity, or filled.  Invariants that speak of each order by itself are case
analyses over these fates and departures.
-/

namespace TradingMatcher

open PriceTime

def Trade.Names (trade : Trade) (id : OrderId) : Prop :=
  trade.buyOrderId = id ∨ trade.sellOrderId = id

instance (trade : Trade) (id : OrderId) : Decidable (trade.Names id) :=
  inferInstanceAs (Decidable (_ ∨ _))

/-- The step enters, cancels, modifies or trades under this identifier. -/
def Event.Names (id : OrderId) : Event → Prop
  | .addOrder _ fields true => fields.id = id
  | .cancelOrder other _ => other = id
  | .modifyOrder other _ _ _ => other = id
  | .executeTrade fill => fill.trade.Names id
  | _ => False

/-- The price a call gives to the order it enters. -/
def Event.price? : Event → Option Price
  | .addOrder _ fields _ => some fields.priceScaled
  | .modifyOrder _ newPrice _ _ => some newPrice
  | _ => none

/-- The fate of an order that stands after a step. -/
inductive Fate (before : Engine) (order : OrderPtr) : Event → Engine → Prop
  | kept {event : Event} {after : Engine}
      (stood : order ∈ before.book.standing)
      (unnamed : ¬ event.Names (before.heap order).id)
      (heap : after.heap order = before.heap order) :
      Fate before order event after
  | traded {fill : Fill} {after : Engine}
      (stood : order ∈ before.book.standing)
      (named : fill.trade.Names (before.heap order).id)
      (enough : fill.trade.quantity ≤ (before.heap order).quantity)
      (heap : after.heap order = { before.heap order with
        quantity := (before.heap order).quantity - fill.trade.quantity }) :
      Fate before order (.executeTrade fill) after
  | modified {newPrice : Price} {newQuantity : Quantity} {after : Engine}
      (stood : order ∈ before.book.standing)
      (id : (after.heap order).id = (before.heap order).id)
      (price : (after.heap order).priceScaled = newPrice)
      (quantity : (after.heap order).quantity = newQuantity)
      (side : (after.heap order).side = (before.heap order).side) :
      Fate before order
        (.modifyOrder (before.heap order).id newPrice newQuantity true) after
  | added {fields : Order} {after : Engine}
      (absent : order ∉ before.book.standing)
      (id : (after.heap order).id = fields.id)
      (price : (after.heap order).priceScaled = fields.priceScaled)
      (quantity : (after.heap order).quantity = fields.quantity)
      (side : (after.heap order).side = fields.side) :
      Fate before order (.addOrder order fields true) after

theorem Engine.Passed.fate {before after : Engine} {fill : Fill}
    {bids asks : List OrderPtr} (passed : before.Passed fill bids asks after)
    (tidy : before.Tidy) {order : OrderPtr}
    (stood : order ∈ before.book.standing) :
    Fate before order (.executeTrade fill) after := by
  have buys := passed.buyOrderId_eq
  have sells := passed.sellOrderId_eq
  by_cases isBid : order = fill.bid
  · subst isBid
    exact .traded stood (.inl buys) passed.quantity_le.1 (passed.heap_bid tidy)
  · by_cases isAsk : order = fill.ask
    · subst isAsk
      exact .traded stood (.inr sells) passed.quantity_le.2
        (passed.heap_ask tidy)
    · refine .kept stood ?_ (passed.heap_of_ne isBid isAsk)
      rintro (named | named)
      · exact isBid (tidy.consistent.eq_of_id_eq stood passed.bid_stands
          (named.symm.trans buys))
      · exact isAsk (tidy.consistent.eq_of_id_eq stood passed.ask_stands
          (named.symm.trans sells))

/-- An order that stands after a step has one of the four fates. -/
theorem Effect.fate {before after : Engine} {event : Event}
    (effect : Effect before event after) (tidy : before.Tidy)
    {order : OrderPtr} (stands : order ∈ after.book.standing) :
    Fate before order event after := by
  cases effect with
  | refused absent =>
      exact .kept stands not_false
        (before.store_heap_of_ne (ne_of_mem_of_not_mem stands absent) _)
  | @added subject fields _ fresh _ _ heap queues =>
      by_cases same : order = subject
      · subst same
        obtain ⟨id, price, quantity, side⟩ := heap_added_self heap
        exact .added fresh.1 id price quantity side
      · have stood := (mem_standing_insertBehind queues).mp stands
        rw [← OrderBook.mem_standing_iff, or_iff_right same] at stood
        exact .kept stood (fresh.2 order stood).symm (heap_added_of_ne heap same)
  | cancelAbsent absent =>
      exact .kept stands (tidy.id_ne_of_absent absent stands).symm rfl
  | cancelled subjectStands afterEq queues =>
      have stood := (tidy.consistent.mem_standing_erase queues).mp stands
      refine .kept stood.2 ?_ (by rw [afterEq]; rfl)
      exact fun sameId => stood.1 (tidy.consistent.eq_of_id_eq stood.2
        subjectStands sameId.symm)
  | modifyAbsent absent =>
      exact .kept stands (tidy.id_ne_of_absent absent stands).symm rfl
  | emptied subjectStands queues =>
      have stood := (tidy.consistent.mem_standing_erase queues).mp stands
      refine .kept stood.2 ?_ (before.withdrawn_heap_of_ne stood.1 _ _)
      exact fun sameId => stood.1 (tidy.consistent.eq_of_id_eq stood.2
        subjectStands sameId.symm)
  | @modified subject _ _ _ subjectStands _ _ heap queues =>
      have stood := (mem_standing_insertBehind queues).mp stands
      by_cases same : order = subject
      · subst same
        obtain ⟨id, price, quantity, side⟩ := heap_modified_self heap
        exact .modified subjectStands id price quantity side
      · rw [or_iff_right same] at stood
        obtain ⟨side, member⟩ := stood
        have stood := OrderBook.mem_standing_iff.mpr
          ⟨side, List.mem_of_mem_erase member⟩
        refine .kept stood ?_ (heap_modified_of_ne heap same)
        exact fun sameId => same (tidy.consistent.eq_of_id_eq stood
          subjectStands sameId.symm)
  | entered => exact .kept stands not_false rfl
  | traded _ passed => exact passed.fate tidy (passed.standing_subset stands)
  | returned => exact .kept stands not_false rfl

namespace Fate

variable {before after : Engine} {order : OrderPtr} {event : Event}

/-- An order stood before with its identifier, or it was added. -/
theorem stood_or_added (fate : Fate before order event after) :
    (order ∈ before.book.standing ∧
        (after.heap order).id = (before.heap order).id) ∨
      ∃ fields, event = .addOrder order fields true ∧
        (after.heap order).id = fields.id := by
  cases fate with
  | kept stood _ heap => exact .inl ⟨stood, by rw [heap]⟩
  | traded stood _ _ heap => exact .inl ⟨stood, by rw [heap]⟩
  | modified stood id => exact .inl ⟨stood, id⟩
  | added _ id => exact .inr ⟨_, rfl, id⟩

/-- An order keeps its price, or it has the price of the call. -/
theorem price (fate : Fate before order event after) :
    (order ∈ before.book.standing ∧
        (after.heap order).priceScaled = (before.heap order).priceScaled) ∨
      event.price? = some (after.heap order).priceScaled := by
  cases fate with
  | kept stood _ heap => exact .inl ⟨stood, by rw [heap]⟩
  | traded stood _ _ heap => exact .inl ⟨stood, by rw [heap]⟩
  | modified _ _ price => exact .inr (congrArg some price.symm)
  | added _ _ price => exact .inr (congrArg some price.symm)

end Fate

/-- How an order stops standing. -/
inductive Departure (before : Engine) (order : OrderPtr) :
    Event → Engine → Prop
  | cancelled {after : Engine} :
      Departure before order (.cancelOrder (before.heap order).id true) after
  | emptied {newPrice : Price} {after : Engine} :
      Departure before order
        (.modifyOrder (before.heap order).id newPrice 0 false) after
  | filled {fill : Fill} {after : Engine}
      (isHead : order = fill.bid ∨ order = fill.ask)
      (usedUp : (after.heap order).quantity = 0) :
      Departure before order (.executeTrade fill) after

theorem Engine.Passed.stands_or_departs {before after : Engine} {fill : Fill}
    {bids asks : List OrderPtr} (passed : before.Passed fill bids asks after)
    (tidy : before.Tidy) {order : OrderPtr}
    (stood : order ∈ before.book.standing) :
    order ∈ after.book.standing ∨
      Departure before order (.executeTrade fill) after := by
  obtain ⟨side, member⟩ := OrderBook.mem_standing_iff.mp stood
  simp only [OrderBook.mem_standing_iff]
  cases side with
  | buy =>
      have afterwards := passed.buyQueueAfter
      split at afterwards
      next filled =>
        by_cases isBid : order = fill.bid
        · subst isBid
          refine .inr (.filled (.inl rfl) ?_)
          rw [passed.heap_bid tidy]
          exact (sub_eq_zero_iff _ _).mpr filled
        · rw [passed.buyQueue, List.mem_cons, or_iff_right isBid] at member
          exact .inl ⟨.buy, afterwards ▸ member⟩
      next =>
        rw [passed.buyQueue] at member
        exact .inl ⟨.buy, afterwards ▸ member⟩
  | sell =>
      have afterwards := passed.sellQueueAfter
      split at afterwards
      next filled =>
        by_cases isAsk : order = fill.ask
        · subst isAsk
          refine .inr (.filled (.inr rfl) ?_)
          rw [passed.heap_ask tidy]
          exact (sub_eq_zero_iff _ _).mpr filled
        · rw [passed.sellQueue, List.mem_cons, or_iff_right isAsk] at member
          exact .inl ⟨.sell, afterwards ▸ member⟩
      next =>
        rw [passed.sellQueue] at member
        exact .inl ⟨.sell, afterwards ▸ member⟩

namespace Effect

variable {before after : Engine} {order : OrderPtr} {event : Event}

/-- An order that stood before a step stands after it, or the step took it
away. -/
theorem stands_or_departs (effect : Effect before event after)
    (tidy : before.Tidy) (stood : order ∈ before.book.standing) :
    order ∈ after.book.standing ∨ Departure before order event after := by
  cases effect with
  | refused => exact .inl stood
  | added _ _ _ _ queues =>
      exact .inl ((mem_standing_insertBehind queues).mpr
        (.inr (OrderBook.mem_standing_iff.mp stood)))
  | cancelAbsent => exact .inl stood
  | @cancelled subject _ _ _ queues =>
      by_cases same : order = subject
      · subst same
        exact .inr .cancelled
      · exact .inl ((tidy.consistent.mem_standing_erase queues).mpr
          ⟨same, stood⟩)
  | modifyAbsent => exact .inl stood
  | @emptied subject _ _ queues =>
      by_cases same : order = subject
      · subst same
        exact .inr .emptied
      · exact .inl ((tidy.consistent.mem_standing_erase queues).mpr
          ⟨same, stood⟩)
  | @modified subject _ _ _ _ _ _ _ queues =>
      refine .inl ((mem_standing_insertBehind queues).mpr ?_)
      by_cases same : order = subject
      · exact .inl same
      · obtain ⟨side, member⟩ := OrderBook.mem_standing_iff.mp stood
        exact .inr ⟨side, (List.mem_erase_of_ne same).mpr member⟩
  | entered => exact .inl stood
  | traded _ passed => exact passed.stands_or_departs tidy stood
  | returned => exact .inl stood

/-- Objects off the ladders are written by their own adds only. -/
theorem untouched (effect : Effect before event after)
    (absent : order ∉ before.book.standing)
    (notAdded : ∀ fields result, event ≠ .addOrder order fields result) :
    after.heap order = before.heap order := by
  cases effect with
  | @refused subject fields =>
      apply before.store_heap_of_ne
      rintro rfl
      exact notAdded _ _ rfl
  | @added subject fields _ _ _ _ heap =>
      apply heap_added_of_ne heap
      rintro rfl
      exact notAdded _ _ rfl
  | cancelled _ afterEq =>
      rw [afterEq]
      rfl
  | emptied stands =>
      exact before.withdrawn_heap_of_ne
        (ne_of_mem_of_not_mem stands absent).symm _ _
  | modified stands _ _ heap =>
      exact heap_modified_of_ne heap (ne_of_mem_of_not_mem stands absent).symm
  | traded _ passed =>
      exact passed.heap_of_ne
        (ne_of_mem_of_not_mem passed.bid_stands absent).symm
        (ne_of_mem_of_not_mem passed.ask_stands absent).symm
  | cancelAbsent => rfl
  | modifyAbsent => rfl
  | entered => rfl
  | returned => rfl

end Effect

end TradingMatcher
