import TradingMatcher.BookFromQueues
import TradingMatcher.CrossedBook
import TradingMatcher.OrderEntry

/-!
# Orders that never trade

An order that is cancelled before it has traded leaves no trace: the same calls
without it make the same trades, at the same times, and leave the same orders in
the same queues.  The order must carry its own timestamp, as it takes a reading
of the clock otherwise, and a sell must have a positive price, as it stops the
matching of its side otherwise.
-/

namespace TradingMatcher

open PriceTime

namespace Engine

/-- The second engine is the first one without the hidden orders. -/
structure Without (hidden : OrderPtr → Bool) (first second : Engine) : Prop where
  clock : second.clock = first.clock
  queues : ∀ side, second.book.queue side =
    (first.book.queue side).filter fun order => !hidden order
  fields : ∀ order ∈ second.book.standing, second.heap order = first.heap order

variable {first second : Engine} {hidden : OrderPtr → Bool} {order : OrderPtr}

namespace Without

theorem mem_standing (without : Without hidden first second) :
    order ∈ second.book.standing ↔
      order ∈ first.book.standing ∧ hidden order = false := by
  simp only [OrderBook.mem_standing_iff, without.queues, List.mem_filter,
    Bool.not_eq_true']
  exact exists_and_right

theorem stood (without : Without hidden first second)
    (stands : order ∈ second.book.standing) : order ∈ first.book.standing :=
  (without.mem_standing.mp stands).1

theorem stays (without : Without hidden first second)
    (stands : order ∈ first.book.standing) (shown : hidden order = false) :
    order ∈ second.book.standing :=
  without.mem_standing.mpr ⟨stands, shown⟩

/-- An order that is free in the first engine is free in the second. -/
theorem fresh (without : Without hidden first second) {id : OrderId}
    (fresh : first.Fresh order id) : second.Fresh order id := by
  refine ⟨fun stands => fresh.1 (without.stood stands), ?_⟩
  intro other stands
  rw [without.fields other stands]
  exact fresh.2 other (without.stood stands)

/-- Writing an object that does not stand. -/
theorem store (without : Without hidden first second)
    (absent : order ∉ first.book.standing) (fields : Order) :
    Without hidden (first.store order fields) (second.store order fields) where
  clock := without.clock
  queues := without.queues
  fields other stands := by
    have differ : other ≠ order :=
      ne_of_mem_of_not_mem (without.stood stands) absent
    rw [first.store_heap_of_ne differ, second.store_heap_of_ne differ]
    exact without.fields other stands

theorem stamped (without : Without hidden first second) (fields : Order) :
    second.stamped fields = first.stamped fields := by
  rw [Engine.stamped, Engine.stamped, without.clock]

/-- Adding an order that is shown. -/
theorem addOrder (without : Without hidden first second) (tidy : first.Tidy)
    (otherTidy : second.Tidy) (shown : hidden order = false)
    (fresh : (first.heap order).quantity ≠ 0 →
      first.Fresh order (first.heap order).id)
    (same : second.heap order = first.heap order) :
    (second.addOrder (some order)).1 = (first.addOrder (some order)).1 ∧
      Without hidden (first.addOrder (some order)).2
        (second.addOrder (some order)).2 := by
  by_cases empty : (first.heap order).quantity = 0
  · rw [addOrder_of_no_quantity empty, addOrder_of_no_quantity (by rwa [same])]
    exact ⟨rfl, without⟩
  · have quantity : (second.heap order).quantity ≠ 0 := by rwa [same]
    have otherFresh : second.Fresh order (second.heap order).id := by
      rw [same]
      exact without.fresh (fresh empty)
    obtain ⟨-, queues, heap, clock⟩ := tidy.addOrder (fresh empty) empty
    obtain ⟨-, otherQueues, otherHeap, otherClock⟩ :=
      otherTidy.addOrder otherFresh quantity
    refine ⟨?_, ?_, fun side => ?_, fun other stands => ?_⟩
    · rw [addOrder_of_quantity empty, addOrder_of_quantity quantity]
    · rw [clock, otherClock, Engine.stamp, Engine.stamp, same]
      split
      · simp only [Engine.store, getTimestampNs, without.clock]
      · exact without.clock
    · rw [queues, otherQueues, same, without.queues]
      split
      next onSide =>
        have agree : ∀ entry ∈ (first.book.queue side).filter
            fun order => !hidden order,
              (second.heap entry).priceScaled =
                (first.heap entry).priceScaled := by
          intro entry member
          rw [← without.queues] at member
          rw [without.fields entry
            (OrderBook.mem_standing_iff.mpr ⟨side, member⟩)]
        rw [insertBehind_congr (by rw [same]) agree]
        exact (filter_insertBehind (tidy.consistent.inPriority side)
          (by rw [shown]; rfl)).symm
      next => rfl
    · rw [heap, otherHeap]
      by_cases isNew : other = order
      · subst isNew
        rw [stamp_heap_self, stamp_heap_self, same, without.stamped]
      · rw [stamp_heap_of_ne _ _ isNew, stamp_heap_of_ne _ _ isNew]
        obtain ⟨side, member⟩ := OrderBook.mem_standing_iff.mp stands
        apply without.fields
        rw [otherQueues] at member
        refine OrderBook.mem_standing_iff.mpr ⟨side, ?_⟩
        split at member
        · exact (List.mem_cons.mp
            ((insertBehind_perm _ _ _ _).mem_iff.mp member)).resolve_left isNew
        · exact member

/-- The index knows the same shown orders. -/
theorem orderMap_eq (without : Without hidden first second) (tidy : first.Tidy)
    (otherTidy : second.Tidy) {id : OrderId}
    (shown : ∀ order, first.book.orderMap id = some order →
      hidden order = false) :
    second.book.orderMap id = first.book.orderMap id := by
  ext order
  rw [tidy.consistent.indexed, otherTidy.consistent.indexed]
  constructor
  · rintro ⟨stands, sameId⟩
    rw [without.fields order stands] at sameId
    exact ⟨without.stood stands, sameId⟩
  · rintro ⟨stands, sameId⟩
    have isShown := shown order
      ((tidy.consistent.indexed id order).mpr ⟨stands, sameId⟩)
    have otherStands := without.stays stands isShown
    rw [without.fields order otherStands]
    exact ⟨otherStands, sameId⟩

/-- Cancelling an order that is shown. -/
theorem cancelled (without : Without hidden first second) (tidy : first.Tidy)
    (otherTidy : second.Tidy) (stands : order ∈ first.book.standing)
    (shown : hidden order = false) :
    Without hidden (first.cancelOrder (first.heap order).id).2
      (second.cancelOrder (first.heap order).id).2 := by
  have otherStands := without.stays stands shown
  have same := without.fields order otherStands
  obtain ⟨-, -, queues, heap⟩ := tidy.cancelOrder stands
  obtain ⟨-, -, otherQueues, otherHeap⟩ := otherTidy.cancelOrder otherStands
  rw [same] at otherQueues otherHeap
  refine ⟨without.clock, fun side => ?_, fun other otherStood => ?_⟩
  · rw [queues, otherQueues, without.queues, List.erase_filter]
  · rw [heap, otherHeap]
    apply without.fields
    obtain ⟨side, member⟩ := OrderBook.mem_standing_iff.mp otherStood
    rw [otherQueues] at member
    exact OrderBook.mem_standing_iff.mpr ⟨side, List.mem_of_mem_erase member⟩

theorem cancelOrder (without : Without hidden first second) (tidy : first.Tidy)
    (otherTidy : second.Tidy) {id : OrderId}
    (shown : ∀ order, first.book.orderMap id = some order →
      hidden order = false) :
    (second.cancelOrder id).1 = (first.cancelOrder id).1 ∧
      Without hidden (first.cancelOrder id).2 (second.cancelOrder id).2 := by
  have sameIndex := without.orderMap_eq tidy otherTidy shown
  cases found : first.book.orderMap id with
  | none =>
      rw [cancelOrder_of_absent found,
        cancelOrder_of_absent (sameIndex.trans found)]
      exact ⟨rfl, without⟩
  | some order =>
      obtain ⟨stands, rfl⟩ := (tidy.consistent.indexed id order).mp found
      have otherStands := without.stays stands (shown order found)
      refine ⟨?_, without.cancelled tidy otherTidy stands (shown order found)⟩
      rw [(tidy.cancelOrder stands).1, ← without.fields order otherStands,
        (otherTidy.cancelOrder otherStands).1]

/-- A modification withdraws an order that is shown. -/
theorem withdrawn (without : Without hidden first second) (tidy : first.Tidy)
    (otherTidy : second.Tidy) (stands : order ∈ first.book.standing)
    (shown : hidden order = false) (newPrice : Price) (newQuantity : Quantity) :
    Without hidden (first.withdrawn order newPrice newQuantity)
      (second.withdrawn order newPrice newQuantity) := by
  have same := without.fields order (without.stays stands shown)
  have cancelled := without.cancelled tidy otherTidy stands shown
  have fresh := tidy.cancelOrder_fresh stands
  have ticked : Without hidden
      { first with
        clock := fun index => first.clock (index + 1)
        book := (first.book.cancelOrder first.heap (first.heap order).id).2 }
      { second with
        clock := fun index => second.clock (index + 1)
        book := (second.book.cancelOrder second.heap
          (first.heap order).id).2 } :=
    ⟨funext fun index => congrFun without.clock (index + 1),
      cancelled.queues, cancelled.fields⟩
  have fields : second.modifiedFields order newPrice newQuantity =
      first.modifiedFields order newPrice newQuantity := by
    rw [modifiedFields, modifiedFields, same, without.clock]
  rw [Engine.withdrawn, Engine.withdrawn, fields, same]
  exact ticked.store fresh.1 _

theorem modifyOrder (without : Without hidden first second) (tidy : first.Tidy)
    (otherTidy : second.Tidy) {id : OrderId}
    (shown : ∀ order, first.book.orderMap id = some order →
      hidden order = false) (newPrice : Price) (newQuantity : Quantity) :
    (second.modifyOrder id newPrice newQuantity).1 =
        (first.modifyOrder id newPrice newQuantity).1 ∧
      Without hidden (first.modifyOrder id newPrice newQuantity).2
        (second.modifyOrder id newPrice newQuantity).2 := by
  have sameIndex := without.orderMap_eq tidy otherTidy shown
  cases found : first.book.orderMap id with
  | none =>
      rw [modifyOrder_of_absent found,
        modifyOrder_of_absent (sameIndex.trans found)]
      exact ⟨rfl, without⟩
  | some order =>
      obtain ⟨stands, rfl⟩ := (tidy.consistent.indexed id order).mp found
      have otherStands := without.stays stands (shown order found)
      have same := without.fields order otherStands
      have otherFound : second.book.orderMap (second.heap order).id =
          some order := by
        rw [same, sameIndex, found]
      obtain ⟨tidyNow, free, -⟩ := tidy.withdrawn stands newPrice newQuantity
      obtain ⟨otherTidyNow, -, -⟩ :=
        otherTidy.withdrawn otherStands newPrice newQuantity
      have both := without.withdrawn tidy otherTidy stands (shown order found)
        newPrice newQuantity
      have sameFields : (second.withdrawn order newPrice newQuantity).heap
          order = (first.withdrawn order newPrice newQuantity).heap order := by
        rw [withdrawn_heap_self, withdrawn_heap_self, modifiedFields,
          modifiedFields, same, without.clock]
      rw [modifyOrder_of_indexed found, ← same,
        modifyOrder_of_indexed otherFound]
      exact both.addOrder tidyNow otherTidyNow (shown order found)
        (fun _ => by rwa [withdrawn_heap_self]) sameFields

/-- A pass that trades two orders that are shown. -/
theorem matchPass (without : Without hidden first second) (tidy : first.Tidy)
    (otherTidy : second.Tidy) {fill : Fill} {after : Engine}
    (executes : first.matchPass = some (fill, after))
    (bidShown : hidden fill.bid = false) (askShown : hidden fill.ask = false) :
    ∃ otherAfter, second.matchPass = some (fill, otherAfter) ∧
      Without hidden after otherAfter := by
  obtain ⟨-, bids, asks, passed⟩ := tidy.matchPass executes
  have bidFields := without.fields _ (without.stays passed.bid_stands bidShown)
  have askFields := without.fields _ (without.stays passed.ask_stands askShown)
  have buyQueue : second.book.queue .buy =
      fill.bid :: bids.filter fun order => !hidden order := by
    rw [without.queues, passed.buyQueue]
    exact List.filter_cons_of_pos (by rw [bidShown]; rfl)
  have sellQueue : second.book.queue .sell =
      fill.ask :: asks.filter fun order => !hidden order := by
    rw [without.queues, passed.sellQueue]
    exact List.filter_cons_of_pos (by rw [askShown]; rfl)
  have matched : second.book.hasMatch = true := by
    refine otherTidy.hasMatch_iff.mpr ⟨_, _, _, _, buyQueue, sellQueue, ?_⟩
    rw [bidFields, askFields]
    exact ⟨passed.askPositive, passed.crossed⟩
  obtain ⟨⟨otherFill, otherAfter⟩, otherExecutes⟩ :=
    Option.ne_none_iff_exists'.mp fun exits =>
      Bool.eq_false_iff.mp (otherTidy.matchPass_eq_none_iff.mp exits) matched
  obtain ⟨-, otherBids, otherAsks, otherPassed⟩ :=
    otherTidy.matchPass otherExecutes
  have buyHeads := otherPassed.buyQueue
  have sellHeads := otherPassed.sellQueue
  rw [buyQueue] at buyHeads
  rw [sellQueue] at sellHeads
  obtain ⟨sameBid, sameBids⟩ := List.cons_eq_cons.mp buyHeads
  obtain ⟨sameAsk, sameAsks⟩ := List.cons_eq_cons.mp sellHeads
  have sameTrade : otherFill.trade = fill.trade := by
    rw [otherPassed.trade, passed.trade, ← sameBid, ← sameAsk, bidFields,
      askFields, without.clock]
  obtain rfl : otherFill = fill := by
    obtain ⟨bid, ask, trade⟩ := otherFill
    obtain rfl : fill.bid = bid := sameBid
    obtain rfl : fill.ask = ask := sameAsk
    obtain rfl : trade = fill.trade := sameTrade
    rfl
  refine ⟨otherAfter, otherExecutes, ?_, fun side => ?_,
    fun order stands => ?_⟩
  · rw [passed.clock, otherPassed.clock, without.clock]
  · cases side with
    | buy =>
        rw [passed.buyQueueAfter, otherPassed.buyQueueAfter, bidFields,
          ← sameBids]
        split
        · rfl
        · exact (List.filter_cons_of_pos (by rw [bidShown]; rfl)).symm
    | sell =>
        rw [passed.sellQueueAfter, otherPassed.sellQueueAfter, askFields,
          ← sameAsks]
        split
        · rfl
        · exact (List.filter_cons_of_pos (by rw [askShown]; rfl)).symm
  · have fields := without.fields order (otherPassed.standing_subset stands)
    by_cases isBid : order = otherFill.bid
    · rw [isBid, passed.heap_bid tidy, otherPassed.heap_bid otherTidy, bidFields]
    · by_cases isAsk : order = otherFill.ask
      · rw [isAsk, passed.heap_ask tidy, otherPassed.heap_ask otherTidy,
          askFields]
      · rw [passed.heap_of_ne isBid isAsk, otherPassed.heap_of_ne isBid isAsk,
          fields]

/-- Without the hidden orders the loop ends where it ends with them, unless one
of them stops the matching by its price. -/
theorem exits (without : Without hidden first second) (tidy : first.Tidy)
    (otherTidy : second.Tidy)
    (positive : ∀ order ∈ first.book.queue .sell, hidden order = true →
      0 < (first.heap order).priceScaled)
    (ends : first.matchPass = none) : second.matchPass = none := by
  by_contra goesOn
  have matched : second.book.hasMatch = true := by
    by_contra unmatched
    exact goesOn (otherTidy.matchPass_eq_none_iff.mpr
      (Bool.eq_false_iff.mpr unmatched))
  obtain ⟨bid, bids, ask, asks, buyQueue, sellQueue, askPositive, crossed⟩ :=
    otherTidy.hasMatch_iff.mp matched
  have bidStands : bid ∈ second.book.standing :=
    OrderBook.mem_standing_iff.mpr ⟨.buy, by simp [buyQueue]⟩
  have askStands : ask ∈ second.book.standing :=
    OrderBook.mem_standing_iff.mpr ⟨.sell, by simp [sellQueue]⟩
  have bidMember : bid ∈ first.book.queue .buy := by
    have member : bid ∈ second.book.queue .buy := by simp [buyQueue]
    rw [without.queues] at member
    exact List.mem_of_mem_filter member
  have askMember : ask ∈ first.book.queue .sell := by
    have member : ask ∈ second.book.queue .sell := by simp [sellQueue]
    rw [without.queues] at member
    exact List.mem_of_mem_filter member
  rw [without.fields ask askStands] at askPositive
  rw [without.fields ask askStands, without.fields bid bidStands] at crossed
  obtain ⟨bestBid, laterBids, buyHead⟩ :=
    List.exists_cons_of_ne_nil (List.ne_nil_of_mem bidMember)
  obtain ⟨bestAsk, laterAsks, sellHead⟩ :=
    List.exists_cons_of_ne_nil (List.ne_nil_of_mem askMember)
  have bidBest := not_lt.mp (tidy.not_better_head buyHead bidMember)
  have askBest := not_lt.mp (tidy.not_better_head sellHead askMember)
  have bestMember : bestAsk ∈ first.book.queue .sell := by simp [sellHead]
  have bestPositive : 0 < (first.heap bestAsk).priceScaled := by
    cases isHidden : hidden bestAsk with
    | true => exact positive bestAsk bestMember isHidden
    | false =>
        -- A shown head heads the other queue too.
        have inSecond : bestAsk ∈ second.book.queue .sell := by
          rw [without.queues, List.mem_filter, isHidden]
          exact ⟨bestMember, rfl⟩
        have notBetter := not_lt.mp (otherTidy.not_better_head sellQueue inSecond)
        have stands : bestAsk ∈ second.book.standing :=
          OrderBook.mem_standing_iff.mpr ⟨.sell, inSecond⟩
        rw [without.fields ask askStands, without.fields bestAsk stands]
          at notBetter
        exact askPositive.trans_le notBetter
  have firstMatched : first.book.hasMatch = true :=
    tidy.hasMatch_iff.mpr ⟨_, _, _, _, buyHead, sellHead, bestPositive,
      askBest.trans (crossed.trans bidBest)⟩
  rw [tidy.matchPass_eq_none_iff, firstMatched] at ends
  cases ends

end Without

end Engine

/-- The second machine is the first one without the hidden orders. -/
structure Machine.Without (hidden : OrderPtr → Bool) (first second : Machine) :
    Prop where
  engine : first.engine.Without hidden second.engine
  lastTrade : second.lastTrade = first.lastTrade
  phase : second.phase = first.phase

/-- The step has nothing to do with hidden orders, and they do not stop the
matching by their price. -/
def Event.Spares (hidden : OrderPtr → Bool) (engine : Engine) : Event → Prop
  | .addOrder order _ _ => hidden order = false
  | .cancelOrder id _ | .modifyOrder id _ _ _ =>
      ∀ order, engine.book.orderMap id = some order → hidden order = false
  | .matchOrders => True
  | .executeTrade fill => hidden fill.bid = false ∧ hidden fill.ask = false
  | .matchReturn _ => ∀ order ∈ engine.book.queue .sell,
      hidden order = true → 0 < (engine.heap order).priceScaled

section Steps

variable {hidden : OrderPtr → Bool} {first second target : Machine}
  {event : Event} {history : List Event}

/-- A step that spares the hidden orders is a step without them too. -/
theorem Machine.Without.step (without : first.Without hidden second)
    (tidy : first.engine.Tidy) (otherTidy : second.engine.Tidy)
    (spares : event.Spares hidden first.engine) (fresh : FreshCall first event)
    (edge : Step first event target) :
    ∃ other, Guarded FreshCall Step second event other ∧
      target.Without hidden other := by
  obtain ⟨other, _, _⟩ := second
  obtain ⟨shadow, lastTrade, phase⟩ := without
  dsimp only at shadow lastTrade phase otherTidy
  subst lastTrade
  cases edge with
  | @addOrder engine after lastTrade order fields result returns =>
      subst phase
      have absent : order ∉ other.book.standing := fun stands =>
        fresh.1 (shadow.stood stands)
      have free : fields.quantity ≠ 0 →
          engine.Fresh order fields.id := fun quantity =>
        ⟨fresh.1, fresh.2 quantity⟩
      obtain ⟨sameResult, after⟩ := (shadow.store fresh.1 fields).addOrder
        (tidy.store fresh.1 fields) (otherTidy.store absent fields) spares
        (fun quantity => store_fresh (free (by
          rwa [Engine.store_heap_self] at quantity)))
        (by rw [Engine.store_heap_self, Engine.store_heap_self])
      rw [returns] at sameResult after
      have otherReturns : (other.store order fields).addOrder (some order) =
          (result, ((other.store order fields).addOrder (some order)).2) :=
        Prod.ext sameResult rfl
      exact ⟨_, ⟨⟨absent, fun quantity => (shadow.fresh (free quantity)).2⟩,
        .addOrder otherReturns⟩, after, rfl, rfl⟩
  | @cancelOrder engine after lastTrade id result returns =>
      subst phase
      obtain ⟨sameResult, after⟩ := shadow.cancelOrder tidy otherTidy spares
      rw [returns] at sameResult after
      have otherReturns : other.cancelOrder id =
          (result, (other.cancelOrder id).2) := Prod.ext sameResult rfl
      exact ⟨_, ⟨trivial, .cancelOrder otherReturns⟩, after, rfl, rfl⟩
  | @modifyOrder engine after lastTrade id newPrice newQuantity result returns =>
      subst phase
      obtain ⟨sameResult, after⟩ := shadow.modifyOrder tidy otherTidy spares
        newPrice newQuantity
      rw [returns] at sameResult after
      have otherReturns : other.modifyOrder id newPrice newQuantity =
          (result, (other.modifyOrder id newPrice newQuantity).2) :=
        Prod.ext sameResult rfl
      exact ⟨_, ⟨trivial, .modifyOrder otherReturns⟩, after, rfl, rfl⟩
  | matchOrders =>
      subst phase
      exact ⟨_, ⟨trivial, .matchOrders⟩, shadow, rfl, rfl⟩
  | executeTrade pass =>
      subst phase
      obtain ⟨otherAfter, otherPass, after⟩ :=
        shadow.matchPass tidy otherTidy pass spares.1 spares.2
      exact ⟨_, ⟨trivial, .executeTrade otherPass⟩, after, rfl, rfl⟩
  | matchReturn exits =>
      subst phase
      exact ⟨_, ⟨trivial, .matchReturn
        (shadow.exits tidy otherTidy spares exits)⟩, shadow, rfl, rfl⟩

/-- A run whose steps spare the hidden orders, by an invariant of theirs, is a
run without them too. -/
theorem Machine.Without.run (property : Engine → Prop)
    (run : Run (Guarded FreshCall Step) first history target)
    (without : first.Without hidden second) (tidy : first.engine.Tidy)
    (otherTidy : second.engine.Tidy) (atStart : property first.engine)
    (preserved : ∀ event ∈ history, ∀ {before after}, before.Tidy →
      property before → Effect before event after → property after)
    (spares : ∀ event ∈ history, ∀ {machine}, machine.engine.Tidy →
      property machine.engine → FreshCall machine event →
        event.Spares hidden machine.engine) :
    target.engine.Tidy ∧ property target.engine ∧
      ∃ other, Run (Guarded FreshCall Step) second history other ∧
        other.engine.Tidy ∧ target.Without hidden other := by
  induction run with
  | start => exact ⟨tidy, atStart, second, .start, otherTidy, without⟩
  | @next history source target event _ edge ih =>
      obtain ⟨preservedNow, preservedBefore⟩ := List.forall_mem_cons.mp preserved
      obtain ⟨sparesNow, sparesBefore⟩ := List.forall_mem_cons.mp spares
      obtain ⟨tidy, holds, other, otherRun, otherTidy, without⟩ :=
        ih preservedBefore sparesBefore
      obtain ⟨tidyAfter, effect⟩ := Step.effect tidy edge.1 edge.2
      obtain ⟨after, otherEdge, withoutAfter⟩ := without.step tidy otherTidy
        (sparesNow tidy holds edge.1) edge.1 edge.2
      exact ⟨tidyAfter, preservedNow tidy holds effect, after,
        otherRun.next otherEdge,
        (Step.effect otherTidy otherEdge.1 otherEdge.2).1, withoutAfter⟩

end Steps

/-- The order stands with the identifier, price and side that it was added
with. -/
structure Engine.Rests (order : OrderPtr) (fields : Order) (engine : Engine) :
    Prop where
  stands : order ∈ engine.book.standing
  id : (engine.heap order).id = fields.id
  price : (engine.heap order).priceScaled = fields.priceScaled
  side : (engine.heap order).side = fields.side

/-- The step neither names the order nor trades with it. -/
def Event.LeavesAlone (order : OrderPtr) (id : OrderId) : Event → Prop
  | .cancelOrder other _ | .modifyOrder other _ _ _ => other ≠ id
  | .executeTrade fill => fill.bid ≠ order ∧ fill.ask ≠ order
  | .addOrder .. | .matchOrders | .matchReturn _ => True

instance (order : OrderPtr) (id : OrderId) :
    DecidablePred (Event.LeavesAlone order id)
  | .cancelOrder other _ | .modifyOrder other _ _ _ =>
      inferInstanceAs (Decidable (other ≠ id))
  | .executeTrade fill =>
      inferInstanceAs (Decidable (fill.bid ≠ order ∧ fill.ask ≠ order))
  | .addOrder .. | .matchOrders | .matchReturn _ => .isTrue trivial

section Rests

variable {before after : Engine} {event : Event} {order : OrderPtr}
  {fields : Order}

namespace Engine.Rests

theorem of_heap (rests : before.Rests order fields)
    (stands : order ∈ after.book.standing)
    (heap : after.heap order = before.heap order) :
    after.Rests order fields :=
  ⟨stands, by rw [heap, rests.id], by rw [heap, rests.price],
    by rw [heap, rests.side]⟩

theorem bookSide (rests : before.Rests order fields) :
    (before.heap order).bookSide = fields.bookSide := by
  rw [Order.bookSide, Order.bookSide, Order.isBuy, Order.isBuy, rests.side]

/-- An order with another identifier is another order. -/
theorem ne (rests : before.Rests order fields) {other : OrderPtr}
    (alone : (before.heap other).id ≠ fields.id) : order ≠ other := by
  rintro rfl
  exact alone rests.id

/-- Erasing another order leaves it standing. -/
theorem mem_erase (rests : before.Rests order fields) {other : OrderPtr}
    (differ : order ≠ other) : ∃ side, order ∈ (before.book.queue side).erase
      other := by
  obtain ⟨side, member⟩ := OrderBook.mem_standing_iff.mp rests.stands
  exact ⟨side, (List.mem_erase_of_ne differ).mpr member⟩

/-- An order rests until it is named or traded. -/
theorem effect (rests : before.Rests order fields)
    (alone : event.LeavesAlone order fields.id)
    (effect : Effect before event after) : after.Rests order fields := by
  cases effect with
  | cancelAbsent | modifyAbsent | entered | returned => exact rests
  | refused absent =>
      exact rests.of_heap rests.stands
        (before.store_heap_of_ne (ne_of_mem_of_not_mem rests.stands absent) _)
  | added fresh _ _ heap queues =>
      have differ := ne_of_mem_of_not_mem rests.stands fresh.1
      exact rests.of_heap ((mem_standing_insertBehind queues).mpr
        (.inr (OrderBook.mem_standing_iff.mp rests.stands)))
        (heap_added_of_ne heap differ)
  | cancelled _ afterEq queues =>
      obtain ⟨side, member⟩ := rests.mem_erase (rests.ne alone)
      refine rests.of_heap (OrderBook.mem_standing_iff.mpr ⟨side, ?_⟩) ?_
      · rwa [queues]
      · rw [afterEq]
        rfl
  | emptied _ queues =>
      obtain ⟨side, member⟩ := rests.mem_erase (rests.ne alone)
      refine rests.of_heap (OrderBook.mem_standing_iff.mpr ⟨side, ?_⟩)
        (withdrawn_heap_of_ne _ (rests.ne alone) _ _)
      rwa [queues]
  | modified _ _ _ heap queues =>
      exact rests.of_heap ((mem_standing_insertBehind queues).mpr
        (.inr (rests.mem_erase (rests.ne alone))))
        (heap_modified_of_ne heap (rests.ne alone))
  | @traded fill bids asks _ _ passed =>
      refine rests.of_heap ?_
        (passed.heap_of_ne (Ne.symm alone.1) (Ne.symm alone.2))
      obtain ⟨side, member⟩ := OrderBook.mem_standing_iff.mp rests.stands
      refine OrderBook.mem_standing_iff.mpr ⟨side, ?_⟩
      cases side with
      | buy =>
          rw [passed.buyQueue] at member
          rw [passed.buyQueueAfter]
          split
          · exact (List.mem_cons.mp member).resolve_left (Ne.symm alone.1)
          · exact member
      | sell =>
          rw [passed.sellQueue] at member
          rw [passed.sellQueueAfter]
          split
          · exact (List.mem_cons.mp member).resolve_left (Ne.symm alone.2)
          · exact member

/-- Steps that leave the order alone spare it, when it is a buy or has a
positive price. -/
theorem spares {machine : Machine}
    (rests : machine.engine.Rests order fields) (tidy : machine.engine.Tidy)
    (harmless : fields.isBuy = true ∨ 0 < fields.priceScaled)
    (fresh : FreshCall machine event)
    (alone : event.LeavesAlone order fields.id) :
    event.Spares (fun other => other = order) machine.engine := by
  have named {id : OrderId} (differ : id ≠ fields.id) (other : OrderPtr)
      (indexed : machine.engine.book.orderMap id = some other) :
      decide (other = order) = false := by
    apply decide_eq_false
    rintro rfl
    apply differ
    rw [← rests.id, ((tidy.consistent.indexed id other).mp indexed).2]
  cases event with
  | addOrder other =>
      exact decide_eq_false (ne_of_mem_of_not_mem rests.stands fresh.1).symm
  | cancelOrder | modifyOrder => exact named alone
  | matchOrders => trivial
  | executeTrade => exact ⟨decide_eq_false alone.1, decide_eq_false alone.2⟩
  | matchReturn =>
      intro other member isOrder
      obtain rfl := of_decide_eq_true isOrder
      rw [rests.price]
      refine harmless.resolve_left fun buys => ?_
      have side := tidy.consistent.bookSide member
      rw [rests.bookSide, Order.bookSide, buys] at side
      cases side

end Engine.Rests

end Rests

section Runs

variable {heap : Heap} {clock : Nat → Timestamp} {order : OrderPtr}
  {fields : Order} {earlier between later : List Event} {machine : Machine}

/-- An engine with an order just added is, without the order, the engine
before. -/
theorem without_added {before after : Engine}
    (stamped : fields.timestampNs ≠ 0)
    (effect : Effect before (.addOrder order fields true) after) :
    after.Rests order fields ∧
      after.Without (fun other => other = order) before := by
  cases effect with
  | added fresh quantity afterEq heap queues =>
      have self := heap_added_self heap
      refine ⟨⟨(mem_standing_insertBehind queues).mpr (.inl rfl), self.1,
        self.2.1, self.2.2.2⟩, ?_, fun side => ?_, fun other stands => ?_⟩
      · have written := before.store_heap_self order fields
        rw [afterEq, Engine.addOrder_of_quantity (by rwa [written])]
        change _ = ((before.store order fields).stamp order).clock
        rw [Engine.stamp, written, if_neg stamped]
        rfl
      · have unchanged : (before.book.queue side).filter
            (fun other => !decide (other = order)) = before.book.queue side := by
          apply List.filter_eq_self.mpr
          intro other member
          have stands := OrderBook.mem_standing_iff.mpr ⟨side, member⟩
          simpa using ne_of_mem_of_not_mem stands fresh.1
        rw [queues]
        split
        · rw [filter_insertBehind_of_not (by simp), unchanged]
        · rw [unchanged]
      · exact (heap_added_of_ne heap
          (ne_of_mem_of_not_mem stands fresh.1)).symm

/-- Cancelling an order leaves what the engine was without it. -/
theorem without_cancelled {before after other : Engine} (tidy : before.Tidy)
    (rests : before.Rests order fields)
    (without : before.Without (fun other => other = order) other)
    (effect : Effect before (.cancelOrder fields.id true) after) :
    after.Without (fun _ => false) other := by
  generalize names : fields.id = id at effect
  cases effect with
  | @cancelled cancelled _ stands afterEq queues =>
      obtain rfl : order = cancelled :=
        tidy.consistent.eq_of_id_eq rests.stands stands (rests.id.trans names)
      have heap : after.heap = before.heap := by rw [afterEq]; rfl
      refine ⟨?_, fun side => ?_, fun present presentStands => ?_⟩
      · rw [without.clock, afterEq]
        rfl
      · rw [without.queues, queues, (tidy.consistent.nodup side).erase_eq_filter]
        simp [bne, BEq.beq]
      · rw [heap]
        exact without.fields present presentStands

/-- An order with its own timestamp that no other call names and that is
cancelled before it trades leaves no trace in a fresh run: the history without
the order is the history of a run with the same trades that leaves the same
orders in the same queues, with the same fields. -/
theorem freshRun_forgets
    (run : FreshRun heap clock (later ++ .cancelOrder fields.id true ::
      (between ++ .addOrder order fields true :: earlier)) machine)
    (stamped : fields.timestampNs ≠ 0)
    (harmless : fields.isBuy = true ∨ 0 < fields.priceScaled)
    (alone : ∀ event ∈ between, event.LeavesAlone order fields.id) :
    ∃ other, FreshRun heap clock (later ++ (between ++ earlier)) other ∧
      machine.engine.Agrees other.engine ∧
      other.engine.clock = machine.engine.clock ∧
      other.lastTrade = machine.lastTrade ∧ other.phase = machine.phase := by
  obtain ⟨cancelled, run, runLater⟩ := run.split
  cases run with
  | @next _ resting _ _ run cancels =>
  obtain ⟨added, run, runBetween⟩ := run.split
  cases run with
  | @next _ before _ _ run adds =>
  have tidy := FreshRun.tidy run
  obtain ⟨tidyAdded, effect⟩ := Step.effect tidy adds.1 adds.2
  obtain ⟨rests, without⟩ := without_added stamped effect
  have same : added.Without (fun other => other = order) before := by
    cases adds.2
    exact ⟨without, rfl, rfl⟩
  obtain ⟨tidyResting, restsStill, second, secondRun, tidySecond, same⟩ :=
    same.run (Engine.Rests order fields) runBetween tidyAdded tidy rests
      (fun event member _ _ _ rests effect =>
        rests.effect (alone event member) effect)
      (fun event member _ tidy rests fresh =>
        rests.spares tidy harmless fresh (alone event member))
  obtain ⟨tidyCancelled, effect⟩ := Step.effect tidyResting cancels.1 cancels.2
  have nothing := without_cancelled tidyResting restsStill same.engine effect
  have same : cancelled.Without (fun _ => false) second := by
    obtain ⟨-, lastTrade, phase⟩ := same
    cases cancels.2
    exact ⟨nothing, lastTrade, phase⟩
  obtain ⟨-, -, other, otherRun, -, engine, lastTrade, phase⟩ :=
    same.run (fun _ => True) runLater tidyCancelled tidySecond trivial
      (fun _ _ _ _ _ _ _ => trivial)
      (fun event _ _ _ _ _ => by cases event <;> simp [Event.Spares])
  refine ⟨other, (run.trans secondRun).trans otherRun, ⟨fun side => ?_, ?_⟩,
    engine.clock, lastTrade, phase⟩
  · rw [engine.queues]
    exact List.filter_eq_self.mpr fun _ _ => rfl
  · intro present stands
    exact engine.fields present (engine.stays stands rfl)

/-- A sell trades with the better of two buys while the other one rests. -/
def tradePast : List Event :=
  [.matchReturn 1, .executeTrade ⟨1, 3, ⟨1, 3, 3, 100, 3⟩⟩, .matchOrders,
    .addOrder 3 (Order.new 3 false 3 100 0) true]

theorem freshRun_forgets_tradePast :
    ∃ machine other,
      FreshRun zeroHeap tickingClock (.cancelOrder 2 true ::
        (tradePast ++ [.addOrder 2 (Order.new 2 true 4 80 7) true,
          .addOrder 1 (Order.new 1 true 5 100 0) true])) machine ∧
      FreshRun zeroHeap tickingClock
        (tradePast ++ [.addOrder 1 (Order.new 1 true 5 100 0) true]) other ∧
      machine.engine.Agrees other.engine := by
  obtain ⟨machine, run, -⟩ := exists_guardedRun_of_replay FreshCall zeroHeap
    tickingClock (.cancelOrder 2 true ::
      (tradePast ++ [.addOrder 2 (Order.new 2 true 4 80 7) true,
        .addOrder 1 (Order.new 1 true 5 100 0) true])) (fun _ => true)
    (by decide)
  have shaped : FreshRun zeroHeap tickingClock
      ([] ++ .cancelOrder (Order.new 2 true 4 80 7).id true ::
        (tradePast ++ .addOrder 2 (Order.new 2 true 4 80 7) true ::
          [.addOrder 1 (Order.new 1 true 5 100 0) true])) machine := run
  obtain ⟨other, otherRun, agrees, -⟩ :=
    freshRun_forgets shaped (by decide) (by decide) (by decide)
  exact ⟨machine, other, run, otherRun, agrees⟩

end Runs

end TradingMatcher
