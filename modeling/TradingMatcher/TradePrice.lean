import TradingMatcher.OrderEntry

/-!
# Which order sets the price of a trade

The matcher gives a trade the price of the order with the earlier timestamp.
When the book stamps every order and the clock never goes back, that is the
order that entered first, except that equal timestamps always give the price of
the sell.
-/

namespace TradingMatcher

open PriceTime

/-- A step only reads the clock on. -/
theorem Effect.exists_readings {before after : Engine} {event : Event}
    (effect : Effect before event after) :
    ∃ readings, after.clock = fun index => before.clock (index + readings) := by
  have stamp (engine : Engine) (order : OrderPtr) : ∃ readings,
      (engine.stamp order).clock =
        fun index => engine.clock (index + readings) := by
    rw [Engine.stamp]
    split
    · exact ⟨1, rfl⟩
    · exact ⟨0, rfl⟩
  cases effect with
  | refused => exact ⟨0, rfl⟩
  | @added order fields _ _ quantity afterEq =>
      have given : ((before.store order fields).heap order).quantity ≠ 0 := by
        rwa [before.store_heap_self]
      rw [afterEq, Engine.addOrder_of_quantity given]
      exact stamp _ _
  | cancelAbsent => exact ⟨0, rfl⟩
  | cancelled _ afterEq => exact ⟨0, by rw [afterEq]; rfl⟩
  | modifyAbsent => exact ⟨0, rfl⟩
  | emptied => exact ⟨1, rfl⟩
  | @modified order newPrice newQuantity _ _ quantity afterEq =>
      have given : ((before.withdrawn order newPrice newQuantity).heap
          order).quantity ≠ 0 := by
        rwa [Engine.withdrawn_heap_self]
      obtain ⟨readings, stamped⟩ :=
        stamp (before.withdrawn order newPrice newQuantity) order
      rw [afterEq, Engine.addOrder_of_quantity given]
      exact ⟨readings + 1, stamped⟩
  | entered => exact ⟨0, rfl⟩
  | traded _ passed => exact ⟨1, passed.clock⟩
  | returned => exact ⟨0, rfl⟩

/-- The step adds no order that already has a timestamp. -/
def Event.Unstamped : Event → Prop
  | .addOrder _ fields _ => fields.timestampNs = 0
  | _ => True

instance : DecidablePred Event.Unstamped
  | .addOrder _ fields _ => inferInstanceAs (Decidable (fields.timestampNs = 0))
  | .cancelOrder .. => .isTrue trivial
  | .modifyOrder .. => .isTrue trivial
  | .matchOrders => .isTrue trivial
  | .executeTrade _ => .isTrue trivial
  | .matchReturn _ => .isTrue trivial

/-- An entering order is stamped with the next reading of the clock. -/
theorem Enters.timestampNs_eq {before after : Engine} {event : Event}
    {order : OrderPtr} (enters : Enters before event after order)
    (unstamped : event.Unstamped) (reads : before.clock 0 ≠ 0) :
    (after.heap order).timestampNs = before.clock 0 := by
  have entering := enters.entering
  cases event with
  | addOrder subject fields result =>
      have noTime : fields.timestampNs = 0 := unstamped
      rw [Engine.entering?] at entering
      split at entering
      · cases entering
      · obtain ⟨-, terms⟩ := Prod.mk.inj (Option.some.inj entering)
        rw [← terms, Engine.stamped, if_pos noTime]
  | modifyOrder id newPrice newQuantity result =>
      rw [Engine.entering?] at entering
      split at entering
      · cases entering
      · obtain ⟨subject, -, pair⟩ := Option.map_eq_some_iff.mp entering
        obtain ⟨-, terms⟩ := Prod.mk.inj pair
        have hasTime :
            (before.modifiedFields subject newPrice newQuantity).timestampNs ≠
              0 := reads
        rw [← terms, Engine.stamped, if_neg hasTime]
        rfl
  | cancelOrder => cases entering
  | matchOrders => cases entering
  | executeTrade => cases entering
  | matchReturn => cases entering

/-- The clock reads positive and never goes back, what stands was stamped in
the past, and earlier entries have no later timestamps. -/
structure Timed (history : List Event) (engine : Engine) : Prop where
  positive : ∀ index, 0 < engine.clock index
  monotone : Monotone engine.clock
  past : ∀ order ∈ engine.book.standing,
    (engine.heap order).timestampNs ≤ engine.clock 0
  ordered : ∀ first ∈ engine.book.standing, ∀ second ∈ engine.book.standing,
    EnteredBefore history (engine.heap first).id (engine.heap second).id →
      (engine.heap first).timestampNs ≤ (engine.heap second).timestampNs

theorem Timed.step {before after : Engine} {event : Event}
    {history : List Event} (timed : Timed history before) (tidy : before.Tidy)
    (tidyAfter : after.Tidy) (unstamped : event.Unstamped)
    (effect : Effect before event after) :
    Timed (event :: history) after := by
  obtain ⟨readings, clock⟩ := effect.exists_readings
  have kept {order : OrderPtr} (stays : Stays before event after order) :
      (after.heap order).timestampNs = (before.heap order).timestampNs := by
    obtain ⟨quantity, terms⟩ := stays.terms
    rw [terms]
  have stamped {order : OrderPtr} (enters : Enters before event after order) :
      (after.heap order).timestampNs = before.clock 0 :=
    enters.timestampNs_eq unstamped (timed.positive 0).ne'
  have past (order : OrderPtr) (stands : order ∈ after.book.standing) :
      (after.heap order).timestampNs ≤ before.clock 0 := by
    rcases effect.stays_or_enters tidy tidyAfter stands with stays | enters
    · rw [kept stays]
      exact timed.past order stays.stood
    · exact (stamped enters).le
  refine ⟨fun index => ?_, ?_, fun order stands => ?_, ?_⟩
  · rw [clock]
    exact timed.positive _
  · rw [clock]
    exact fun first second less =>
      timed.monotone (Nat.add_le_add_right less readings)
  · rw [clock]
    exact (past order stands).trans (timed.monotone (Nat.zero_le _))
  · intro first firstStands second secondStands entered
    rcases effect.stays_or_enters tidy tidyAfter secondStands with
      secondStays | secondEnters
    · rcases effect.stays_or_enters tidy tidyAfter firstStands with
        firstStays | firstEnters
      · rw [kept firstStays, kept secondStays]
        apply timed.ordered first firstStays.stood second secondStays.stood
        rwa [EnteredBefore, firstStays.entryIndex?_eq,
          secondStays.entryIndex?_eq] at entered
      · -- The newest entry is not before any other.
        obtain ⟨newest, other, isNewest, isOther, less⟩ := entered
        rw [firstEnters.entryIndex?_eq] at isNewest
        rw [secondStays.entryIndex?_eq] at isOther
        obtain rfl := Option.some.inj isNewest
        exact (less.asymm (entryIndex?_lt isOther)).elim
    · rw [stamped secondEnters]
      exact past first firstStands

section Runs

variable {heap : Heap} {clock : Nat → Timestamp} {history : List Event}
  {machine : Machine}

theorem FreshRun.timed (run : FreshRun heap clock history machine)
    (positive : ∀ index, 0 < clock index) (monotone : Monotone clock)
    (unstamped : ∀ event ∈ history, event.Unstamped) :
    Timed history machine.engine := by
  revert unstamped
  apply run.invariant_of_effect fun history engine =>
    (∀ event ∈ history, event.Unstamped) → Timed history engine
  · intro _
    refine ⟨positive, monotone, ?_, ?_⟩ <;>
    · intro order stands
      simp at stands
  · intro earlier before event after tidy tidyAfter held effect unstamped
    have timed := held fun other member => unstamped other (.tail _ member)
    exact timed.step tidy tidyAfter (unstamped event List.mem_cons_self) effect

/-- The price of a trade is that of its order that entered first. -/
def FirstSetsPrice (history : List Event) (before : Engine) (fill : Fill) :
    Prop :=
  (EnteredBefore history fill.trade.buyOrderId fill.trade.sellOrderId →
      fill.trade.priceScaled = (before.heap fill.bid).priceScaled) ∧
    (EnteredBefore history fill.trade.sellOrderId fill.trade.buyOrderId →
      fill.trade.priceScaled = (before.heap fill.ask).priceScaled)

/-- The buy of a trade entered first, at another price, and the clock read the
same for both orders. -/
structure TiedWithSell (history : List Event) (before : Engine) (fill : Fill) :
    Prop where
  buyFirst :
    EnteredBefore history fill.trade.buyOrderId fill.trade.sellOrderId
  sameTime : (before.heap fill.bid).timestampNs =
    (before.heap fill.ask).timestampNs
  otherPrice : (before.heap fill.bid).priceScaled ≠
    (before.heap fill.ask).priceScaled

theorem Engine.Passed.firstSetsPrice_iff {before after : Engine} {fill : Fill}
    {bids asks : List OrderPtr} (passed : before.Passed fill bids asks after)
    (timed : Timed history before) :
    FirstSetsPrice history before fill ↔ ¬ TiedWithSell history before fill := by
  have buys := passed.buyOrderId_eq
  have sells := passed.sellOrderId_eq
  have price : fill.trade.priceScaled =
      if (before.heap fill.bid).timestampNs <
          (before.heap fill.ask).timestampNs then
        (before.heap fill.bid).priceScaled
      else (before.heap fill.ask).priceScaled := by
    rw [passed.trade, Engine.matchPrice]
  constructor
  · intro sets tied
    have fromBuy := sets.1 tied.buyFirst
    rw [price, if_neg (not_lt.mpr tied.sameTime.ge)] at fromBuy
    exact tied.otherPrice fromBuy.symm
  · intro notTied
    refine ⟨fun buyFirst => ?_, fun sellFirst => ?_⟩
    · rw [price]
      split
      · rfl
      · rename_i notEarlier
        have notLater := timed.ordered _ passed.bid_stands _ passed.ask_stands
          (buys ▸ sells ▸ buyFirst)
        have sameTime := le_antisymm notLater (not_lt.mp notEarlier)
        by_contra otherPrice
        exact notTied ⟨buyFirst, sameTime, fun same => otherPrice same.symm⟩
    · have notLater := timed.ordered _ passed.ask_stands _ passed.bid_stands
        (buys ▸ sells ▸ sellFirst)
      rw [price, if_neg (not_lt.mpr notLater)]

/-- Over a clock that never goes back, and with no order stamped by its caller,
each trade of a run has the price of its order that entered first exactly when
its orders are not tied. -/
theorem freshRun_firstSetsPrice_iff
    (run : FreshRun heap clock history machine)
    (positive : ∀ index, 0 < clock index) (monotone : Monotone clock)
    (unstamped : ∀ event ∈ history, event.Unstamped) :
    ∀ later fill earlier, history = later ++ .executeTrade fill :: earlier →
      ∃ before, FreshRun heap clock earlier before ∧
        (before.engine.heap fill.bid).id = fill.trade.buyOrderId ∧
        (before.engine.heap fill.ask).id = fill.trade.sellOrderId ∧
        (EnteredBefore earlier fill.trade.buyOrderId fill.trade.sellOrderId ∨
          EnteredBefore earlier fill.trade.sellOrderId
            fill.trade.buyOrderId) ∧
        (FirstSetsPrice earlier before.engine fill ↔
          ¬ TiedWithSell earlier before.engine fill) := by
  rintro later fill earlier rfl
  obtain ⟨before, after, bids, asks, runBefore, -, -, passed⟩ :=
    run.exists_trade
  have timed := FreshRun.timed runBefore positive monotone
    fun event member => unstamped event (by simp [member])
  have buys := passed.buyOrderId_eq
  have sells := passed.sellOrderId_eq
  refine ⟨before, runBefore, buys.symm, sells.symm, ?_,
    passed.firstSetsPrice_iff timed⟩
  rw [buys, sells]
  exact FreshRun.enteredBefore_or runBefore passed.bid_stands
    passed.ask_stands (passed.bid_ne_ask (FreshRun.tidy runBefore))

/-- A clock that reads the same for ever. -/
def stoppedClock : Nat → Timestamp := fun _ => 1

theorem stoppedClock_pos (index : Nat) : 0 < stoppedClock index := by
  change (0 : Timestamp) < 1
  decide

/-- A buy at 100, then a sell at 90, and a call of the matcher. -/
def tiedOrders : List Event :=
  [.matchOrders, .addOrder 2 (Order.new 2 false 5 90 0) true,
    .addOrder 1 (Order.new 1 true 5 100 0) true]

/-- The trade of the two orders, at the price of the sell. -/
def tiedTrade : Fill := ⟨1, 2, ⟨1, 2, 5, 90, 1⟩⟩

theorem freshRun_firstSetsPrice_iff_tied :
    ∃ machine before,
      FreshRun zeroHeap stoppedClock (.executeTrade tiedTrade :: tiedOrders)
        machine ∧
      FreshRun zeroHeap stoppedClock tiedOrders before ∧
      (FirstSetsPrice tiedOrders before.engine tiedTrade ↔
        ¬ TiedWithSell tiedOrders before.engine tiedTrade) := by
  obtain ⟨machine, run, -⟩ := exists_guardedRun_of_replay FreshCall zeroHeap
    stoppedClock (.executeTrade tiedTrade :: tiedOrders) (fun _ => true)
    (by decide)
  obtain ⟨before, runBefore, -, -, -, sets_iff⟩ :=
    freshRun_firstSetsPrice_iff run stoppedClock_pos monotone_const (by decide)
      [] tiedTrade tiedOrders rfl
  exact ⟨machine, before, run, runBefore, sets_iff⟩

/-- The buy enters first, the clock has not moved when the sell enters, and the
trade is at the price of the sell. -/
theorem tied_trade_has_sell_price :
    (∀ index, 0 < stoppedClock index) ∧ Monotone stoppedClock ∧
    (∀ event ∈ .executeTrade tiedTrade :: tiedOrders, event.Unstamped) ∧
    ∃ machine before,
      FreshRun zeroHeap stoppedClock (.executeTrade tiedTrade :: tiedOrders)
        machine ∧
      FreshRun zeroHeap stoppedClock tiedOrders before ∧
      EnteredBefore tiedOrders tiedTrade.trade.buyOrderId
        tiedTrade.trade.sellOrderId ∧
      (before.engine.heap tiedTrade.bid).priceScaled = 100 ∧
      ¬ FirstSetsPrice tiedOrders before.engine tiedTrade := by
  refine ⟨stoppedClock_pos, monotone_const, by decide, ?_⟩
  obtain ⟨before, runBefore, passes⟩ := exists_guardedRun_of_replay FreshCall
    zeroHeap stoppedClock tiedOrders
    (fun before => (before.engine.heap tiedTrade.bid).priceScaled = 100 ∧
      (before.next? (.executeTrade tiedTrade)).isSome) (by decide)
  obtain ⟨buyPrice, trades⟩ := of_decide_eq_true passes
  obtain ⟨machine, stepped⟩ := Option.isSome_iff_exists.mp trades
  have buyFirst : EnteredBefore tiedOrders tiedTrade.trade.buyOrderId
      tiedTrade.trade.sellOrderId :=
    ⟨0, 1, by decide, by decide, by decide⟩
  refine ⟨machine, before,
    runBefore.next ⟨trivial, Machine.step_iff_next?.mpr stepped⟩, runBefore,
    buyFirst, buyPrice, fun sets => ?_⟩
  have fromBuy := sets.1 buyFirst
  rw [buyPrice] at fromBuy
  exact absurd fromBuy (by decide)

end Runs

end TradingMatcher
