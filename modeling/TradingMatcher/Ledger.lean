import TradingMatcher.StandingOrders

/-!
# The ledger of trades

The history of a run is the ledger of its trades.  For every standing order the
quantity of its last successful add or modify is its present quantity plus what
the trades naming it have taken since then.  An order whose trades add up to
that quantity has left the book, and returns only if it is added again.
-/

namespace TradingMatcher

open PriceTime

/-- The quantity given to an identifier by its last successful add or modify. -/
def baseQuantity? (id : OrderId) : List Event → Option Quantity
  | [] => none
  | .addOrder _ fields true :: earlier =>
      if fields.id = id then some fields.quantity
      else baseQuantity? id earlier
  | .modifyOrder other _ newQuantity true :: earlier =>
      if other = id then some newQuantity else baseQuantity? id earlier
  | _ :: earlier => baseQuantity? id earlier

/-- The quantity of the trades naming an identifier since its last successful
add or modify. -/
def tradedSince (id : OrderId) : List Event → Nat
  | [] => 0
  | .addOrder _ fields true :: earlier =>
      if fields.id = id then 0 else tradedSince id earlier
  | .modifyOrder other _ _ true :: earlier =>
      if other = id then 0 else tradedSince id earlier
  | .executeTrade fill :: earlier =>
      (if fill.trade.Names id then fill.trade.quantity.toNat else 0) +
        tradedSince id earlier
  | _ :: earlier => tradedSince id earlier

theorem ledger_of_not_names {id : OrderId} {event : Event}
    (unnamed : ¬ event.Names id) (earlier : List Event) :
    baseQuantity? id (event :: earlier) = baseQuantity? id earlier ∧
      tradedSince id (event :: earlier) = tradedSince id earlier := by
  cases event with
  | addOrder order fields result =>
      cases result with
      | false => exact ⟨rfl, rfl⟩
      | true => exact ⟨if_neg unnamed, if_neg unnamed⟩
  | modifyOrder other newPrice newQuantity result =>
      cases result with
      | false => exact ⟨rfl, rfl⟩
      | true => exact ⟨if_neg unnamed, if_neg unnamed⟩
  | executeTrade fill =>
      have notTraded : ¬ fill.trade.Names id := unnamed
      refine ⟨rfl, ?_⟩
      rw [tradedSince, if_neg notTraded, Nat.zero_add]
  | cancelOrder => exact ⟨rfl, rfl⟩
  | matchOrders => exact ⟨rfl, rfl⟩
  | matchReturn => exact ⟨rfl, rfl⟩

/-- The quantity given to an order is what it has and what was traded. -/
def Accounted (history : List Event) (engine : Engine) (order : OrderPtr) :
    Prop :=
  ∃ base, baseQuantity? (engine.heap order).id history = some base ∧
    base.toNat = (engine.heap order).quantity.toNat +
      tradedSince (engine.heap order).id history

theorem Fate.accounted {before after : Engine} {order : OrderPtr}
    {event : Event} {earlier : List Event}
    (fate : Fate before order event after)
    (accounted : order ∈ before.book.standing →
      Accounted earlier before order) :
    Accounted (event :: earlier) after order := by
  cases fate with
  | kept stood unnamed heap =>
      obtain ⟨sameBase, sameTraded⟩ := ledger_of_not_names unnamed earlier
      rw [Accounted, heap, sameBase, sameTraded]
      exact accounted stood
  | @traded fill _ stood named enough heap =>
      obtain ⟨base, given, balance⟩ := accounted stood
      have subtraction := UInt32.toNat_sub_of_le _ _ enough
      have bound := UInt32.le_iff_toNat_le.mp enough
      rw [Accounted, heap]
      refine ⟨base, given, ?_⟩
      rw [tradedSince, if_pos named]
      change base.toNat = ((before.heap order).quantity -
        fill.trade.quantity).toNat + (fill.trade.quantity.toNat +
          tradedSince (before.heap order).id earlier)
      omega
  | @modified newPrice newQuantity _ stood id _ quantity =>
      refine ⟨newQuantity, ?_, ?_⟩
      · rw [id]
        exact if_pos rfl
      · rw [id, quantity, tradedSince, if_pos rfl, Nat.add_zero]
  | @added fields _ _ id _ quantity =>
      refine ⟨fields.quantity, ?_, ?_⟩
      · rw [id]
        exact if_pos rfl
      · rw [id, quantity, tradedSince, if_pos rfl, Nat.add_zero]

section Runs

variable {heap : Heap} {clock : Nat → Timestamp} {history : List Event}
  {machine : Machine}

theorem FreshRun.accounted (run : FreshRun heap clock history machine) :
    ∀ order ∈ machine.engine.book.standing,
      Accounted history machine.engine order := by
  apply run.invariant_of_effect fun history engine =>
    ∀ order ∈ engine.book.standing, Accounted history engine order
  · intro order stands
    simp at stands
  · intro earlier before event after tidy _ accounted effect order stands
    exact (effect.fate tidy stands).accounted (accounted order)

/-- The trades of an identifier add up to its whole quantity. -/
def Filled (id : OrderId) (history : List Event) : Prop :=
  ∃ base, baseQuantity? id history = some base ∧
    base.toNat = tradedSince id history

theorem FreshRun.id_ne_of_filled (run : FreshRun heap clock history machine)
    {id : OrderId} (filled : Filled id history) :
    ∀ order ∈ machine.engine.book.standing,
      (machine.engine.heap order).id ≠ id := by
  rintro order stands rfl
  obtain ⟨base, given, whole⟩ := filled
  obtain ⟨_, sameBase, balance⟩ := run.accounted order stands
  obtain rfl := Option.some.inj (given.symm.trans sameBase)
  have quantity := run.tidy.hasQuantity order stands
  apply quantity
  rw [← UInt32.toNat_inj, UInt32.toNat_zero]
  omega

/-- The two orders of a trade stand on their sides, the trade names them, and
takes from both no more than they have. -/
structure TradesStanding (before : Engine) (fill : Fill) : Prop where
  positive : 1 ≤ fill.trade.quantity.toNat
  bidStands : fill.bid ∈ before.book.queue .buy
  askStands : fill.ask ∈ before.book.queue .sell
  bidNamed : fill.trade.buyOrderId = (before.heap fill.bid).id
  askNamed : fill.trade.sellOrderId = (before.heap fill.ask).id
  bidEnough : fill.trade.quantity ≤ (before.heap fill.bid).quantity
  askEnough : fill.trade.quantity ≤ (before.heap fill.ask).quantity

theorem Engine.Passed.tradesStanding {before after : Engine} {fill : Fill}
    {bids asks : List OrderPtr} (passed : before.Passed fill bids asks after)
    (tidy : before.Tidy) : TradesStanding before fill where
  positive := by
    have bidQuantity := tidy.hasQuantity fill.bid passed.bid_stands
    have askQuantity := tidy.hasQuantity fill.ask passed.ask_stands
    rw [← UInt32.pos_iff_ne_zero, UInt32.lt_iff_toNat_lt,
      UInt32.toNat_zero] at bidQuantity askQuantity
    rw [passed.toNat_quantity]
    omega
  bidStands := passed.bid_mem
  askStands := passed.ask_mem
  bidNamed := passed.buyOrderId_eq
  askNamed := passed.sellOrderId_eq
  bidEnough := passed.quantity_le.1
  askEnough := passed.quantity_le.2

/-- An order that a trade has used up: it is gone, and it is traded later only
after it has been added again, as an object or as an identifier. -/
structure Settled (after : Engine) (order : OrderPtr) (id : OrderId)
    (later : List Event) : Prop where
  offLadders : order ∉ after.book.standing
  offIndex : after.book.orderMap id = none
  notTraded : (∀ fields, .addOrder order fields true ∉ later) →
    ∀ fill, .executeTrade fill ∈ later → fill.bid ≠ order ∧ fill.ask ≠ order
  notNamed : (∀ other fields, .addOrder other fields true ∈ later →
      fields.id ≠ id) →
    ∀ fill, .executeTrade fill ∈ later → ¬ fill.trade.Names id

/-- An identifier without a standing order is not traded until it is added. -/
theorem FreshRun.not_named {later earlier : List Event} {id : OrderId}
    (free : ∀ {machine}, FreshRun heap clock earlier machine →
      ∀ order ∈ machine.engine.book.standing,
        (machine.engine.heap order).id ≠ id)
    (run : FreshRun heap clock (later ++ earlier) machine)
    (notAdded : ∀ other fields, .addOrder other fields true ∈ later →
      fields.id ≠ id) :
    (∀ order ∈ machine.engine.book.standing,
        (machine.engine.heap order).id ≠ id) ∧
      ∀ fill, .executeTrade fill ∈ later → ¬ fill.trade.Names id := by
  induction later generalizing machine with
  | nil => exact ⟨free run, fun _ member => nomatch member⟩
  | cons event later ih =>
      cases run with
      | next run edge =>
          obtain ⟨absent, notTraded⟩ := ih run fun other fields member =>
            notAdded other fields (List.mem_cons_of_mem _ member)
          have tidy := FreshRun.tidy run
          obtain ⟨-, effect⟩ := Step.effect tidy edge.1 edge.2
          constructor
          · intro order stands
            rcases (effect.fate tidy stands).stood_or_added with
              ⟨stood, sameId⟩ | ⟨fields, rfl, newId⟩
            · rw [sameId]
              exact absent order stood
            · rw [newId]
              exact notAdded order fields List.mem_cons_self
          · intro fill member
            rcases List.mem_cons.mp member with rfl | member
            · cases effect with
              | traded _ passed =>
                  have standing := passed.tradesStanding tidy
                  rintro (buys | sells)
                  · exact absent fill.bid (OrderBook.mem_standing_iff.mpr
                      ⟨.buy, standing.bidStands⟩) (standing.bidNamed ▸ buys)
                  · exact absent fill.ask (OrderBook.mem_standing_iff.mpr
                      ⟨.sell, standing.askStands⟩) (standing.askNamed ▸ sells)
            · exact notTraded fill member

/-- An object that does not stand is not traded until it is added. -/
theorem FreshRun.not_traded {later earlier : List Event} {order : OrderPtr}
    (free : ∀ {machine}, FreshRun heap clock earlier machine →
      order ∉ machine.engine.book.standing)
    (run : FreshRun heap clock (later ++ earlier) machine)
    (notAdded : ∀ fields, .addOrder order fields true ∉ later) :
    order ∉ machine.engine.book.standing ∧
      ∀ fill, .executeTrade fill ∈ later →
        fill.bid ≠ order ∧ fill.ask ≠ order := by
  induction later generalizing machine with
  | nil => exact ⟨free run, fun _ member => nomatch member⟩
  | cons event later ih =>
      cases run with
      | next run edge =>
          obtain ⟨absent, notTraded⟩ := ih run fun fields member =>
            notAdded fields (List.mem_cons_of_mem _ member)
          have tidy := FreshRun.tidy run
          obtain ⟨-, effect⟩ := Step.effect tidy edge.1 edge.2
          constructor
          · intro stands
            rcases (effect.fate tidy stands).stood_or_added with
              ⟨stood, -⟩ | ⟨fields, rfl, -⟩
            · exact absent stood
            · exact notAdded fields List.mem_cons_self
          · intro fill member
            rcases List.mem_cons.mp member with rfl | member
            · cases effect with
              | traded _ passed =>
                  have standing := passed.tradesStanding tidy
                  constructor
                  · rintro rfl
                    exact absent (OrderBook.mem_standing_iff.mpr
                      ⟨.buy, standing.bidStands⟩)
                  · rintro rfl
                    exact absent (OrderBook.mem_standing_iff.mpr
                      ⟨.sell, standing.askStands⟩)
            · exact notTraded fill member

/-- What a filled identifier of a trade promises for the rest of the run. -/
theorem FreshRun.settled {later earlier : List Event}
    (run : FreshRun heap clock (later ++ earlier) machine) {after : Machine}
    (runAfter : FreshRun heap clock earlier after) {order : OrderPtr}
    {id : OrderId} (filled : Filled id earlier)
    (keepsId : ∀ {machine}, FreshRun heap clock earlier machine →
      (machine.engine.heap order).id = id) :
    Settled after.engine order id later where
  offLadders stands :=
    runAfter.id_ne_of_filled filled order stands (keepsId runAfter)
  offIndex := by
    cases indexed : after.engine.book.orderMap id with
    | none => rfl
    | some other =>
        obtain ⟨stands, sameId⟩ :=
          (runAfter.tidy.consistent.indexed id other).mp indexed
        exact (runAfter.id_ne_of_filled filled other stands sameId).elim
  notTraded notAdded := (FreshRun.not_traded (fun run stands =>
    FreshRun.id_ne_of_filled run filled order stands (keepsId run)) run
      notAdded).2
  notNamed notAdded := (FreshRun.not_named (fun run =>
    FreshRun.id_ne_of_filled run filled) run notAdded).2

theorem FreshRun.traded_ids {earlier : List Event} {fill : Fill}
    (run : FreshRun heap clock (.executeTrade fill :: earlier) machine) :
    (machine.engine.heap fill.bid).id = fill.trade.buyOrderId ∧
      (machine.engine.heap fill.ask).id = fill.trade.sellOrderId := by
  cases run with
  | next run edge =>
      have tidy := FreshRun.tidy run
      cases (Step.effect tidy edge.1 edge.2).2 with
      | traded _ passed =>
          rw [(passed.heap_terms fill.bid).1, (passed.heap_terms fill.ask).1]
          exact ⟨passed.buyOrderId_eq.symm, passed.sellOrderId_eq.symm⟩

/-- Quantity is conserved along every fresh run: each standing order is
accounted for by the ledger, each trade is between two standing orders and takes
from neither more than it has, and an order that is used up is gone. -/
theorem freshRun_conserves_quantity
    (run : FreshRun heap clock history machine) :
    (∀ order ∈ machine.engine.book.standing,
      Accounted history machine.engine order) ∧
    ∀ later fill earlier, history = later ++ .executeTrade fill :: earlier →
      ∃ before after, FreshRun heap clock earlier before ∧
        Step before (.executeTrade fill) after ∧
        TradesStanding before.engine fill ∧
        (Filled fill.trade.buyOrderId (.executeTrade fill :: earlier) →
          Settled after.engine fill.bid fill.trade.buyOrderId later) ∧
        (Filled fill.trade.sellOrderId (.executeTrade fill :: earlier) →
          Settled after.engine fill.ask fill.trade.sellOrderId later) := by
  refine ⟨run.accounted, ?_⟩
  rintro later fill earlier rfl
  obtain ⟨before, after, bids, asks, runBefore, runAfter, step, passed⟩ :=
    run.exists_trade
  exact ⟨before, after, runBefore, step,
    passed.tradesStanding (FreshRun.tidy runBefore),
    fun filled => run.settled runAfter filled
      fun run => (FreshRun.traded_ids run).1,
    fun filled => run.settled runAfter filled
      fun run => (FreshRun.traded_ids run).2⟩

theorem freshRun_conserves_quantity_partial :
    ∃ machine, FreshRun zeroHeap tickingClock
        [.executeTrade ⟨1, 2, ⟨1, 2, 3, 100, 3⟩⟩, .matchOrders,
          .addOrder 2 (Order.new 2 false 3 90 0) true,
          .addOrder 1 (Order.new 1 true 5 100 0) true] machine ∧
      ∀ order ∈ machine.engine.book.standing,
        Accounted [.executeTrade ⟨1, 2, ⟨1, 2, 3, 100, 3⟩⟩, .matchOrders,
          .addOrder 2 (Order.new 2 false 3 90 0) true,
          .addOrder 1 (Order.new 1 true 5 100 0) true] machine.engine order := by
  obtain ⟨machine, run, -⟩ := exists_guardedRun_of_replay FreshCall zeroHeap
    tickingClock [.executeTrade ⟨1, 2, ⟨1, 2, 3, 100, 3⟩⟩, .matchOrders,
      .addOrder 2 (Order.new 2 false 3 90 0) true,
      .addOrder 1 (Order.new 1 true 5 100 0) true] (fun _ => true) (by decide)
  exact ⟨machine, run, (freshRun_conserves_quantity run).1⟩

end Runs

end TradingMatcher
