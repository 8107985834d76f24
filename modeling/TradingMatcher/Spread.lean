import TradingMatcher.CrossedBook
import TradingMatcher.SignedArithmetic

/-!
# The spread

`getSpread` subtracts the cached best prices, and a cached price of zero means an
empty side.  Nothing limits the prices of the orders that are added, so the
difference may leave the range of a price.
-/

namespace TradingMatcher

open PriceTime SignedArithmetic

/-- The spread, or `none` where it overflows. -/
def OrderBook.getSpread (book : OrderBook) : Option Price :=
  if book.bestBidPrice = 0 ∨ book.bestAskPrice = 0 then some 0
  else sub? book.bestAskPrice book.bestBidPrice

namespace Engine

/-- The prices of the standing orders of a side. -/
def prices (engine : Engine) (side : Side) : Set Price :=
  {price | ∃ order ∈ engine.book.queue side,
    (engine.heap order).priceScaled = price}

/-- The spread is the least standing sell price less the greatest standing buy
price, and zero when a side is empty. -/
structure SpreadTrue (engine : Engine) : Prop where
  bothSides : engine.book.queue .buy ≠ [] → engine.book.queue .sell ≠ [] →
    ∃ bid ask spread, IsGreatest (engine.prices .buy) bid ∧
      IsLeast (engine.prices .sell) ask ∧
      engine.book.getSpread = some spread ∧
      spread.toInt = ask.toInt - bid.toInt
  emptySide : engine.book.queue .buy = [] ∨ engine.book.queue .sell = [] →
    engine.book.getSpread = some 0

/-- The best prices of the two sides are equal, or neither of them is zero and
their difference is in the range of a price. -/
def SpreadFits (engine : Engine) : Prop :=
  ∀ bid ask, IsGreatest (engine.prices .buy) bid →
    IsLeast (engine.prices .sell) ask →
      bid = ask ∨ bid ≠ 0 ∧ ask ≠ 0 ∧ Fits (ask.toInt - bid.toInt)

namespace Tidy

variable {engine : Engine}

theorem isGreatest_bid (tidy : engine.Tidy) {bid : OrderPtr}
    {bids : List OrderPtr} (buyQueue : engine.book.queue .buy = bid :: bids) :
    IsGreatest (engine.prices .buy) (engine.heap bid).priceScaled := by
  refine ⟨⟨bid, by simp [buyQueue], rfl⟩, ?_⟩
  rintro _ ⟨order, stands, rfl⟩
  exact not_lt.mp (tidy.not_better_head buyQueue stands)

theorem isLeast_ask (tidy : engine.Tidy) {ask : OrderPtr}
    {asks : List OrderPtr} (sellQueue : engine.book.queue .sell = ask :: asks) :
    IsLeast (engine.prices .sell) (engine.heap ask).priceScaled := by
  refine ⟨⟨ask, by simp [sellQueue], rfl⟩, ?_⟩
  rintro _ ⟨order, stands, rfl⟩
  exact not_lt.mp (tidy.not_better_head sellQueue stands)

/-- An empty side has the cached price zero. -/
theorem getSpread_of_empty (tidy : engine.Tidy)
    (empty : engine.book.queue .buy = [] ∨ engine.book.queue .sell = []) :
    engine.book.getSpread = some 0 := by
  apply if_pos
  apply empty.imp
  · intro noBuy
    have cached := tidy.consistent.bestPrice_eq .buy
    rwa [noBuy] at cached
  · intro noSell
    have cached := tidy.consistent.bestPrice_eq .sell
    rwa [noSell] at cached

/-- With both sides standing, the spread is computed from the best prices. -/
theorem getSpread_of_best (tidy : engine.Tidy) {bid ask : Price}
    (greatest : IsGreatest (engine.prices .buy) bid)
    (least : IsLeast (engine.prices .sell) ask) :
    engine.book.getSpread =
      if bid = 0 ∨ ask = 0 then some 0 else sub? ask bid := by
  obtain ⟨buy, buys, -⟩ := greatest.1
  obtain ⟨sell, sells, -⟩ := least.1
  obtain ⟨bidOrder, bids, buyQueue⟩ :=
    List.exists_cons_of_ne_nil (List.ne_nil_of_mem buys)
  obtain ⟨askOrder, asks, sellQueue⟩ :=
    List.exists_cons_of_ne_nil (List.ne_nil_of_mem sells)
  have bestBid := tidy.consistent.bestPrice_eq .buy
  have bestAsk := tidy.consistent.bestPrice_eq .sell
  rw [buyQueue] at bestBid
  rw [sellQueue] at bestAsk
  rw [greatest.unique (tidy.isGreatest_bid buyQueue),
    least.unique (tidy.isLeast_ask sellQueue)]
  change engine.book.bestBidPrice = (engine.heap bidOrder).priceScaled
    at bestBid
  change engine.book.bestAskPrice = (engine.heap askOrder).priceScaled
    at bestAsk
  rw [OrderBook.getSpread, bestBid, bestAsk]

end Tidy

/-- What is computed from two best prices is their difference if and only if
they are equal, or neither is zero and the difference is a price. -/
theorem exists_spread_iff (bid ask : Price) :
    (∃ spread, (if bid = 0 ∨ ask = 0 then some 0
        else sub? ask bid) = some spread ∧
      spread.toInt = ask.toInt - bid.toInt) ↔
    bid = ask ∨ bid ≠ 0 ∧ ask ≠ 0 ∧ Fits (ask.toInt - bid.toInt) := by
  have equal_iff : bid = ask ↔ ask.toInt - bid.toInt = 0 := by
    rw [← Int64.toInt_inj]
    omega
  by_cases zero : bid = 0 ∨ ask = 0
  · have notBoth :
        ¬(bid ≠ 0 ∧ ask ≠ 0 ∧ Fits (ask.toInt - bid.toInt)) := by
      rintro ⟨bidNonzero, askNonzero, -⟩
      exact zero.elim bidNonzero askNonzero
    rw [if_pos zero, or_iff_left notBoth, equal_iff]
    constructor
    · rintro ⟨spread, isZero, isExact⟩
      obtain rfl := Option.some.inj isZero
      exact isExact.symm
    · intro same
      exact ⟨0, rfl, same.symm⟩
  · rw [if_neg zero, equal_iff]
    obtain ⟨bidNonzero, askNonzero⟩ := not_or.mp zero
    constructor
    · rintro ⟨spread, computed, -⟩
      exact .inr ⟨bidNonzero, askNonzero, exists_sub?_iff.mp ⟨_, computed⟩⟩
    · intro same
      have fits : Fits (ask.toInt - bid.toInt) := by
        rcases same with same | ⟨-, -, fits⟩
        · rw [same]
          exact ⟨by decide, by decide⟩
        · exact fits
      obtain ⟨spread, computed⟩ := exists_sub?_iff.mpr fits
      exact ⟨spread, computed, sub?_eq_some_iff.mp computed⟩

theorem Tidy.spreadTrue_iff {engine : Engine} (tidy : engine.Tidy) :
    engine.SpreadTrue ↔ engine.SpreadFits := by
  constructor
  · intro spreadTrue bid ask greatest least
    obtain ⟨buy, buys, -⟩ := greatest.1
    obtain ⟨sell, sells, -⟩ := least.1
    obtain ⟨highest, lowest, spread, isHighest, isLowest, computed, isExact⟩ :=
      spreadTrue.bothSides (List.ne_nil_of_mem buys) (List.ne_nil_of_mem sells)
    obtain rfl := greatest.unique isHighest
    obtain rfl := least.unique isLowest
    rw [tidy.getSpread_of_best greatest least] at computed
    exact (exists_spread_iff bid ask).mp ⟨spread, computed, isExact⟩
  · intro fits
    refine ⟨?_, tidy.getSpread_of_empty⟩
    intro buys sells
    obtain ⟨bid, bids, buyQueue⟩ := List.exists_cons_of_ne_nil buys
    obtain ⟨ask, asks, sellQueue⟩ := List.exists_cons_of_ne_nil sells
    have greatest := tidy.isGreatest_bid buyQueue
    have least := tidy.isLeast_ask sellQueue
    obtain ⟨spread, computed, isExact⟩ :=
      (exists_spread_iff _ _).mpr (fits _ _ greatest least)
    rw [← tidy.getSpread_of_best greatest least] at computed
    exact ⟨_, _, spread, greatest, least, computed, isExact⟩

end Engine

/-- In every state of a fresh run, the spread is the true one if and only if the
best prices are equal, or neither is zero and their difference is a price. -/
theorem freshRun_spreadTrue_iff {heap : Heap} {clock : Nat → Timestamp}
    {history : List Event} {machine : Machine}
    (run : FreshRun heap clock history machine) :
    machine.engine.SpreadTrue ↔ machine.engine.SpreadFits :=
  run.tidy.spreadTrue_iff

theorem freshRun_spreadTrue_iff_pair :
    ∃ machine, FreshRun zeroHeap tickingClock
        [.addOrder 2 (Order.new 2 false 3 105 0) true,
          .addOrder 1 (Order.new 1 true 5 100 0) true] machine ∧
      (machine.engine.SpreadTrue ↔ machine.engine.SpreadFits) := by
  obtain ⟨machine, run, -⟩ := exists_guardedRun_of_replay FreshCall zeroHeap
    tickingClock [.addOrder 2 (Order.new 2 false 3 105 0) true,
      .addOrder 1 (Order.new 1 true 5 100 0) true] (fun _ => true) (by decide)
  exact ⟨machine, run, freshRun_spreadTrue_iff run⟩

/-- A buy at the least declared price, zero, and a sell at five: the spread is
given as zero. -/
theorem spread_zero_of_free_bid :
    ∃ machine, FreshRun zeroHeap tickingClock
        [.addOrder 2 (Order.new 2 false 5 5 0) true,
          .addOrder 1 (Order.new 1 true 5 0 0) true] machine ∧
      machine.engine.book.getSpread = some 0 ∧
      IsGreatest (machine.engine.prices .buy) 0 ∧
      IsLeast (machine.engine.prices .sell) 5 ∧
      ¬machine.engine.SpreadTrue := by
  obtain ⟨machine, run, passes⟩ := exists_guardedRun_of_replay FreshCall
    zeroHeap tickingClock
    [.addOrder 2 (Order.new 2 false 5 5 0) true,
      .addOrder 1 (Order.new 1 true 5 0 0) true]
    (fun machine => machine.engine.book.getSpread = some 0 ∧
      machine.engine.book.queue .buy = [1] ∧
      machine.engine.book.queue .sell = [2] ∧
      (machine.engine.heap 1).priceScaled = 0 ∧
      (machine.engine.heap 2).priceScaled = 5) (by decide)
  obtain ⟨spread, buyQueue, sellQueue, bid, ask⟩ := of_decide_eq_true passes
  have tidy := FreshRun.tidy run
  have greatest := tidy.isGreatest_bid buyQueue
  have least := tidy.isLeast_ask sellQueue
  rw [bid] at greatest
  rw [ask] at least
  refine ⟨machine, run, spread, greatest, least, ?_⟩
  rw [tidy.spreadTrue_iff]
  intro fits
  exact absurd (fits 0 5 greatest least) (by decide)

end TradingMatcher
