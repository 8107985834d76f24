import TradingMatcher.BookRuns

/-!
# The representation invariant of the book

Along every run that adds no standing object and no standing identifier, the
index, the two ladders and the two cached prices describe the same orders, and
the loop of `matchOrders` finds the two best orders whenever the cached prices
match.
-/

namespace TradingMatcher

open PriceTime

namespace OrderBook

/-- The levels of the side that `isBuy` names. -/
def ladderOf (book : OrderBook) (isBuy : Bool) : Ladder :=
  if isBuy then book.buyLevels else book.sellLevels

end OrderBook

/-- The index, the ladders and the cached prices describe the same orders. -/
structure Represents (engine : Engine) : Prop where
  index : ∀ id order, engine.book.orderMap id = some order ↔
    order ∈ engine.book.standing ∧ (engine.heap order).id = id
  once : ∀ order ∈ engine.book.standing,
    engine.book.standing.count order = 1
  place : ∀ order ∈ engine.book.standing, ∃ level,
    (engine.book.ladderOf (engine.heap order).isBuy).find?
      (engine.heap order).priceScaled = some level ∧ order ∈ level.orders
  levels : ∀ isBuy price level,
    (price, level) ∈ (engine.book.ladderOf isBuy).entries → level.orders ≠ []
  quantity : ∀ order ∈ engine.book.standing,
    0 < (engine.heap order).quantity
  bestBid : (engine.book.buyLevels.entries = [] ∧
      engine.book.bestBidPrice = 0) ∨
    IsGreatest engine.book.buyLevels.keys engine.book.bestBidPrice
  bestAsk : (engine.book.sellLevels.entries = [] ∧
      engine.book.bestAskPrice = 0) ∨
    IsLeast engine.book.sellLevels.keys engine.book.bestAskPrice

theorem OrderBook.levels_bookSide (book : OrderBook) (order : Order) :
    book.levels order.bookSide = book.ladderOf order.isBuy := by
  rw [Order.bookSide, ladderOf]
  cases order.isBuy <;> rfl

theorem Ladder.bestKey_spec (ladder : Ladder) :
    ((ladder.entries = [] ∧ ladder.bestKey .buy = 0) ∨
      IsGreatest ladder.keys (ladder.bestKey .buy)) ∧
    ((ladder.entries = [] ∧ ladder.bestKey .sell = 0) ∨
      IsLeast ladder.keys (ladder.bestKey .sell)) := by
  constructor
  · rw [bestKey, best?]
    cases last : ladder.last? with
    | none => exact .inl ⟨List.getLast?_eq_none_iff.mp last, rfl⟩
    | some highest => exact .inr (SortedMap.isGreatest_of_last? last)
  · rw [bestKey, best?]
    cases first : ladder.first? with
    | none => exact .inl ⟨List.head?_eq_none_iff.mp first, rfl⟩
    | some lowest => exact .inr (SortedMap.isLeast_of_first? first)

theorem Engine.Tidy.represents {engine : Engine} (tidy : engine.Tidy) :
    Represents engine where
  index := tidy.consistent.indexed
  once order stands :=
    List.count_eq_one_of_mem tidy.consistent.standing_nodup stands
  place order stands := by
    rw [← OrderBook.levels_bookSide]
    exact (tidy.consistent.wellPlaced _).exists_level
      (tidy.consistent.mem_queue_bookSide stands)
  levels isBuy := by
    cases isBuy
    exacts [(tidy.consistent.wellPlaced .sell).nonempty,
      (tidy.consistent.wellPlaced .buy).nonempty]
  quantity order stands := by
    have positive := tidy.hasQuantity order stands
    rw [UInt32.lt_iff_toNat_lt, UInt32.toNat_zero, Nat.pos_iff_ne_zero]
    exact fun empty => positive (UInt32.toNat_inj.mp empty)
  bestBid := by
    have cached := tidy.consistent.cached .buy
    change engine.book.bestBidPrice = _ at cached
    rw [cached]
    exact engine.book.buyLevels.bestKey_spec.1
  bestAsk := by
    have cached := tidy.consistent.cached .sell
    change engine.book.bestAskPrice = _ at cached
    rw [cached]
    exact engine.book.sellLevels.bestKey_spec.2

/-- What a match of the cached prices promises to the loop: both best orders
exist, they carry the cached prices, and those cross. -/
def MatchHasHeads (engine : Engine) : Prop :=
  engine.book.hasMatch = true → ∃ bid ask,
    engine.book.getBestBid = some bid ∧ engine.book.getBestAsk = some ask ∧
    (engine.heap bid).isBuy = true ∧ (engine.heap ask).isBuy = false ∧
    (engine.heap bid).priceScaled = engine.book.bestBidPrice ∧
    (engine.heap ask).priceScaled = engine.book.bestAskPrice ∧
    (engine.heap ask).priceScaled ≤ (engine.heap bid).priceScaled ∧
    engine.matchPass ≠ none

theorem Engine.Tidy.matchHasHeads {engine : Engine} (tidy : engine.Tidy) :
    MatchHasHeads engine := by
  intro matches_
  obtain ⟨bid, bids, ask, asks, buyQueue, sellQueue, -, crossed, passEq⟩ :=
    tidy.matchPass_of_hasMatch matches_
  have bestBid := tidy.consistent.bestPrice_eq .buy
  have bestAsk := tidy.consistent.bestPrice_eq .sell
  rw [buyQueue] at bestBid
  rw [sellQueue] at bestAsk
  refine ⟨bid, ask, ?_, ?_, ?_, ?_, bestBid.symm, bestAsk.symm, crossed, ?_⟩
  · rw [tidy.consistent.getBestBid_eq, buyQueue, List.head?_cons]
  · rw [tidy.consistent.getBestAsk_eq, sellQueue, List.head?_cons]
  · exact (Order.bookSide_eq_buy_iff _).mp
      (tidy.consistent.bookSide (by simp [buyQueue]))
  · exact (Order.bookSide_eq_sell_iff _).mp
      (tidy.consistent.bookSide (by simp [sellQueue]))
  · simp [passEq]

/-- In every state of a fresh run, also between two trades of the matching
loop, the book is represented correctly, and a match has its two heads. -/
theorem freshRun_represents {heap : Heap} {clock : Nat → Timestamp}
    {history : List Event} {machine : Machine}
    (run : FreshRun heap clock history machine) :
    Represents machine.engine ∧ MatchHasHeads machine.engine :=
  ⟨run.tidy.represents, run.tidy.matchHasHeads⟩

theorem freshRun_represents_afterTrade :
    ∃ machine, FreshRun zeroHeap tickingClock
        [.executeTrade ⟨1, 2, ⟨1, 2, 3, 100, 3⟩⟩, .matchOrders,
          .addOrder 2 (Order.new 2 false 3 90 0) true,
          .addOrder 1 (Order.new 1 true 5 100 0) true] machine ∧
      Represents machine.engine ∧ MatchHasHeads machine.engine := by
  obtain ⟨machine, run, -⟩ := exists_guardedRun_of_replay FreshCall zeroHeap
    tickingClock [.executeTrade ⟨1, 2, ⟨1, 2, 3, 100, 3⟩⟩, .matchOrders,
      .addOrder 2 (Order.new 2 false 3 90 0) true,
      .addOrder 1 (Order.new 1 true 5 100 0) true] (fun _ => true) (by decide)
  exact ⟨machine, run, freshRun_represents run⟩

end TradingMatcher
