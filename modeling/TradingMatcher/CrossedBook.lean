import TradingMatcher.MatchLoop

/-!
# Crossed books

The book is crossed when a standing buy is priced at or above a standing sell.
The cached prices show a crossing exactly when no sell of a crossing pair is
priced at zero or below, because a cached price of zero also means an empty
side; a book crossed down there is left crossed by the matching loop.
-/

namespace TradingMatcher

open PriceTime

namespace Engine

/-- Some standing buy and some standing sell could trade. -/
def Crossed (engine : Engine) : Prop :=
  ∃ buy ∈ engine.book.queue .buy, ∃ sell ∈ engine.book.queue .sell,
    (engine.heap sell).priceScaled ≤ (engine.heap buy).priceScaled

/-- The sell of every crossing pair has a positive price. -/
def CrossesPositively (engine : Engine) : Prop :=
  ∀ buy ∈ engine.book.queue .buy, ∀ sell ∈ engine.book.queue .sell,
    (engine.heap sell).priceScaled ≤ (engine.heap buy).priceScaled →
      0 < (engine.heap sell).priceScaled

instance (engine : Engine) : Decidable engine.Crossed :=
  inferInstanceAs (Decidable (∃ buy ∈ engine.book.queue .buy, _))

namespace Tidy

variable {engine : Engine}

/-- No order of a queue has a better price than its head. -/
theorem not_better_head (tidy : engine.Tidy) {side : Side}
    {head order : OrderPtr} {rest : List OrderPtr}
    (queue : engine.book.queue side = head :: rest)
    (member : order ∈ engine.book.queue side) :
    ¬ side.Better (engine.heap order).priceScaled
      (engine.heap head).priceScaled := by
  have inPriority := tidy.consistent.inPriority side
  rw [queue] at inPriority member
  rcases List.mem_cons.mp member with rfl | behind
  · cases side <;> exact lt_irrefl _
  · exact (List.pairwise_cons.mp inPriority).1 order behind

/-- The heads of the queues are the best pair: they cross when any pair does,
and the best sell is the cheapest. -/
theorem heads_of_crossing (tidy : engine.Tidy) {buy sell : OrderPtr}
    (buys : buy ∈ engine.book.queue .buy)
    (sells : sell ∈ engine.book.queue .sell)
    (crossing : (engine.heap sell).priceScaled ≤
      (engine.heap buy).priceScaled) :
    ∃ bid bids ask asks,
      engine.book.queue .buy = bid :: bids ∧
      engine.book.queue .sell = ask :: asks ∧
      (engine.heap ask).priceScaled ≤ (engine.heap sell).priceScaled ∧
      (engine.heap ask).priceScaled ≤ (engine.heap bid).priceScaled := by
  obtain ⟨bid, bids, buyQueue⟩ :=
    List.exists_cons_of_ne_nil (List.ne_nil_of_mem buys)
  obtain ⟨ask, asks, sellQueue⟩ :=
    List.exists_cons_of_ne_nil (List.ne_nil_of_mem sells)
  have cheapest : (engine.heap ask).priceScaled ≤
      (engine.heap sell).priceScaled :=
    not_lt.mp (tidy.not_better_head sellQueue sells)
  have dearest : (engine.heap buy).priceScaled ≤
      (engine.heap bid).priceScaled :=
    not_lt.mp (tidy.not_better_head buyQueue buys)
  exact ⟨bid, bids, ask, asks, buyQueue, sellQueue, cheapest,
    (cheapest.trans crossing).trans dearest⟩

theorem crossed_of_hasMatch (tidy : engine.Tidy)
    (matched : engine.book.hasMatch = true) : engine.Crossed := by
  obtain ⟨bid, bids, ask, asks, buyQueue, sellQueue, -, crossing⟩ :=
    tidy.hasMatch_iff.mp matched
  exact ⟨bid, by simp [buyQueue], ask, by simp [sellQueue], crossing⟩

theorem hasMatch_of_crossed (tidy : engine.Tidy)
    (positively : engine.CrossesPositively) (crossed : engine.Crossed) :
    engine.book.hasMatch = true := by
  obtain ⟨buy, buys, sell, sells, crossing⟩ := crossed
  obtain ⟨bid, bids, ask, asks, buyQueue, sellQueue, -, headsCross⟩ :=
    tidy.heads_of_crossing buys sells crossing
  have askPositive := positively bid (by simp [buyQueue]) ask
    (by simp [sellQueue]) headsCross
  exact tidy.hasMatch_iff.mpr
    ⟨bid, bids, ask, asks, buyQueue, sellQueue, askPositive, headsCross⟩

/-- A crossing pair whose sell is not positive hides the crossing. -/
theorem hasMatch_eq_false (tidy : engine.Tidy)
    (hidden : ¬ engine.CrossesPositively) :
    engine.Crossed ∧ engine.book.hasMatch = false := by
  simp only [CrossesPositively, not_forall] at hidden
  obtain ⟨buy, buys, sell, sells, crossing, notPositive⟩ := hidden
  refine ⟨⟨buy, buys, sell, sells, crossing⟩, ?_⟩
  rw [← Bool.not_eq_true, tidy.hasMatch_iff]
  rintro ⟨bid, bids, ask, asks, buyQueue, sellQueue, askPositive, -⟩
  have cheapest : (engine.heap ask).priceScaled ≤
      (engine.heap sell).priceScaled :=
    not_lt.mp (tidy.not_better_head sellQueue sells)
  exact notPositive (askPositive.trans_le cheapest)

theorem hasMatch_iff_crossed_iff (tidy : engine.Tidy) :
    (engine.book.hasMatch = true ↔ engine.Crossed) ↔
      engine.CrossesPositively := by
  constructor
  · intro seen
    by_contra hidden
    obtain ⟨crossed, unseen⟩ := tidy.hasMatch_eq_false hidden
    rw [seen.mpr crossed] at unseen
    cases unseen
  · intro positively
    exact ⟨tidy.crossed_of_hasMatch, tidy.hasMatch_of_crossed positively⟩

end Tidy

/-- A pass moves no price and adds no order. -/
theorem Passed.crossesPositively {before after : Engine} {fill : Fill}
    {bids asks : List OrderPtr} (passed : before.Passed fill bids asks after)
    (positively : before.CrossesPositively) : after.CrossesPositively := by
  intro buy buys sell sells
  rw [(passed.heap_terms buy).2.1, (passed.heap_terms sell).2.1]
  exact positively buy ((passed.queue_sublist .buy).subset buys) sell
    ((passed.queue_sublist .sell).subset sells)

/-- The loop leaves the book uncrossed exactly when it could see every
crossing. -/
theorem Drains.crossed_iff {engine after : Engine} {fills : List Fill}
    (drains : engine.Drains fills after) (tidy : engine.Tidy) :
    after.Crossed ↔ ¬ engine.CrossesPositively := by
  constructor
  · intro crossed positively
    induction drains with
    | done exits =>
        have noMatch := tidy.matchPass_eq_none_iff.mp exits
        rw [tidy.hasMatch_of_crossed positively crossed] at noMatch
        cases noMatch
    | pass executes _ ih =>
        obtain ⟨tidyMiddle, bids, asks, passed⟩ := tidy.matchPass executes
        exact ih tidyMiddle crossed (passed.crossesPositively positively)
  · intro hidden
    obtain ⟨crossed, noMatch⟩ := tidy.hasMatch_eq_false hidden
    have exits := tidy.matchPass_eq_none_iff.mpr noMatch
    cases drains with
    | done => exact crossed
    | pass executes =>
        rw [exits] at executes
        cases executes

end Engine

/-- In every state of a fresh run, the cached prices show a crossing exactly
when there is one, and the loop leaves no crossing, if and only if no crossing
pair has a sell priced at zero or below. -/
theorem freshRun_crossed_iff {heap : Heap} {clock : Nat → Timestamp}
    {history : List Event} {machine : Machine}
    (run : FreshRun heap clock history machine) :
    ((machine.engine.book.hasMatch = true ↔ machine.engine.Crossed) ↔
        machine.engine.CrossesPositively) ∧
      ∀ passes fills after,
        machine.engine.matchOrders passes = some (fills, after) →
          ((∀ buy ∈ after.book.queue .buy, ∀ sell ∈ after.book.queue .sell,
              (after.heap buy).priceScaled < (after.heap sell).priceScaled) ↔
            machine.engine.CrossesPositively) := by
  refine ⟨run.tidy.hasMatch_iff_crossed_iff, ?_⟩
  intro passes fills after returns
  obtain ⟨drains, -⟩ := Engine.matchOrders_eq_some_iff.mp returns
  have crossedIff := drains.crossed_iff run.tidy
  rw [← not_iff_not, ← crossedIff, Engine.Crossed]
  push Not
  rfl

theorem freshRun_crossed_iff_positive :
    ∃ machine, FreshRun zeroHeap tickingClock
        [.addOrder 2 (Order.new 2 false 3 90 0) true,
          .addOrder 1 (Order.new 1 true 5 100 0) true] machine ∧
      ((machine.engine.book.hasMatch = true ↔ machine.engine.Crossed) ↔
        machine.engine.CrossesPositively) := by
  obtain ⟨machine, run, -⟩ := exists_guardedRun_of_replay FreshCall zeroHeap
    tickingClock [.addOrder 2 (Order.new 2 false 3 90 0) true,
      .addOrder 1 (Order.new 1 true 5 100 0) true] (fun _ => true) (by decide)
  exact ⟨machine, run, (freshRun_crossed_iff run).1⟩

/-- A buy and a sell at the least declared price, zero, cross unseen, and the
loop returns without a trade. -/
theorem crossed_unseen_at_zero :
    ∃ machine, FreshRun zeroHeap tickingClock
        [.addOrder 2 (Order.new 2 false 5 0 0) true,
          .addOrder 1 (Order.new 1 true 5 0 0) true] machine ∧
      machine.phase = .idle ∧
      ¬ (machine.engine.book.hasMatch = true ↔ machine.engine.Crossed) ∧
      machine.engine.matchOrders 0 = some ([], machine.engine) := by
  obtain ⟨machine, run, passes⟩ := exists_guardedRun_of_replay FreshCall
    zeroHeap tickingClock
    [.addOrder 2 (Order.new 2 false 5 0 0) true,
      .addOrder 1 (Order.new 1 true 5 0 0) true]
    (fun machine => machine.phase = .idle ∧
      machine.engine.book.hasMatch = false ∧ machine.engine.Crossed ∧
      machine.engine.matchPass.isNone) (by decide)
  obtain ⟨idle, noMatch, crossed, exits⟩ := of_decide_eq_true passes
  refine ⟨machine, run, idle, ?_, ?_⟩
  · simp [noMatch, crossed]
  · rw [Engine.matchOrders, Option.isNone_iff_eq_none.mp exits]

end TradingMatcher
