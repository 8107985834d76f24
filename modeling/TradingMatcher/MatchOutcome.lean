import TradingMatcher.Refinement
import TradingMatcher.Sweep

/-!
# What a call of the matcher achieves

The volume of a match and the fate of an entering order, carried over from the
abstract book to every state of the engine.
-/

namespace TradingMatcher

open PriceTime

/-- A trade as the abstract book makes it. -/
def Fill.view (fill : Fill) : PriceTime.Fill OrderId where
  buyId := fill.trade.buyOrderId
  sellId := fill.trade.sellOrderId
  quantity := fill.trade.quantity.toNat

namespace Engine

/-- The total quantity of the resting buys priced at least at a price. -/
def demand (engine : Engine) (price : Price) : Nat :=
  (((engine.book.queue .buy).filter fun order =>
      price ≤ (engine.heap order).priceScaled).map fun order =>
    (engine.heap order).quantity.toNat).sum

/-- The total quantity of the resting sells priced at most at a price. -/
def supply (engine : Engine) (price : Price) : Nat :=
  (((engine.book.queue .sell).filter fun order =>
      (engine.heap order).priceScaled ≤ price).map fun order =>
    (engine.heap order).quantity.toNat).sum

theorem volumeAt_view (engine : Engine) (price : Price) :
    engine.view.volumeAt price =
      min (engine.demand price) (engine.supply price) := by
  have demand : depth .buy price engine.view.buys = engine.demand price := by
    rw [depth, Engine.demand, view, List.filter_map, List.map_map]
    simp only [Side.Better, Function.comp_def, entry, not_lt]
    rfl
  have supply : depth .sell price engine.view.sells = engine.supply price := by
    rw [depth, Engine.supply, view, List.filter_map, List.map_map]
    simp only [Side.Better, Function.comp_def, entry, not_lt]
    rfl
  rw [Book.volumeAt, demand, supply]

namespace Tidy

variable {engine : Engine}

theorem sorted_view (tidy : engine.Tidy) : engine.view.Sorted := by
  intro side
  rw [queue_view]
  exact List.pairwise_map.mpr (tidy.consistent.inPriority side)

/-- A call that starts in a tidy book with positive prices makes the trades of
the abstract match, however many passes it is allowed from the number of
standing orders on. -/
theorem matchOrders_view (tidy : engine.Tidy)
    (positive : ∀ order ∈ engine.book.standing,
      0 < (engine.heap order).priceScaled) :
    ∃ fills after, (∀ passes, engine.book.standing.length ≤ passes →
        engine.matchOrders passes = some (fills, after)) ∧
      engine.view.matchAll = (fills.map Fill.view, after.view) := by
  obtain ⟨fills, after, drains, bound, -⟩ := tidy.exists_drains
  refine ⟨fills, after, fun passes enough => ?_,
    drains.matchAll_view tidy positive⟩
  exact matchOrders_eq_some_iff.mpr ⟨drains, bound.trans enough⟩

end Tidy

end Engine

section Runs

variable {heap : Heap} {clock : Nat → Timestamp} {history : List Event}
  {machine : Machine}

/-- In every state of a run with positive prices, a match trades the largest
quantity that demand and supply have in common at any price. -/
theorem positiveRun_clears (run : PositiveRun heap clock history machine) :
    ∃ fills after,
      (∀ passes, machine.engine.book.standing.length ≤ passes →
        machine.engine.matchOrders passes = some (fills, after)) ∧
      IsGreatest
        (Set.range fun price =>
          min (machine.engine.demand price) (machine.engine.supply price))
        (fills.map fun fill => fill.trade.quantity.toNat).sum := by
  have tidy := run.fresh.tidy
  obtain ⟨fills, after, returns, matched⟩ := tidy.matchOrders_view run.positive
  have greatest := tidy.sorted_view.matchAll_isGreatest
  rw [matched, funext machine.engine.volumeAt_view] at greatest
  refine ⟨fills, after, returns, ?_⟩
  rwa [Book.volume, List.map_map] at greatest

theorem positiveRun_clears_crossed :
    ∃ machine, PositiveRun zeroHeap tickingClock
        [.addOrder 3 (Order.new 3 true 4 95 0) true,
          .addOrder 2 (Order.new 2 false 6 90 0) true,
          .addOrder 1 (Order.new 1 true 5 100 0) true] machine ∧
      ∃ fills after,
        (∀ passes, machine.engine.book.standing.length ≤ passes →
          machine.engine.matchOrders passes = some (fills, after)) ∧
        IsGreatest
          (Set.range fun price =>
            min (machine.engine.demand price) (machine.engine.supply price))
          (fills.map fun fill => fill.trade.quantity.toNat).sum := by
  obtain ⟨machine, run, -⟩ := exists_guardedRun_of_replay PositiveCall zeroHeap
    tickingClock
    [.addOrder 3 (Order.new 3 true 4 95 0) true,
      .addOrder 2 (Order.new 2 false 6 90 0) true,
      .addOrder 1 (Order.new 1 true 5 100 0) true] (fun _ => true) (by decide)
  exact ⟨machine, run, positiveRun_clears run⟩

/-- An order that enters an uncrossed book sweeps exactly what it crosses. -/
theorem positiveRun_sweeps (run : PositiveRun heap clock history machine)
    (uncrossed : ∀ buy ∈ machine.engine.book.queue .buy,
      ∀ sell ∈ machine.engine.book.queue .sell,
        (machine.engine.heap buy).priceScaled <
          (machine.engine.heap sell).priceScaled)
    {order : OrderPtr} {fields : Order}
    (absent : order ∉ machine.engine.book.standing)
    (newId : ∀ other ∈ machine.engine.book.standing,
      (machine.engine.heap other).id ≠ fields.id)
    (positive : 0 < fields.priceScaled) (quantity : 0 < fields.quantity) :
    ∃ added fills after taken,
      (machine.engine.store order fields).addOrder (some order) =
        (true, added) ∧
      (∀ passes, added.book.standing.length ≤ passes →
        added.matchOrders passes = some (fills, after)) ∧
      Sweeps fields.bookSide ⟨order, fields.id, fields.priceScaled,
          fields.quantity.toNat⟩
        machine.engine.view after.view (fills.map Fill.view) taken := by
  have tidy := run.fresh.tidy
  have given : fields.quantity ≠ 0 := UInt32.pos_iff_ne_zero.mp quantity
  generalize calls : (machine.engine.store order fields).addOrder (some order) =
    returned
  obtain ⟨result, added⟩ := returned
  let before : Machine := { machine with phase := .idle }
  have step : Step before (.addOrder order fields result)
      ⟨added, machine.lastTrade, .idle⟩ := .addOrder calls
  have fresh : FreshCall before (.addOrder order fields result) :=
    ⟨absent, fun _ => newId⟩
  have reached : added.Tidy ∧
      Effect machine.engine (.addOrder order fields result) added :=
    @Step.effect before _ _ tidy fresh step
  obtain ⟨tidyAdded, effect⟩ := reached
  have accepts : result = true := by
    cases effect with
    | refused _ empty => exact (given empty).elim
    | added => rfl
  subst accepts
  have positiveAdded : ∀ other ∈ added.book.standing,
      0 < (added.heap other).priceScaled := by
    intro other stands
    rcases (effect.fate tidy stands).price with ⟨stood, same⟩ | entered
    · rw [same]
      exact run.positive other stood
    · exact Option.some.inj entered ▸ positive
  obtain ⟨fills, after, returns, matched⟩ :=
    tidyAdded.matchOrders_view positiveAdded
  have uncrossedView : machine.engine.view.Uncrossed := by
    intro buy buyMember sell sellMember
    obtain ⟨bid, bidMember, rfl⟩ := List.mem_map.mp buyMember
    obtain ⟨ask, askMember, rfl⟩ := List.mem_map.mp sellMember
    exact uncrossed bid bidMember ask askMember
  have someQuantity : fields.quantity.toNat ≠ 0 :=
    fun none => given (UInt32.toNat_inj.mp none)
  obtain ⟨taken, sweeps⟩ := Book.add_matchAll_sweeps tidy.sorted_view
    uncrossedView someQuantity effect.add_view
  rw [matched] at sweeps
  exact ⟨added, fills, after, taken, rfl, returns, sweeps⟩

theorem positiveRun_sweeps_level :
    ∃ machine, PositiveRun zeroHeap tickingClock
        [.addOrder 3 (Order.new 3 false 4 95 0) true,
          .addOrder 2 (Order.new 2 false 3 90 0) true] machine ∧
      ∃ added fills after taken,
        (machine.engine.store 1 (Order.new 1 true 5 100 0)).addOrder (some 1) =
          (true, added) ∧
        (∀ passes, added.book.standing.length ≤ passes →
          added.matchOrders passes = some (fills, after)) ∧
        Sweeps .buy ⟨1, 1, 100, 5⟩ machine.engine.view after.view
          (fills.map Fill.view) taken := by
  obtain ⟨machine, run, passes⟩ := exists_guardedRun_of_replay PositiveCall
    zeroHeap tickingClock
    [.addOrder 3 (Order.new 3 false 4 95 0) true,
      .addOrder 2 (Order.new 2 false 3 90 0) true]
    (fun machine => (∀ buy ∈ machine.engine.book.queue .buy,
        ∀ sell ∈ machine.engine.book.queue .sell,
          (machine.engine.heap buy).priceScaled <
            (machine.engine.heap sell).priceScaled) ∧
      1 ∉ machine.engine.book.standing ∧
      ∀ other ∈ machine.engine.book.standing,
        (machine.engine.heap other).id ≠ 1) (by decide)
  obtain ⟨uncrossed, absent, newId⟩ := of_decide_eq_true passes
  exact ⟨machine, run, positiveRun_sweeps run uncrossed absent newId
    (by decide) (by decide)⟩

end Runs

end TradingMatcher
