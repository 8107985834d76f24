import TradingMatcher.CrossedBook
import TradingMatcher.OrderEntry

/-!
# Time priority by arrival and by timestamp

The levels of the book keep orders as they arrive, the operators of the order
compare timestamps.  The two agree as long as no order arrives at a level with
an earlier timestamp than an order that rests there.
-/

namespace TradingMatcher

open PriceTime

/-- The operator that says which of two orders of a side goes first. -/
def Order.precedes (side : Side) (order other : Order) : Bool :=
  match side with
  | .buy => order.operatorGreater other
  | .sell => order.operatorLess other

/-- An order precedes another by a better price, or by time at its price. -/
theorem Order.precedes_iff {side : Side} {order other : Order} :
    order.precedes side other = true ↔
      side.Better order.priceScaled other.priceScaled ∨
        order.priceScaled = other.priceScaled ∧
          order.timestampNs < other.timestampNs := by
  by_cases same : order.priceScaled = other.priceScaled <;> cases side <;>
    simp [precedes, operatorGreater, operatorLess, Side.Better, same]

namespace Engine

/-- The best bid and the best ask are preceded by no order of their sides. -/
structure BestOrdersFirst (engine : Engine) : Prop where
  bid : ∀ best, engine.book.getBestBid = some best →
    ∀ order ∈ engine.book.queue .buy,
      (engine.heap order).operatorGreater (engine.heap best) = false
  ask : ∀ best, engine.book.getBestAsk = some best →
    ∀ order ∈ engine.book.queue .sell,
      (engine.heap order).operatorLess (engine.heap best) = false

/-- Every level of the book is in the order of the timestamps. -/
def InTimeOrder (engine : Engine) : Prop :=
  engine.InLevelOrder fun earlier later =>
    (engine.heap earlier).timestampNs ≤ (engine.heap later).timestampNs

/-- The head of a queue whose levels are in the order of the timestamps. -/
theorem InTimeOrder.precedes_head {engine : Engine}
    (inTimeOrder : engine.InTimeOrder) (tidy : engine.Tidy) {side : Side}
    {head order : OrderPtr} {rest : List OrderPtr}
    (queue : engine.book.queue side = head :: rest)
    (member : order ∈ engine.book.queue side) :
    (engine.heap order).precedes side (engine.heap head) = false := by
  rw [← Bool.not_eq_true, Order.precedes_iff]
  rintro (better | ⟨samePrice, earlier⟩)
  · exact tidy.not_better_head queue member better
  · have ordered := inTimeOrder side
    rw [queue] at ordered member
    rcases List.mem_cons.mp member with rfl | behind
    · exact lt_irrefl _ earlier
    · have notLater := (List.pairwise_cons.mp ordered).1 order behind
        samePrice.symm
      exact not_lt.mpr notLater earlier

theorem InTimeOrder.bestOrdersFirst {engine : Engine}
    (inTimeOrder : engine.InTimeOrder) (tidy : engine.Tidy) :
    engine.BestOrdersFirst where
  bid best isBest order member := by
    rw [tidy.consistent.getBestBid_eq] at isBest
    obtain ⟨rest, queue⟩ := List.head?_eq_some_iff.mp isBest
    exact inTimeOrder.precedes_head tidy queue member
  ask best isBest order member := by
    rw [tidy.consistent.getBestAsk_eq] at isBest
    obtain ⟨rest, queue⟩ := List.head?_eq_some_iff.mp isBest
    exact inTimeOrder.precedes_head tidy queue member

end Engine

/-- The order that a call enters has no earlier timestamp than any other order
that rests on its side at its price. -/
def EntersInTime (machine : Machine) (event : Event) : Prop :=
  ∀ entry ∈ machine.engine.entering? event,
    ∀ other ∈ machine.engine.book.queue entry.2.bookSide, other ≠ entry.1 →
      (machine.engine.heap other).priceScaled = entry.2.priceScaled →
        (machine.engine.heap other).timestampNs ≤ entry.2.timestampNs

instance (machine : Machine) (event : Event) :
    Decidable (EntersInTime machine event) :=
  inferInstanceAs (Decidable (∀ entry ∈ machine.engine.entering? event, _))

/-- A fresh call whose order enters in time. -/
def InTimeCall (machine : Machine) (event : Event) : Prop :=
  FreshCall machine event ∧ EntersInTime machine event

instance (machine : Machine) (event : Event) :
    Decidable (InTimeCall machine event) :=
  inferInstanceAs (Decidable (_ ∧ _))

/-- A fresh run in which every order enters in time. -/
abbrev InTimeRun (heap : Heap) (clock : Nat → Timestamp) :
    List Event → Machine → Prop :=
  Run (Guarded InTimeCall Step) (Machine.start heap clock)

theorem Effect.inTimeOrder {source target : Machine} {event : Event}
    (effect : Effect source.engine event target.engine)
    (tidy : source.engine.Tidy) (tidyAfter : target.engine.Tidy)
    (enters : EntersInTime source event)
    (inTimeOrder : source.engine.InTimeOrder) : target.engine.InTimeOrder := by
  apply effect.inLevelOrder tidy tidyAfter inTimeOrder
  · intro earlier later earlierStays laterStays notLater
    obtain ⟨_, earlierTerms⟩ := earlierStays.terms
    obtain ⟨_, laterTerms⟩ := laterStays.terms
    rwa [earlierTerms, laterTerms]
  · intro side earlier earlierMember later laterMember earlierStays laterEnters
      samePrice
    obtain ⟨_, terms⟩ := earlierStays.terms
    have differ : earlier ≠ later := by
      rintro rfl
      exact earlierStays.not_enters laterEnters
    have onSide := tidyAfter.consistent.bookSide laterMember
    rw [Engine.priceOf, Engine.priceOf, terms] at samePrice
    have notEarlier := enters _ laterEnters.entering earlier
      (onSide ▸ earlierMember) differ samePrice
    rwa [terms]

section Runs

variable {heap : Heap} {clock : Nat → Timestamp} {history : List Event}
  {machine : Machine}

theorem InTimeRun.fresh (run : InTimeRun heap clock history machine) :
    FreshRun heap clock history machine :=
  run.mono fun step => ⟨step.1.1, step.2⟩

theorem InTimeRun.inTimeOrder (run : InTimeRun heap clock history machine) :
    machine.engine.InTimeOrder := by
  apply run.invariant fun _ machine => machine.engine.InTimeOrder
  · exact Engine.new_inLevelOrder _ _ _
  · intro history source event target sourceRun inTimeOrder step
    have tidy := (InTimeRun.fresh sourceRun).tidy
    obtain ⟨tidyAfter, effect⟩ := Step.effect tidy step.1.1 step.2
    exact effect.inTimeOrder tidy tidyAfter step.1.2 inTimeOrder

/-- While every order enters in time, no resting order precedes the best one of
its side. -/
theorem inTimeRun_bestOrdersFirst
    (run : InTimeRun heap clock history machine) :
    machine.engine.BestOrdersFirst :=
  run.inTimeOrder.bestOrdersFirst run.fresh.tidy

theorem inTimeRun_bestOrdersFirst_pair :
    ∃ machine, InTimeRun zeroHeap tickingClock
        [.modifyOrder 1 100 4 true,
          .addOrder 2 (Order.new 2 true 5 100 (-3)) true,
          .addOrder 1 (Order.new 1 true 5 100 (-3)) true] machine ∧
      machine.engine.BestOrdersFirst := by
  obtain ⟨machine, run, -⟩ := exists_guardedRun_of_replay InTimeCall zeroHeap
    tickingClock [.modifyOrder 1 100 4 true,
      .addOrder 2 (Order.new 2 true 5 100 (-3)) true,
      .addOrder 1 (Order.new 1 true 5 100 (-3)) true] (fun _ => true) (by decide)
  exact ⟨machine, run, inTimeRun_bestOrdersFirst run⟩

/-- The buy that arrives second carries the earlier timestamp: by the operator
it goes first, and it stands behind. -/
theorem late_arrival_precedes_best_bid :
    ∃ machine, FreshRun zeroHeap tickingClock
        [.addOrder 2 (Order.new 2 true 5 100 3) true,
          .addOrder 1 (Order.new 1 true 5 100 7) true] machine ∧
      machine.engine.book.getBestBid = some 1 ∧
      2 ∈ machine.engine.book.queue .buy ∧
      (machine.engine.heap 2).operatorGreater (machine.engine.heap 1) = true ∧
      ¬ machine.engine.BestOrdersFirst := by
  obtain ⟨machine, run, passes⟩ := exists_guardedRun_of_replay FreshCall
    zeroHeap tickingClock
    [.addOrder 2 (Order.new 2 true 5 100 3) true,
      .addOrder 1 (Order.new 1 true 5 100 7) true]
    (fun machine => machine.engine.book.getBestBid = some 1 ∧
      2 ∈ machine.engine.book.queue .buy ∧
      (machine.engine.heap 2).operatorGreater (machine.engine.heap 1) = true)
    (by decide)
  obtain ⟨best, rests, precedes⟩ := of_decide_eq_true passes
  refine ⟨machine, run, best, rests, precedes, fun first => ?_⟩
  have notPrecedes := first.bid 1 best 2 rests
  rw [precedes] at notPrecedes
  cases notPrecedes

end Runs

end TradingMatcher
