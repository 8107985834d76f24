import TradingMatcher.BookRuns

/-!
# Calls that report failure

What is left of the book after a call that returned `false`.  A refused
addition and a cancellation that finds nothing leave everything as it was.  A
modification takes its order off the book before `addOrder` has a say, so a
modification to no quantity fails with the order gone.
-/

namespace TradingMatcher

open PriceTime

namespace Engine

/-- A refused addition changes nothing, the clock included. -/
theorem addOrder_of_fails {engine : Engine} {order : Option OrderPtr}
    (fails : (engine.addOrder order).1 = false) :
    (engine.addOrder order).2 = engine := by
  cases order with
  | none => rfl
  | some order =>
      by_cases empty : (engine.heap order).quantity = 0
      · rw [addOrder_of_no_quantity empty]
      · rw [addOrder_of_quantity empty] at fails
        cases fails

namespace Tidy

variable {engine : Engine}

/-- A cancellation fails only for want of an index entry, and changes
nothing. -/
theorem cancelOrder_of_fails (tidy : engine.Tidy) {id : OrderId}
    (fails : (engine.cancelOrder id).1 = false) :
    (engine.cancelOrder id).2 = engine := by
  cases found : engine.book.orderMap id with
  | none => rw [cancelOrder_of_absent found]
  | some order =>
      obtain ⟨stands, rfl⟩ := (tidy.consistent.indexed id order).mp found
      rw [(tidy.cancelOrder stands).1] at fails
      cases fails

/-- A modification to no quantity fails after the order has left the book. -/
theorem modifyOrder_to_nothing (tidy : engine.Tidy) {order : OrderPtr}
    (stands : order ∈ engine.book.standing) (newPrice : Price) :
    engine.modifyOrder (engine.heap order).id newPrice 0 =
        (false, engine.withdrawn order newPrice 0) ∧
      order ∉ (engine.withdrawn order newPrice 0).book.standing := by
  have indexed := (tidy.consistent.indexed _ order).mpr ⟨stands, rfl⟩
  have empty : ((engine.withdrawn order newPrice 0).heap order).quantity = 0 := by
    rw [withdrawn_heap_self]
    rfl
  rw [modifyOrder_of_indexed indexed, addOrder_of_no_quantity empty]
  exact ⟨rfl, (tidy.withdrawn stands newPrice 0).2.1.1⟩

/-- A modification to some quantity succeeds exactly when the order is
there. -/
theorem modifyOrder_fails_iff (tidy : engine.Tidy) {id : OrderId}
    {newPrice : Price} {newQuantity : Quantity} (quantity : newQuantity ≠ 0) :
    (engine.modifyOrder id newPrice newQuantity).1 = false ↔
      engine.book.orderMap id = none := by
  cases found : engine.book.orderMap id with
  | none => simp [modifyOrder_of_absent found]
  | some order =>
      obtain ⟨stands, rfl⟩ := (tidy.consistent.indexed id order).mp found
      have written : ((engine.withdrawn order newPrice newQuantity).heap
          order).quantity ≠ 0 := by
        rwa [withdrawn_heap_self]
      rw [modifyOrder_of_indexed found, addOrder_of_quantity written]
      simp

end Tidy

end Engine

/-- In every state of a fresh run, a failing modification leaves the book and
every object as they were if and only if it does not set a resting order's
quantity to zero. -/
theorem freshRun_modifyOrder_atomic_iff {heap : Heap} {clock : Nat → Timestamp}
    {history : List Event} {machine : Machine}
    (run : FreshRun heap clock history machine) (id : OrderId)
    (newPrice : Price) (newQuantity : Quantity) :
    ((machine.engine.modifyOrder id newPrice newQuantity).1 = false →
        (machine.engine.modifyOrder id newPrice newQuantity).2.book =
            machine.engine.book ∧
          (machine.engine.modifyOrder id newPrice newQuantity).2.heap =
            machine.engine.heap) ↔
      (newQuantity = 0 → machine.engine.book.getOrder id = none) := by
  have tidy := run.tidy
  constructor
  · rintro atomic rfl
    by_contra present
    obtain ⟨order, found⟩ := Option.ne_none_iff_exists'.mp present
    obtain ⟨stands, rfl⟩ := (tidy.consistent.indexed id order).mp found
    obtain ⟨fails, gone⟩ := tidy.modifyOrder_to_nothing stands newPrice
    rw [fails] at atomic
    have sameBook := (atomic rfl).1
    rw [sameBook] at gone
    exact gone stands
  · intro allowed fails
    have absent : machine.engine.book.orderMap id = none := by
      by_cases empty : newQuantity = 0
      · exact allowed empty
      · exact (tidy.modifyOrder_fails_iff empty).mp fails
    rw [Engine.modifyOrder_of_absent absent]
    exact ⟨rfl, rfl⟩

theorem freshRun_modifyOrder_atomic_iff_resting :
    ∃ machine, FreshRun zeroHeap tickingClock
        [.addOrder 1 (Order.new 7 true 10 100 1) true] machine ∧
      (((machine.engine.modifyOrder 7 101 0).1 = false →
          (machine.engine.modifyOrder 7 101 0).2.book = machine.engine.book ∧
            (machine.engine.modifyOrder 7 101 0).2.heap =
              machine.engine.heap) ↔
        ((0 : Quantity) = 0 → machine.engine.book.getOrder 7 = none)) := by
  obtain ⟨machine, run, -⟩ := exists_guardedRun_of_replay FreshCall zeroHeap
    tickingClock [.addOrder 1 (Order.new 7 true 10 100 1) true]
    (fun _ => true) (by decide)
  exact ⟨machine, run, freshRun_modifyOrder_atomic_iff run 7 101 0⟩

/-- Modifying a resting order to quantity zero returns `false`, and the order
rests no more: its queue is empty, its identifier unknown, its object
overwritten. -/
theorem modifyOrder_fails_and_removes :
    ∃ machine, FreshRun zeroHeap tickingClock
        [.addOrder 1 (Order.new 7 true 10 100 1) true] machine ∧
      (machine.engine.modifyOrder 7 101 0).1 = false ∧
      machine.engine.book.getOrder 7 = some 1 ∧
      (machine.engine.modifyOrder 7 101 0).2.book.getOrder 7 = none ∧
      (machine.engine.modifyOrder 7 101 0).2.book.queue .buy ≠
        machine.engine.book.queue .buy ∧
      (machine.engine.modifyOrder 7 101 0).2.heap ≠ machine.engine.heap := by
  obtain ⟨machine, run, passes⟩ := exists_guardedRun_of_replay FreshCall
    zeroHeap tickingClock [.addOrder 1 (Order.new 7 true 10 100 1) true]
    (fun machine =>
      (machine.engine.modifyOrder 7 101 0).1 = false ∧
        machine.engine.book.getOrder 7 = some 1 ∧
        (machine.engine.modifyOrder 7 101 0).2.book.getOrder 7 = none ∧
        (machine.engine.modifyOrder 7 101 0).2.book.queue .buy ≠
          machine.engine.book.queue .buy ∧
        ((machine.engine.modifyOrder 7 101 0).2.heap 1).priceScaled ≠
          (machine.engine.heap 1).priceScaled) (by decide)
  obtain ⟨fails, known, unknown, queues, price⟩ := of_decide_eq_true passes
  exact ⟨machine, run, fails, known, unknown, queues, fun same =>
    price (by rw [same])⟩

end TradingMatcher
