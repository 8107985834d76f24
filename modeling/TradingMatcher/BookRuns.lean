import TradingMatcher.EngineSteps
import TradingMatcher.Runs

/-!
# Runs of the order book

The single thread that calls the book, as a transition system: calls between
which it is idle, and the matching loop, whose passes are steps of their own so
that the states between two trades are states of the run.
-/

namespace TradingMatcher

open PriceTime

/-- Between calls, or inside `matchOrders` with a number of trades executed. -/
inductive Phase
  | idle
  | matching (tradeCount : Nat)
  deriving DecidableEq, Repr

/-- A book with its matcher and the position of the calling thread. -/
structure Machine where
  engine : Engine
  lastTrade : Option Trade
  phase : Phase

/-- What one step of the calling thread did, with the results it returned.  An
added order comes with the fields its caller gives the object before the
call. -/
inductive Event
  | addOrder (order : OrderPtr) (fields : Order) (result : Bool)
  | cancelOrder (id : OrderId) (result : Bool)
  | modifyOrder (id : OrderId) (newPrice : Price) (newQuantity : Quantity)
      (result : Bool)
  | matchOrders
  | executeTrade (fill : Fill)
  | matchReturn (tradeCount : Nat)
  deriving DecidableEq, Repr

/-- One step of the calling thread. -/
inductive Step : Machine → Event → Machine → Prop
  | addOrder {engine after : Engine} {lastTrade : Option Trade}
      {order : OrderPtr} {fields : Order} {result : Bool}
      (returns : (engine.store order fields).addOrder (some order) =
        (result, after)) :
      Step ⟨engine, lastTrade, .idle⟩ (.addOrder order fields result)
        ⟨after, lastTrade, .idle⟩
  | cancelOrder {engine after : Engine} {lastTrade : Option Trade}
      {id : OrderId} {result : Bool}
      (returns : engine.cancelOrder id = (result, after)) :
      Step ⟨engine, lastTrade, .idle⟩ (.cancelOrder id result)
        ⟨after, lastTrade, .idle⟩
  | modifyOrder {engine after : Engine} {lastTrade : Option Trade}
      {id : OrderId} {newPrice : Price} {newQuantity : Quantity} {result : Bool}
      (returns : engine.modifyOrder id newPrice newQuantity =
        (result, after)) :
      Step ⟨engine, lastTrade, .idle⟩
        (.modifyOrder id newPrice newQuantity result) ⟨after, lastTrade, .idle⟩
  | matchOrders {engine : Engine} {lastTrade : Option Trade} :
      Step ⟨engine, lastTrade, .idle⟩ .matchOrders
        ⟨engine, lastTrade, .matching 0⟩
  | executeTrade {engine after : Engine} {lastTrade : Option Trade}
      {tradeCount : Nat} {fill : Fill}
      (pass : engine.matchPass = some (fill, after)) :
      Step ⟨engine, lastTrade, .matching tradeCount⟩ (.executeTrade fill)
        ⟨after, some fill.trade, .matching (tradeCount + 1)⟩
  | matchReturn {engine : Engine} {lastTrade : Option Trade}
      {tradeCount : Nat} (exits : engine.matchPass = none) :
      Step ⟨engine, lastTrade, .matching tradeCount⟩ (.matchReturn tradeCount)
        ⟨engine, lastTrade, .idle⟩

/-- An empty book, before the first call. -/
def Machine.start (heap : Heap) (clock : Nat → Timestamp) : Machine :=
  ⟨Engine.new heap clock, none, .idle⟩

/-- A run of calls from an empty book. -/
abbrev BookRun (heap : Heap) (clock : Nat → Timestamp) :
    List Event → Machine → Prop :=
  Run Step (Machine.start heap clock)

/-- Objects as default-constructed orders. -/
def zeroHeap : Heap := fun _ => Order.zero

/-- A clock that ticks once for each reading. -/
def tickingClock : Nat → Timestamp := fun index => Int64.ofNat (index + 1)

/-- An added object is not standing, and unless the call refuses it for want
of quantity, neither is an order with its identifier. -/
def FreshCall (machine : Machine) : Event → Prop
  | .addOrder order fields _ =>
      order ∉ machine.engine.book.standing ∧
        (fields.quantity ≠ 0 → ∀ other ∈ machine.engine.book.standing,
          (machine.engine.heap other).id ≠ fields.id)
  | _ => True

/-- A run of calls that never adds a standing object or identifier. -/
abbrev FreshRun (heap : Heap) (clock : Nat → Timestamp) :
    List Event → Machine → Prop :=
  Run (Guarded FreshCall Step) (Machine.start heap clock)

/-- The step of an event, when its results are those the calls return. -/
def Machine.next? (machine : Machine) : Event → Option Machine
  | .addOrder order fields result =>
      let added := (machine.engine.store order fields).addOrder (some order)
      if machine.phase = .idle ∧ added.1 = result then
        some ⟨added.2, machine.lastTrade, .idle⟩
      else none
  | .cancelOrder id result =>
      let cancelled := machine.engine.cancelOrder id
      if machine.phase = .idle ∧ cancelled.1 = result then
        some ⟨cancelled.2, machine.lastTrade, .idle⟩
      else none
  | .modifyOrder id newPrice newQuantity result =>
      let modified := machine.engine.modifyOrder id newPrice newQuantity
      if machine.phase = .idle ∧ modified.1 = result then
        some ⟨modified.2, machine.lastTrade, .idle⟩
      else none
  | .matchOrders =>
      if machine.phase = .idle then
        some ⟨machine.engine, machine.lastTrade, .matching 0⟩
      else none
  | .executeTrade fill =>
      match machine.phase, machine.engine.matchPass with
      | .matching tradeCount, some (executed, after) =>
          if executed = fill then
            some ⟨after, some fill.trade, .matching (tradeCount + 1)⟩
          else none
      | _, _ => none
  | .matchReturn tradeCount =>
      if machine.phase = .matching tradeCount ∧
          machine.engine.matchPass.isNone then
        some ⟨machine.engine, machine.lastTrade, .idle⟩
      else none

theorem Machine.step_iff_next? {source target : Machine} {event : Event} :
    Step source event target ↔ source.next? event = some target := by
  constructor
  · intro step
    cases step with
    | addOrder returns => simp [next?, returns]
    | cancelOrder returns => simp [next?, returns]
    | modifyOrder returns => simp [next?, returns]
    | matchOrders => simp [next?]
    | executeTrade pass => simp [next?, pass]
    | matchReturn exits => simp [next?, exits]
  · obtain ⟨engine, lastTrade, phase⟩ := source
    intro stepped
    cases event with
    | addOrder order fields result =>
        simp only [next?, Option.ite_none_right_eq_some] at stepped
        obtain ⟨⟨rfl, rfl⟩, ⟨⟩⟩ := stepped
        exact .addOrder rfl
    | cancelOrder id result =>
        simp only [next?, Option.ite_none_right_eq_some] at stepped
        obtain ⟨⟨rfl, rfl⟩, ⟨⟩⟩ := stepped
        exact .cancelOrder rfl
    | modifyOrder id newPrice newQuantity result =>
        simp only [next?, Option.ite_none_right_eq_some] at stepped
        obtain ⟨⟨rfl, rfl⟩, ⟨⟩⟩ := stepped
        exact .modifyOrder rfl
    | matchOrders =>
        simp only [next?, Option.ite_none_right_eq_some] at stepped
        obtain ⟨rfl, ⟨⟩⟩ := stepped
        exact .matchOrders
    | executeTrade fill =>
        cases phase with
        | idle => cases stepped
        | matching tradeCount =>
            cases pass : engine.matchPass with
            | none => simp [next?, pass] at stepped
            | some executed =>
                simp only [next?, pass, Option.ite_none_right_eq_some] at stepped
                obtain ⟨rfl, ⟨⟩⟩ := stepped
                exact .executeTrade pass
    | matchReturn tradeCount =>
        simp only [next?, Option.ite_none_right_eq_some,
          Option.isNone_iff_eq_none] at stepped
        obtain ⟨⟨rfl, exits⟩, ⟨⟩⟩ := stepped
        exact .matchReturn exits

instance (machine : Machine) (event : Event) :
    Decidable (FreshCall machine event) := by
  cases event <;> simp only [FreshCall] <;> infer_instance

/-- A history that replays is the history of a run. -/
theorem exists_bookRun_of_replay (heap : Heap) (clock : Nat → Timestamp)
    (history : List Event) (test : Machine → Bool)
    (replays : (Run.replay Machine.next? (Machine.start heap clock)
      history).any test = true) :
    ∃ machine, BookRun heap clock history machine ∧ test machine = true :=
  Run.exists_of_replay Machine.step_iff_next?.mpr _ history test replays

theorem exists_guardedRun_of_replay (condition : Machine → Event → Prop)
    [∀ machine event, Decidable (condition machine event)]
    (heap : Heap) (clock : Nat → Timestamp) (history : List Event)
    (test : Machine → Bool)
    (replays : (Run.replay (Run.guardNext condition Machine.next?)
      (Machine.start heap clock) history).any test = true) :
    ∃ machine, Run (Guarded condition Step) (Machine.start heap clock) history
      machine ∧ test machine = true :=
  Run.exists_of_replay (Run.guardNext_sound Machine.step_iff_next?.mpr) _
    history test replays

/-- A history leads to one state only. -/
theorem BookRun.unique {heap : Heap} {clock : Nat → Timestamp}
    {history : List Event} {machine other : Machine}
    (run : BookRun heap clock history machine)
    (otherRun : BookRun heap clock history other) : machine = other := by
  have replayed := Run.replay_eq run Machine.step_iff_next?.mp
  rw [Run.replay_eq otherRun Machine.step_iff_next?.mp] at replayed
  exact Option.some.inj replayed.symm

theorem store_fresh {engine : Engine} {order : OrderPtr} {fields : Order}
    (fresh : engine.Fresh order fields.id) :
    (engine.store order fields).Fresh order
      ((engine.store order fields).heap order).id := by
  refine ⟨fresh.1, fun other member => ?_⟩
  have differ : other ≠ order := ne_of_mem_of_not_mem member fresh.1
  rw [engine.store_heap_of_ne differ, engine.store_heap_self]
  exact fresh.2 other member

/-- The price in an order object. -/
def Engine.priceOf (engine : Engine) (order : OrderPtr) : Price :=
  (engine.heap order).priceScaled

/-- Inserting an order into one of the two queues adds it to the standing
orders. -/
theorem mem_standing_insertBehind {after : OrderBook} {order other : OrderPtr}
    {orderSide : Side} {price : OrderPtr → Price}
    {rest : Side → List OrderPtr}
    (queues : ∀ side, after.queue side =
      if side = orderSide then insertBehind side price order (rest side)
      else rest side) :
    other ∈ after.standing ↔ other = order ∨ ∃ side, other ∈ rest side := by
  have inserted (side : Side) : other ∈ after.queue side ↔
      (side = orderSide ∧ other = order) ∨ other ∈ rest side := by
    rw [queues]
    split
    next same => simp [(insertBehind_perm _ _ _ _).mem_iff, same]
    next differ => simp [differ]
  simp only [OrderBook.mem_standing_iff, inserted]
  constructor
  · rintro ⟨side, ⟨-, same⟩ | member⟩
    exacts [.inl same, .inr ⟨side, member⟩]
  · rintro (same | ⟨side, member⟩)
    exacts [⟨_, .inl ⟨rfl, same⟩⟩, ⟨side, .inr member⟩]

section Heaps

variable {before after : Engine} {order other : OrderPtr} {fields : Order}
  {newPrice : Price} {newQuantity : Quantity}

theorem heap_added_of_ne
    (heap : after.heap = ((before.store order fields).stamp order).heap)
    (differ : other ≠ order) : after.heap other = before.heap other := by
  rw [heap, Engine.stamp_heap_of_ne _ _ differ,
    before.store_heap_of_ne differ]

theorem heap_added_self
    (heap : after.heap = ((before.store order fields).stamp order).heap) :
    (after.heap order).id = fields.id ∧
      (after.heap order).priceScaled = fields.priceScaled ∧
      (after.heap order).quantity = fields.quantity ∧
      (after.heap order).side = fields.side := by
  have stamped := (before.store order fields).stamp_heap order order
  rwa [← heap, before.store_heap_self] at stamped

theorem heap_modified_of_ne
    (heap : after.heap =
      ((before.withdrawn order newPrice newQuantity).stamp order).heap)
    (differ : other ≠ order) : after.heap other = before.heap other := by
  rw [heap, Engine.stamp_heap_of_ne _ _ differ,
    Engine.withdrawn_heap_of_ne _ differ]

theorem heap_modified_self
    (heap : after.heap =
      ((before.withdrawn order newPrice newQuantity).stamp order).heap) :
    (after.heap order).id = (before.heap order).id ∧
      (after.heap order).priceScaled = newPrice ∧
      (after.heap order).quantity = newQuantity ∧
      (after.heap order).side = (before.heap order).side := by
  have stamped :=
    (before.withdrawn order newPrice newQuantity).stamp_heap order order
  rwa [← heap, Engine.withdrawn_heap_self] at stamped

end Heaps

/-- What a step of a fresh run does to a tidy book, with the queues it
leaves. -/
inductive Effect (before : Engine) : Event → Engine → Prop
  | refused {order : OrderPtr} {fields : Order}
      (absent : order ∉ before.book.standing) (empty : fields.quantity = 0) :
      Effect before (.addOrder order fields false) (before.store order fields)
  | added {order : OrderPtr} {fields : Order} {after : Engine}
      (fresh : before.Fresh order fields.id) (quantity : fields.quantity ≠ 0)
      (afterEq : after = ((before.store order fields).addOrder (some order)).2)
      (heap : after.heap = ((before.store order fields).stamp order).heap)
      (queues : ∀ side, after.book.queue side =
        if side = fields.bookSide then
          insertBehind side (before.store order fields).priceOf order
            (before.book.queue side)
        else before.book.queue side) :
      Effect before (.addOrder order fields true) after
  | cancelAbsent {id : OrderId} (absent : before.book.orderMap id = none) :
      Effect before (.cancelOrder id false) before
  | cancelled {order : OrderPtr} {after : Engine}
      (stands : order ∈ before.book.standing)
      (afterEq : after = (before.cancelOrder (before.heap order).id).2)
      (queues : ∀ side, after.book.queue side =
        (before.book.queue side).erase order) :
      Effect before (.cancelOrder (before.heap order).id true) after
  | modifyAbsent {id : OrderId} {newPrice : Price} {newQuantity : Quantity}
      (absent : before.book.orderMap id = none) :
      Effect before (.modifyOrder id newPrice newQuantity false) before
  | emptied {order : OrderPtr} {newPrice : Price}
      (stands : order ∈ before.book.standing)
      (queues : ∀ side, (before.withdrawn order newPrice 0).book.queue side =
        (before.book.queue side).erase order) :
      Effect before (.modifyOrder (before.heap order).id newPrice 0 false)
        (before.withdrawn order newPrice 0)
  | modified {order : OrderPtr} {newPrice : Price} {newQuantity : Quantity}
      {after : Engine} (stands : order ∈ before.book.standing)
      (quantity : newQuantity ≠ 0)
      (afterEq : after = ((before.withdrawn order newPrice newQuantity).addOrder
        (some order)).2)
      (heap : after.heap =
        ((before.withdrawn order newPrice newQuantity).stamp order).heap)
      (queues : ∀ side, after.book.queue side =
        if side = (before.heap order).bookSide then
          insertBehind side (before.withdrawn order newPrice newQuantity).priceOf
            order ((before.book.queue side).erase order)
        else (before.book.queue side).erase order) :
      Effect before
        (.modifyOrder (before.heap order).id newPrice newQuantity true) after
  | entered : Effect before .matchOrders before
  | traded {fill : Fill} {bids asks : List OrderPtr} {after : Engine}
      (pass : before.matchPass = some (fill, after))
      (passed : before.Passed fill bids asks after) :
      Effect before (.executeTrade fill) after
  | returned {tradeCount : Nat} (exits : before.matchPass = none) :
      Effect before (.matchReturn tradeCount) before

/-- A step of a fresh run from a tidy book keeps the book tidy and has one of
the effects. -/
theorem Step.effect {source target : Machine} {event : Event}
    (tidy : source.engine.Tidy) (fresh : FreshCall source event)
    (step : Step source event target) :
    target.engine.Tidy ∧ Effect source.engine event target.engine := by
  cases step with
  | @addOrder engine after _ order fields result returns =>
      have stored := tidy.store fresh.1 fields
      have written := engine.store_heap_self order fields
      by_cases empty : fields.quantity = 0
      · rw [Engine.addOrder_of_no_quantity (by rwa [written])] at returns
        obtain ⟨rfl, rfl⟩ := Prod.mk.inj returns
        exact ⟨stored, .refused fresh.1 empty⟩
      · have quantity : ((engine.store order fields).heap order).quantity ≠ 0 := by
          rwa [written]
        obtain ⟨tidyAfter, queues, heap, -⟩ :=
          stored.addOrder (store_fresh ⟨fresh.1, fresh.2 empty⟩) quantity
        have accepted := Engine.addOrder_of_quantity quantity
        rw [returns] at tidyAfter queues heap accepted
        obtain ⟨rfl, -⟩ := Prod.mk.inj accepted
        rw [written] at queues
        exact ⟨tidyAfter, .added ⟨fresh.1, fresh.2 empty⟩ empty (by rw [returns])
          heap queues⟩
  | @cancelOrder engine after _ id result returns =>
      cases found : engine.book.orderMap id with
      | none =>
          rw [Engine.cancelOrder_of_absent found] at returns
          obtain ⟨rfl, rfl⟩ := Prod.mk.inj returns
          exact ⟨tidy, .cancelAbsent found⟩
      | some order =>
          obtain ⟨stands, rfl⟩ := (tidy.consistent.indexed id order).mp found
          obtain ⟨succeeds, tidyAfter, queues, -⟩ := tidy.cancelOrder stands
          rw [returns] at succeeds tidyAfter queues
          obtain rfl : result = true := succeeds
          exact ⟨tidyAfter, .cancelled stands (by rw [returns]) queues⟩
  | @modifyOrder engine after _ id newPrice newQuantity result returns =>
      cases found : engine.book.orderMap id with
      | none =>
          rw [Engine.modifyOrder_of_absent found] at returns
          obtain ⟨rfl, rfl⟩ := Prod.mk.inj returns
          exact ⟨tidy, .modifyAbsent found⟩
      | some order =>
          obtain ⟨stands, rfl⟩ := (tidy.consistent.indexed id order).mp found
          rw [Engine.modifyOrder_of_indexed found] at returns
          obtain ⟨withdrawn, free, erased⟩ :=
            tidy.withdrawn stands newPrice newQuantity
          have written := engine.withdrawn_heap_self order newPrice newQuantity
          by_cases empty : newQuantity = 0
          · subst empty
            rw [Engine.addOrder_of_no_quantity (by rw [written]; rfl)] at returns
            obtain ⟨rfl, rfl⟩ := Prod.mk.inj returns
            exact ⟨withdrawn, .emptied stands erased⟩
          · have quantity : ((engine.withdrawn order newPrice
                newQuantity).heap order).quantity ≠ 0 := by
              rwa [written]
            have freeOrder : (engine.withdrawn order newPrice
                newQuantity).Fresh order ((engine.withdrawn order newPrice
                  newQuantity).heap order).id := by
              rwa [written]
            obtain ⟨tidyAfter, queues, heap, -⟩ :=
              withdrawn.addOrder freeOrder quantity
            have accepted := Engine.addOrder_of_quantity quantity
            rw [returns] at tidyAfter queues heap accepted
            obtain ⟨rfl, -⟩ := Prod.mk.inj accepted
            refine ⟨tidyAfter, .modified stands empty (by rw [returns]) heap
              fun side => ?_⟩
            rw [queues side, erased side, written]
            rfl
  | matchOrders => exact ⟨tidy, .entered⟩
  | executeTrade pass =>
      obtain ⟨tidyAfter, bids, asks, passed⟩ := tidy.matchPass pass
      exact ⟨tidyAfter, .traded pass passed⟩
  | matchReturn exits => exact ⟨tidy, .returned exits⟩

/-- Every state of a fresh run has a tidy book. -/
theorem FreshRun.tidy {heap : Heap} {clock : Nat → Timestamp}
    {history : List Event} {machine : Machine}
    (run : FreshRun heap clock history machine) : machine.engine.Tidy :=
  run.invariant (fun _ machine => machine.engine.Tidy)
    (Engine.new_tidy heap clock) fun _ tidy step =>
      (Step.effect tidy step.1 step.2).1

/-- A trade of a run, with the states around it. -/
theorem FreshRun.exists_trade {heap : Heap} {clock : Nat → Timestamp}
    {later earlier : List Event} {fill : Fill} {machine : Machine}
    (run : FreshRun heap clock (later ++ .executeTrade fill :: earlier)
      machine) :
    ∃ before after bids asks, FreshRun heap clock earlier before ∧
      FreshRun heap clock (.executeTrade fill :: earlier) after ∧
      Step before (.executeTrade fill) after ∧
      before.engine.Passed fill bids asks after.engine := by
  obtain ⟨after, runAfter⟩ := run.of_suffix (List.suffix_append _ _)
  cases runAfter with
  | @next _ before _ _ runBefore edge =>
      have effect := (Step.effect (FreshRun.tidy runBefore) edge.1 edge.2).2
      cases effect with
      | traded _ passed =>
          exact ⟨before, after, _, _, runBefore, .next runBefore edge, edge.2,
            passed⟩

/-- An invariant of the engine along fresh runs needs the effects only. -/
theorem FreshRun.invariant_of_effect {heap : Heap} {clock : Nat → Timestamp}
    {history : List Event} {machine : Machine}
    (run : FreshRun heap clock history machine)
    (property : List Event → Engine → Prop)
    (atStart : property [] (Engine.new heap clock))
    (preserved : ∀ {history before event after}, before.Tidy → after.Tidy →
      property history before → Effect before event after →
        property (event :: history) after) :
    property history machine.engine :=
  run.invariant (fun history machine => property history machine.engine)
    atStart fun sourceRun held step =>
      have tidy := FreshRun.tidy sourceRun
      have effect := Step.effect tidy step.1 step.2
      preserved tidy effect.1 held effect.2

end TradingMatcher
