import TradingMatcher.Relabelling

/-!
# Symmetries of the book

Prices can be rescaled, and types changed, without any effect on who trades with
whom, when and for how much.  The sides can be turned round together with the
order of the prices: buyers and sellers are treated alike as long as all prices
are positive, but for a trade of two orders with the same timestamp.
-/

namespace TradingMatcher

open PriceTime

/-- The price that a call gives to an order is one of the prices. -/
def Event.PricedIn (prices : Set Price) : Event → Prop
  | .addOrder _ fields _ => fields.priceScaled ∈ prices
  | .modifyOrder _ newPrice _ _ => newPrice ∈ prices
  | _ => True

/-- The timestamps say which of the two prices a trade has. -/
def Untied (machine : Machine) : Event → Prop
  | .executeTrade fill =>
      (machine.engine.heap fill.bid).timestampNs ≠
          (machine.engine.heap fill.ask).timestampNs ∨
        (machine.engine.heap fill.bid).priceScaled =
          (machine.engine.heap fill.ask).priceScaled
  | _ => True

/-- A fresh call whose price is one of the prices. -/
def PricedCall (prices : Set Price) (machine : Machine) (event : Event) : Prop :=
  FreshCall machine event ∧ event.PricedIn prices

/-- Such a call, or a trade whose price does not hang on a tie. -/
def UntiedCall (prices : Set Price) (machine : Machine) (event : Event) : Prop :=
  PricedCall prices machine event ∧ Untied machine event

section Decisions

variable (prices : Set Price) [DecidablePred (· ∈ prices)] (machine : Machine)

instance : DecidablePred (Event.PricedIn prices)
  | .addOrder _ fields _ =>
      inferInstanceAs (Decidable (fields.priceScaled ∈ prices))
  | .modifyOrder _ newPrice _ _ => inferInstanceAs (Decidable (newPrice ∈ prices))
  | .cancelOrder .. | .matchOrders | .executeTrade _ | .matchReturn _ =>
      .isTrue trivial

instance : DecidablePred (Untied machine)
  | .executeTrade _ => inferInstanceAs (Decidable (_ ∨ _))
  | .addOrder .. | .cancelOrder .. | .modifyOrder .. | .matchOrders
  | .matchReturn _ => .isTrue trivial

instance (event : Event) : Decidable (PricedCall prices machine event) :=
  inferInstanceAs (Decidable (_ ∧ _))

instance (event : Event) : Decidable (UntiedCall prices machine event) :=
  inferInstanceAs (Decidable (_ ∧ _))

end Decisions

/-- The second machine has the orders of the first one, relabelled, and is at
the same point of the same call. -/
structure Machine.Relabelled (relabelling : Relabelling) (prices : Set Price)
    (first second : Machine) : Prop where
  engine : first.engine.Relabelled relabelling prices second.engine
  lastTrade : second.lastTrade = first.lastTrade.map relabelling.trade
  phase : second.phase = first.phase

section Runs

variable {relabelling : Relabelling} {prices : Set Price}

theorem Machine.relabelled_start (heap otherHeap : Heap)
    (clock : Nat → Timestamp) :
    (Machine.start heap clock).Relabelled relabelling prices
      (.start otherHeap clock) where
  engine := by
    refine ⟨rfl, fun side => ?_, nofun, nofun⟩
    cases side <;> cases relabelling.side _ <;> rfl
  lastTrade := rfl
  phase := rfl

/-- The relabelled step can be taken, and leads to the relabelled machine. -/
theorem Machine.Relabelled.step {first second target : Machine} {event : Event}
    (relabelled : first.Relabelled relabelling prices second)
    (keeps : relabelling.Keeps prices) (tidy : first.engine.Tidy)
    (otherTidy : second.engine.Tidy) (priced : PricedCall prices first event)
    (untied : relabelling.mirrored = true → Untied first event)
    (edge : Step first event target) :
    ∃ other, Guarded FreshCall Step second (relabelling.event event) other ∧
      target.Relabelled relabelling prices other := by
  obtain ⟨other, _, _⟩ := second
  obtain ⟨orders, lastTrade, phase⟩ := relabelled
  dsimp only at orders lastTrade phase otherTidy
  subst lastTrade phase
  obtain ⟨fresh, priced⟩ := priced
  cases edge with
  | @addOrder engine after lastTrade order fields result returns =>
      have absent : order ∉ other.book.standing := fun stands =>
        fresh.1 (orders.mem_standing.mp stands)
      have free (quantity : fields.quantity ≠ 0) :
          engine.Fresh order fields.id := ⟨fresh.1, fresh.2 quantity⟩
      have stored := orders.store fresh.1 fields (relabelling.order fields)
      obtain ⟨sameResult, added⟩ := stored.addOrder keeps
        (tidy.store fresh.1 fields) (otherTidy.store absent _)
        (fun quantity => store_fresh (free (by
          rwa [Engine.store_heap_self] at quantity)))
        (by rw [Engine.store_heap_self, Engine.store_heap_self])
        (by rwa [Engine.store_heap_self])
      rw [returns] at sameResult added
      have otherReturns : (other.store order (relabelling.order fields)).addOrder
          (some order) = (result, ((other.store order
            (relabelling.order fields)).addOrder (some order)).2) :=
        Prod.ext sameResult rfl
      exact ⟨_, ⟨⟨absent, fun quantity => (orders.fresh (free quantity)).2⟩,
        .addOrder otherReturns⟩, added, rfl, rfl⟩
  | @cancelOrder engine after lastTrade id result returns =>
      obtain ⟨sameResult, cancelled⟩ := orders.cancelOrder tidy otherTidy id
      rw [returns] at sameResult cancelled
      have otherReturns : other.cancelOrder id =
          (result, (other.cancelOrder id).2) := Prod.ext sameResult rfl
      exact ⟨_, ⟨trivial, .cancelOrder otherReturns⟩, cancelled, rfl, rfl⟩
  | @modifyOrder engine after lastTrade id newPrice newQuantity result returns =>
      obtain ⟨sameResult, modified⟩ :=
        orders.modifyOrder keeps tidy otherTidy id priced newQuantity
      rw [returns] at sameResult modified
      have otherReturns : other.modifyOrder id (relabelling.price newPrice)
          newQuantity = (result, (other.modifyOrder id
            (relabelling.price newPrice) newQuantity).2) :=
        Prod.ext sameResult rfl
      exact ⟨_, ⟨trivial, .modifyOrder otherReturns⟩, modified, rfl, rfl⟩
  | matchOrders => exact ⟨_, ⟨trivial, .matchOrders⟩, orders, rfl, rfl⟩
  | executeTrade pass =>
      obtain ⟨otherAfter, otherPass, traded⟩ :=
        orders.matchPass keeps tidy otherTidy pass untied
      exact ⟨_, ⟨trivial, .executeTrade otherPass⟩, traded, rfl, rfl⟩
  | matchReturn exits =>
      exact ⟨_, ⟨trivial, .matchReturn (orders.exits keeps tidy otherTidy exits)⟩,
        orders, rfl, rfl⟩

variable {heap otherHeap : Heap} {clock : Nat → Timestamp}
  {history : List Event} {machine : Machine}

theorem Relabelling.Keeps.run (keeps : relabelling.Keeps prices)
    {condition : Machine → Event → Prop}
    (priced : ∀ machine event, condition machine event →
      PricedCall prices machine event)
    (untied : relabelling.mirrored = true → ∀ machine event,
      condition machine event → Untied machine event)
    (run : Run (Guarded condition Step) (.start heap clock) history machine) :
    ∃ other, FreshRun otherHeap clock (history.map relabelling.event) other ∧
      machine.Relabelled relabelling prices other := by
  induction run with
  | start => exact ⟨_, .start, Machine.relabelled_start heap otherHeap clock⟩
  | @next history source target event run edge ih =>
      obtain ⟨other, otherRun, relabelled⟩ := ih
      have freshRun : FreshRun heap clock history source :=
        run.mono fun step => ⟨(priced _ _ step.1).1, step.2⟩
      obtain ⟨after, otherEdge, relabelledAfter⟩ := relabelled.step keeps
        (FreshRun.tidy freshRun) (FreshRun.tidy otherRun) (priced _ _ edge.1)
        (fun mirrored => untied mirrored _ _ edge.1) edge.2
      exact ⟨after, otherRun.next otherEdge, relabelledAfter⟩

/-- Prices that keep their order and their sign make a run with the same trades,
in which only the prices of the orders and of the trades are others; the types
and the reserved bytes of the orders do not matter. -/
theorem run_rescaled {price : Price → Price} (orderType : UInt8 → UInt8)
    (reserved : UInt16 → UInt16) (increasing : StrictMonoOn price prices)
    (sign : ∀ scaled ∈ prices, 0 < price scaled ↔ 0 < scaled)
    (run : Run (Guarded (PricedCall prices) Step) (.start heap clock) history
      machine) :
    ∃ other, FreshRun otherHeap clock
        (history.map (Relabelling.mk false price orderType reserved).event)
        other ∧
      machine.Relabelled ⟨false, price, orderType, reserved⟩ prices other := by
  have keeps : Relabelling.Keeps ⟨false, price, orderType, reserved⟩ prices := by
    refine ⟨fun first member second otherMember side => ?_, sign⟩
    cases side
    exacts [increasing.lt_iff_lt otherMember member,
      increasing.lt_iff_lt member otherMember]
  exact keeps.run (fun _ _ call => call) nofun run

/-- Two prices, and a run that trades at one of them. -/
def twoPrices : Set Price := {price | price = 90 ∨ price = 95}

instance : DecidablePred (· ∈ twoPrices) :=
  fun price => inferInstanceAs (Decidable (price = 90 ∨ price = 95))

def takenOffer : List Event :=
  [.matchReturn 1, .executeTrade ⟨2, 1, ⟨101, 100, 5, 90, 1⟩⟩, .matchOrders,
    .addOrder 2 (Order.new 101 true 5 95 2) true,
    .addOrder 1 (Order.new 100 false 7 90 1) true]

theorem run_rescaled_millionfold :
    ∃ machine, Run (Guarded (PricedCall twoPrices) Step)
        (.start zeroHeap tickingClock) takenOffer machine ∧
      ∃ other, FreshRun zeroHeap tickingClock (takenOffer.map
          (Relabelling.mk false (1000000 * ·) (fun _ => 2) id).event) other ∧
        machine.Relabelled ⟨false, (1000000 * ·), fun _ => 2, id⟩ twoPrices
          other := by
  obtain ⟨machine, run, -⟩ := exists_guardedRun_of_replay (PricedCall twoPrices)
    zeroHeap tickingClock takenOffer (fun _ => true) (by decide +kernel)
  refine ⟨machine, run, run_rescaled _ _ ?_ ?_ run⟩
  · rintro first (rfl | rfl) second (rfl | rfl) <;> decide
  · rintro scaled (rfl | rfl) <;> decide

/-- When all sides and the order of the prices, which stay positive, are turned
round, the mirrored run makes the mirrored trades. -/
theorem run_mirrored {price : Price → Price} (orderType : UInt8 → UInt8)
    (reserved : UInt16 → UInt16) (decreasing : StrictAntiOn price prices)
    (positive : ∀ scaled ∈ prices, 0 < scaled ∧ 0 < price scaled)
    (run : Run (Guarded (UntiedCall prices) Step) (.start heap clock) history
      machine) :
    ∃ other, FreshRun otherHeap clock
        (history.map (Relabelling.mk true price orderType reserved).event)
        other ∧
      machine.Relabelled ⟨true, price, orderType, reserved⟩ prices other := by
  have keeps : Relabelling.Keeps ⟨true, price, orderType, reserved⟩ prices := by
    refine ⟨fun first member second otherMember side => ?_, fun scaled member =>
      iff_of_true (positive scaled member).2 (positive scaled member).1⟩
    cases side
    exacts [decreasing.lt_iff_gt member otherMember,
      decreasing.lt_iff_gt otherMember member]
  exact keeps.run (fun _ _ call => call.1) (fun _ _ _ call => call.2) run

theorem run_mirrored_takenBid :
    ∃ machine, Run (Guarded (UntiedCall twoPrices) Step)
        (.start zeroHeap tickingClock) takenOffer machine ∧
      ∃ other, FreshRun zeroHeap tickingClock (takenOffer.map
          (Relabelling.mk true (185 - ·) id id).event) other ∧
        machine.Relabelled ⟨true, (185 - ·), id, id⟩ twoPrices other := by
  obtain ⟨machine, run, -⟩ := exists_guardedRun_of_replay (UntiedCall twoPrices)
    zeroHeap tickingClock takenOffer (fun _ => true) (by decide +kernel)
  refine ⟨machine, run, run_mirrored _ _ ?_ ?_ run⟩
  · rintro first (rfl | rfl) second (rfl | rfl) <;> decide
  · rintro scaled (rfl | rfl) <;> decide

end Runs

end TradingMatcher
