import TradingMatcher.BookRuns

/-!
# The matching loop as a whole

A call of `matchOrders` that returns is a finite chain of passes.  Over a tidy
book every pass takes at least one order off the ladders, so the chain is no
longer than the number of standing orders, and the bounded loop finds it.
-/

namespace TradingMatcher

open PriceTime

namespace Engine

/-- The loop executes the trades `fills` and is left in `after`. -/
inductive Drains : Engine → List Fill → Engine → Prop
  | done {engine : Engine} (exits : engine.matchPass = none) :
      Drains engine [] engine
  | pass {engine middle after : Engine} {fill : Fill} {fills : List Fill}
      (executes : engine.matchPass = some (fill, middle))
      (rest : Drains middle fills after) :
      Drains engine (fill :: fills) after

theorem matchOrders_eq_some_iff {passes : Nat} {engine after : Engine}
    {fills : List Fill} :
    engine.matchOrders passes = some (fills, after) ↔
      engine.Drains fills after ∧ fills.length ≤ passes := by
  induction passes generalizing engine fills with
  | zero =>
      rw [matchOrders]
      cases pass : engine.matchPass with
      | none =>
          constructor
          · rintro ⟨⟩
            exact ⟨.done pass, Nat.le_refl _⟩
          · rintro ⟨drains, -⟩
            cases drains with
            | done => rfl
            | pass executes => simp [pass] at executes
      | some executed =>
          constructor
          · rintro ⟨⟩
          · rintro ⟨drains, short⟩
            cases drains with
            | done exits => simp [pass] at exits
            | pass => simp at short
  | succ passes ih =>
      rw [matchOrders]
      cases pass : engine.matchPass with
      | none =>
          constructor
          · rintro ⟨⟩
            exact ⟨.done pass, Nat.zero_le _⟩
          · rintro ⟨drains, -⟩
            cases drains with
            | done => rfl
            | pass executes => simp [pass] at executes
      | some executed =>
          obtain ⟨fill, middle⟩ := executed
          simp only [Option.map_eq_some_iff, Prod.exists, Prod.mk.injEq]
          constructor
          · rintro ⟨restFills, restAfter, returns, rfl, rfl⟩
            obtain ⟨drains, short⟩ := ih.mp returns
            exact ⟨.pass pass drains, Nat.succ_le_succ short⟩
          · rintro ⟨drains, short⟩
            cases drains with
            | done exits => simp [pass] at exits
            | pass executes rest =>
                rw [pass] at executes
                obtain ⟨rfl, rfl⟩ := Prod.mk.inj (Option.some.inj executes)
                exact ⟨_, _, ih.mpr ⟨rest, Nat.le_of_succ_le_succ short⟩,
                  rfl, rfl⟩

/-- A call of `matchOrders` that returns is a run of the machine: the entry,
one step for each trade, and the return with their number. -/
theorem Drains.run {engine after : Engine} {fills : List Fill}
    (drains : engine.Drains fills after) {start : Machine}
    {history : List Event} {lastTrade : Option Trade} {tradeCount : Nat}
    (run : Run Step start history ⟨engine, lastTrade, .matching tradeCount⟩) :
    ∃ finalTrade, Run Step start
      (.matchReturn (tradeCount + fills.length) ::
        ((fills.map Event.executeTrade).reverse ++ history))
      ⟨after, finalTrade, .idle⟩ := by
  induction drains generalizing history lastTrade tradeCount with
  | done exits => exact ⟨_, run.next (.matchReturn exits)⟩
  | pass executes _ ih =>
      obtain ⟨finalTrade, whole⟩ := ih (run.next (.executeTrade executes))
      refine ⟨finalTrade, ?_⟩
      simpa [Nat.add_assoc, Nat.add_comm 1] using whole

/-- Over a tidy book the loop is left after at most as many trades as there are
standing orders. -/
theorem Tidy.exists_drains {engine : Engine} (tidy : engine.Tidy) :
    ∃ fills after, engine.Drains fills after ∧
      fills.length ≤ engine.book.standing.length ∧ after.Tidy := by
  induction size : engine.book.standing.length using Nat.strong_induction_on
    generalizing engine with
  | _ size ih =>
      subst size
      cases pass : engine.matchPass with
      | none => exact ⟨[], engine, .done pass, Nat.zero_le _, tidy⟩
      | some executed =>
          obtain ⟨fill, middle⟩ := executed
          obtain ⟨tidyMiddle, bids, asks, passed⟩ := tidy.matchPass pass
          have shorter := passed.standing_length_lt
          obtain ⟨fills, after, drains, bound, tidyAfter⟩ :=
            ih _ shorter tidyMiddle rfl
          refine ⟨fill :: fills, after, .pass pass drains, ?_, tidyAfter⟩
          rw [List.length_cons]
          omega

theorem Drains.exits {engine after : Engine} {fills : List Fill}
    (drains : engine.Drains fills after) : after.matchPass = none := by
  induction drains with
  | done exits => exact exits
  | pass _ _ ih => exact ih

/-- The loop trades between two heads of which the bid is used up without
being in the index. -/
def Haunted (engine : Engine) (bid ask : OrderPtr) : Prop :=
  engine.book.hasMatch = true ∧ engine.book.getBestBid = some bid ∧
    engine.book.getBestAsk = some ask ∧
    (engine.heap ask).priceScaled ≤ (engine.heap bid).priceScaled ∧
    (engine.heap bid).quantity = 0 ∧
    engine.book.orderMap (engine.heap bid).id = none ∧
    0 < (engine.heap ask).quantity

instance (engine : Engine) (bid ask : OrderPtr) :
    Decidable (engine.Haunted bid ask) :=
  inferInstanceAs (Decidable (_ ∧ _))

@[simp]
theorem reduceQuantity_zero (engine : Engine) (order : OrderPtr) :
    engine.reduceQuantity order 0 = engine := by
  simp [reduceQuantity, store]

/-- Such a pass trades nothing, finds no order to cancel, and changes nothing
but the clock. -/
theorem Haunted.matchPass {engine : Engine} {bid ask : OrderPtr}
    (haunted : engine.Haunted bid ask) :
    ∃ fill, engine.matchPass = some (fill, engine.getTimestampNs.2) := by
  obtain ⟨matched, bestBid, bestAsk, crossed, usedUp, absent, quantity⟩ :=
    haunted
  have nothing : matchQuantity (engine.heap bid) (engine.heap ask) = 0 := by
    rw [matchQuantity, usedUp, if_pos quantity]
  have bidStays : engine.getTimestampNs.2.removeFilled bid =
      engine.getTimestampNs.2 := by
    have absentNow : engine.getTimestampNs.2.book.orderMap
        (engine.getTimestampNs.2.heap bid).id = none := absent
    rw [removeFilled, cancelOrder_of_absent absentNow, ite_self]
  have askStays : engine.getTimestampNs.2.removeFilled ask =
      engine.getTimestampNs.2 :=
    if_neg (UInt32.pos_iff_ne_zero.mp quantity)
  simp only [Engine.matchPass, matched, if_true, bestBid, bestAsk,
    if_neg crossed.not_gt, nothing, executeTrade, reduceQuantity_zero]
  rw [bidStays, askStays]
  exact ⟨_, rfl⟩

theorem Haunted.matchOrders_eq_none {engine : Engine} {bid ask : OrderPtr}
    (haunted : engine.Haunted bid ask) (passes : Nat) :
    engine.matchOrders passes = none := by
  induction passes generalizing engine with
  | zero =>
      obtain ⟨fill, pass⟩ := haunted.matchPass
      rw [matchOrders, pass]
  | succ passes ih =>
      obtain ⟨fill, pass⟩ := haunted.matchPass
      rw [matchOrders, pass]
      have again : engine.getTimestampNs.2.Haunted bid ask := haunted
      simp only [ih again, Option.map_none]

end Engine

/-- In every state of a fresh run the loop, started there, ends after at most
as many passes as orders stand. -/
theorem freshRun_matchOrders_returns {heap : Heap} {clock : Nat → Timestamp}
    {history : List Event} {machine : Machine}
    (run : FreshRun heap clock history machine) :
    ∃ fills after, fills.length ≤ machine.engine.book.standing.length ∧
      ∀ passes, machine.engine.book.standing.length ≤ passes →
        machine.engine.matchOrders passes = some (fills, after) := by
  obtain ⟨fills, after, drains, bound, -⟩ := run.tidy.exists_drains
  refine ⟨fills, after, bound, fun passes enough => ?_⟩
  exact Engine.matchOrders_eq_some_iff.mpr ⟨drains, bound.trans enough⟩

theorem freshRun_matchOrders_returns_crossed :
    ∃ machine, FreshRun zeroHeap tickingClock
        [.addOrder 2 (Order.new 2 false 3 90 0) true,
          .addOrder 1 (Order.new 1 true 5 100 0) true] machine ∧
      ∃ fills after, fills.length ≤ machine.engine.book.standing.length ∧
        ∀ passes, machine.engine.book.standing.length ≤ passes →
          machine.engine.matchOrders passes = some (fills, after) := by
  obtain ⟨machine, run, -⟩ := exists_guardedRun_of_replay FreshCall zeroHeap
    tickingClock [.addOrder 2 (Order.new 2 false 3 90 0) true,
      .addOrder 1 (Order.new 1 true 5 100 0) true] (fun _ => true) (by decide)
  exact ⟨machine, run, freshRun_matchOrders_returns run⟩

/-- Two buys with one identifier at different prices: the fill of the better
one cancels the other, and the loop goes on with an order without quantity. -/
theorem matchOrders_hangs_on_repeated_id :
    ∃ machine, BookRun zeroHeap tickingClock
        [.addOrder 3 (Order.new 3 false 11 95 0) true,
          .addOrder 2 (Order.new 1 true 5 90 0) true,
          .addOrder 1 (Order.new 1 true 5 100 0) true] machine ∧
      machine.phase = .idle ∧
      ∀ passes, machine.engine.matchOrders passes = none := by
  obtain ⟨machine, run, passes⟩ := exists_bookRun_of_replay zeroHeap
    tickingClock
    [.addOrder 3 (Order.new 3 false 11 95 0) true,
      .addOrder 2 (Order.new 1 true 5 90 0) true,
      .addOrder 1 (Order.new 1 true 5 100 0) true]
    (fun machine => machine.phase = .idle ∧
      machine.engine.matchPass.any fun executed => executed.2.Haunted 1 3)
    (by decide)
  simp only [Bool.decide_and, Bool.and_eq_true, decide_eq_true_eq,
    Option.any_eq_true] at passes
  obtain ⟨idle, ⟨fill, middle⟩, first, haunted⟩ := passes
  refine ⟨machine, run, idle, fun passes => ?_⟩
  cases passes with
  | zero => rw [Engine.matchOrders, first]
  | succ passes =>
      rw [Engine.matchOrders, first]
      simp only [haunted.matchOrders_eq_none, Option.map_none]

end TradingMatcher
