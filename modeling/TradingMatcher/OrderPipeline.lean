import TradingMatcher.BoundedFifo
import TradingMatcher.HandOffDelivery
import TradingMatcher.HeapFrame
import TradingMatcher.MatchLoop

/-!
# From the queue into the book

The market data handler takes order objects, assigns them and pushes their
addresses; the order matcher pops an address, adds the order to its book and
matches.  The threads share the objects: the handler writes an object before it
pushes it, and the matcher from the moment it has popped it.

The matcher is the loop `orderMatcher` of the usage examples, which stand in a
comment.  The handler of these examples parses its orders with a function that
does not exist, so the handler here takes them as the producer of
`demonstrateSPSCQueue` does.  That an object is taken once only is assumed of
the pool here; it holds of `OrderPools` where nothing is given back.
-/

namespace TradingMatcher

open PriceTime

inductive HandlerPc
  | running
  | allocated (order : OrderPtr)
  | pushing (order : OrderPtr)
  deriving DecidableEq

/-- While `running`, the matcher calls `pop`. -/
inductive MatcherPc
  | running
  | popped (order : OrderPtr)
  | added
  | matching (tradeCount : Nat)
  deriving DecidableEq

/-- The queue and the matcher's book with the places of the two threads.  The
objects in `handedOut` have been taken; none is given back. -/
structure OrderPipeline where
  orderQueue : Ring Unit Unit OrderPtr
  engine : Engine
  lastTrade : Option Trade
  handedOut : List OrderPtr
  handler : HandlerPc
  matcher : MatcherPc

/-- The steps of the two threads; an added order comes with the fields that the
matcher finds in it. -/
inductive PipelineEvent
  | allocate (order : OrderPtr)
  | assign (order : OrderPtr) (fields : Order)
  | push (event : RingEvent Unit Unit OrderPtr)
  | pop (event : RingEvent Unit Unit OrderPtr)
  | addOrder (order : OrderPtr) (fields : Order) (result : Bool)
  | matchOrders
  | executeTrade (fill : Fill)
  | matchReturn (tradeCount : Nat)
  deriving DecidableEq

/-- The handler goes on when `push` returns; the result is not looked at. -/
def HandlerPc.resume (order : OrderPtr) :
    RingEvent Unit Unit OrderPtr → HandlerPc
  | .pushFull _ | .pushStoreWrite _ _ => .running
  | _ => .pushing order

def MatcherPc.resume : RingEvent Unit Unit OrderPtr → MatcherPc
  | .popStoreRead _ order => .popped order
  | _ => .running

/-- Before the two threads start. -/
def OrderPipeline.start (buffer : Nat → OrderPtr) (heap : Heap)
    (clock : Nat → Timestamp) : OrderPipeline where
  orderQueue := .new buffer
  engine := .new heap clock
  lastTrade := none
  handedOut := []
  handler := .running
  matcher := .running

/-- One step of one of the threads.  An object that is allocated is zeroed, and
has not been handed out before. -/
inductive PipelineStep (size : RingSize) :
    OrderPipeline → PipelineEvent → OrderPipeline → Prop
  | allocate {pipeline : OrderPipeline} {order : OrderPtr}
      (pc : pipeline.handler = .running) (new : order ∉ pipeline.handedOut) :
      PipelineStep size pipeline (.allocate order) { pipeline with
        engine := pipeline.engine.store order Order.zero
        handedOut := order :: pipeline.handedOut
        handler := .allocated order }
  | assign {pipeline : OrderPipeline} {order : OrderPtr} {fields : Order}
      (pc : pipeline.handler = .allocated order) :
      PipelineStep size pipeline (.assign order fields) { pipeline with
        engine := pipeline.engine.store order fields
        handler := .pushing order }
  | push {pipeline : OrderPipeline} {order : OrderPtr}
      {event : RingEvent Unit Unit OrderPtr}
      {orderQueue : Ring Unit Unit OrderPtr}
      (pc : pipeline.handler = .pushing order) (pushes : event.IsPushOf order)
      (edge : RingStep size pipeline.orderQueue event orderQueue) :
      PipelineStep size pipeline (.push event)
        { pipeline with orderQueue, handler := .resume order event }
  | pop {pipeline : OrderPipeline} {event : RingEvent Unit Unit OrderPtr}
      {orderQueue : Ring Unit Unit OrderPtr}
      (pc : pipeline.matcher = .running) (pops : event.IsPop)
      (edge : RingStep size pipeline.orderQueue event orderQueue) :
      PipelineStep size pipeline (.pop event)
        { pipeline with orderQueue, matcher := .resume event }
  | addOrder {pipeline : OrderPipeline} {order : OrderPtr} {result : Bool}
      {engine : Engine} (pc : pipeline.matcher = .popped order)
      (returns : pipeline.engine.addOrder (some order) = (result, engine)) :
      PipelineStep size pipeline
        (.addOrder order (pipeline.engine.heap order) result)
        { pipeline with engine, matcher := .added }
  | matchOrders {pipeline : OrderPipeline} (pc : pipeline.matcher = .added) :
      PipelineStep size pipeline .matchOrders
        { pipeline with matcher := .matching 0 }
  | executeTrade {pipeline : OrderPipeline} {tradeCount : Nat} {fill : Fill}
      {engine : Engine} (pc : pipeline.matcher = .matching tradeCount)
      (pass : pipeline.engine.matchPass = some (fill, engine)) :
      PipelineStep size pipeline (.executeTrade fill) { pipeline with
        engine
        lastTrade := some fill.trade
        matcher := .matching (tradeCount + 1) }
  | matchReturn {pipeline : OrderPipeline} {tradeCount : Nat}
      (pc : pipeline.matcher = .matching tradeCount)
      (exits : pipeline.engine.matchPass = none) :
      PipelineStep size pipeline (.matchReturn tradeCount)
        { pipeline with matcher := .running }

/-- The step that an event names, if it can be taken. -/
def OrderPipeline.next? (size : RingSize) (pipeline : OrderPipeline) :
    PipelineEvent → Option OrderPipeline
  | .allocate order =>
      if pipeline.handler = .running ∧ order ∉ pipeline.handedOut then
        some { pipeline with
          engine := pipeline.engine.store order Order.zero
          handedOut := order :: pipeline.handedOut
          handler := .allocated order }
      else none
  | .assign order fields =>
      if pipeline.handler = .allocated order then
        some { pipeline with
          engine := pipeline.engine.store order fields
          handler := .pushing order }
      else none
  | .push event =>
      match pipeline.handler with
      | .pushing order =>
          if event.IsPushOf order then
            (pipeline.orderQueue.next? size event).map fun orderQueue =>
              { pipeline with orderQueue, handler := .resume order event }
          else none
      | _ => none
  | .pop event =>
      if pipeline.matcher = .running ∧ event.IsPop then
        (pipeline.orderQueue.next? size event).map fun orderQueue =>
          { pipeline with orderQueue, matcher := .resume event }
      else none
  | .addOrder order fields result =>
      let added := pipeline.engine.addOrder (some order)
      if pipeline.matcher = .popped order ∧ added.1 = result ∧
          pipeline.engine.heap order = fields then
        some { pipeline with engine := added.2, matcher := .added }
      else none
  | .matchOrders =>
      if pipeline.matcher = .added then
        some { pipeline with matcher := .matching 0 }
      else none
  | .executeTrade fill =>
      match pipeline.matcher, pipeline.engine.matchPass with
      | .matching tradeCount, some (executed, engine) =>
          if executed = fill then
            some { pipeline with
              engine
              lastTrade := some fill.trade
              matcher := .matching (tradeCount + 1) }
          else none
      | _, _ => none
  | .matchReturn tradeCount =>
      if pipeline.matcher = .matching tradeCount ∧
          pipeline.engine.matchPass.isNone then
        some { pipeline with matcher := .running }
      else none

theorem PipelineStep.of_next? {size : RingSize} {source target : OrderPipeline}
    {event : PipelineEvent} (taken : source.next? size event = some target) :
    PipelineStep size source event target := by
  cases event with
  | allocate order =>
      obtain ⟨⟨pc, new⟩, ⟨⟩⟩ := Option.ite_none_right_eq_some.mp taken
      exact .allocate pc new
  | assign order fields =>
      obtain ⟨pc, ⟨⟩⟩ := Option.ite_none_right_eq_some.mp taken
      exact .assign pc
  | push event =>
      simp only [OrderPipeline.next?] at taken
      split at taken
      next order pc =>
        obtain ⟨pushes, moved⟩ := Option.ite_none_right_eq_some.mp taken
        obtain ⟨orderQueue, edge, rfl⟩ := Option.map_eq_some_iff.mp moved
        exact .push pc pushes (.of_next? edge)
      next => cases taken
  | pop event =>
      obtain ⟨⟨pc, pops⟩, moved⟩ := Option.ite_none_right_eq_some.mp taken
      obtain ⟨orderQueue, edge, rfl⟩ := Option.map_eq_some_iff.mp moved
      exact .pop pc pops (.of_next? edge)
  | addOrder order fields result =>
      obtain ⟨⟨pc, rfl, rfl⟩, ⟨⟩⟩ := Option.ite_none_right_eq_some.mp taken
      exact .addOrder pc rfl
  | matchOrders =>
      obtain ⟨pc, ⟨⟩⟩ := Option.ite_none_right_eq_some.mp taken
      exact .matchOrders pc
  | executeTrade fill =>
      simp only [OrderPipeline.next?] at taken
      split at taken
      next tradeCount executed engine pc pass =>
        obtain ⟨rfl, ⟨⟩⟩ := Option.ite_none_right_eq_some.mp taken
        exact .executeTrade pc pass
      next => cases taken
  | matchReturn tradeCount =>
      obtain ⟨⟨pc, exits⟩, ⟨⟩⟩ := Option.ite_none_right_eq_some.mp taken
      exact .matchReturn pc (Option.isNone_iff_eq_none.mp exits)

theorem exists_pipelineRun_of_replay (size : RingSize) (start : OrderPipeline)
    (history : List PipelineEvent) (test : OrderPipeline → Bool)
    (replays : (Run.replay (OrderPipeline.next? size) start history).any
      test = true) :
    ∃ pipeline, Run (PipelineStep size) start history pipeline ∧
      test pipeline = true :=
  Run.exists_of_replay PipelineStep.of_next? _ history test replays

end TradingMatcher
