import TradingMatcher.OrderBook

/-!
# The matcher

One pass of the matching loop, the trade it executes, and the loop.  The loop
is given a number of passes it may make, so that a call that never returns is
a call that returns for no number of passes.
-/

namespace TradingMatcher

structure Trade where
  buyOrderId : OrderId
  sellOrderId : OrderId
  quantity : Quantity
  priceScaled : Price
  timestampNs : Timestamp
  deriving DecidableEq, Repr

/-- A call of `executeTrade`: the two orders it is given and the trade it
records. -/
structure Fill where
  bid : OrderPtr
  ask : OrderPtr
  trade : Trade
  deriving DecidableEq, Repr

namespace Engine

/-- Take a traded quantity off an order. -/
def reduceQuantity (engine : Engine) (order : OrderPtr) (quantity : Quantity) :
    Engine :=
  engine.store order { engine.heap order with
    quantity := (engine.heap order).quantity - quantity }

/-- Cancel an order that has no quantity left. -/
def removeFilled (engine : Engine) (order : OrderPtr) : Engine :=
  if (engine.heap order).quantity = 0 then
    (engine.cancelOrder (engine.heap order).id).2
  else engine

/-- Execute a trade between two orders, recording it. -/
def executeTrade (engine : Engine) (bid ask : OrderPtr) (price : Price)
    (quantity : Quantity) : Trade × Engine :=
  let (now, engine) := engine.getTimestampNs
  let trade : Trade := {
    buyOrderId := (engine.heap bid).id
    sellOrderId := (engine.heap ask).id
    quantity := quantity
    priceScaled := price
    timestampNs := now }
  let engine := (engine.reduceQuantity bid quantity).reduceQuantity ask quantity
  (trade, (engine.removeFilled bid).removeFilled ask)

/-- The price of a trade: the order with the earlier timestamp sets it. -/
def matchPrice (bid ask : Order) : Price :=
  if bid.timestampNs < ask.timestampNs then bid.priceScaled
  else ask.priceScaled

/-- The quantity of a trade: the smaller of the two. -/
def matchQuantity (bid ask : Order) : Quantity :=
  if bid.quantity < ask.quantity then bid.quantity else ask.quantity

/-- One pass of the matching loop, or `none` when the loop is left. -/
def matchPass (engine : Engine) : Option (Fill × Engine) :=
  if engine.book.hasMatch then
    match engine.book.getBestBid, engine.book.getBestAsk with
    | some bid, some ask =>
        let bidFields := engine.heap bid
        let askFields := engine.heap ask
        if bidFields.priceScaled < askFields.priceScaled then none
        else
          let (trade, engine) := engine.executeTrade bid ask
            (matchPrice bidFields askFields) (matchQuantity bidFields askFields)
          some (⟨bid, ask, trade⟩, engine)
    | _, _ => none
  else none

/-- The matching loop, allowed to make at most `passes` passes: the trades in
order and the state it leaves, or `none` when it would go on.  The trade count
it returns is the number of trades. -/
def matchOrders : Nat → Engine → Option (List Fill × Engine)
  | passes, engine =>
      match engine.matchPass with
      | none => some ([], engine)
      | some (fill, engine) =>
          match passes with
          | 0 => none
          | passes + 1 =>
              (matchOrders passes engine).map fun result =>
                (fill :: result.1, result.2)

end Engine

end TradingMatcher
