import TradingMatcher.Order
import TradingMatcher.SortedMap
import Mathlib.Logic.Function.Basic

/-!
# The order book

The price ladders, the index by order identifier and the two cached prices,
with the operations of the book in the order in which the code performs them.
An operation reads and writes the order objects through the heap it is given.
-/

namespace TradingMatcher

open PriceTime

/-- The FIFO queue of the orders at one price, with its running totals. -/
structure PriceLevel where
  orders : List OrderPtr
  totalQuantity : Quantity
  orderCount : Nat
  deriving DecidableEq, Repr

namespace PriceLevel

/-- The level a ladder creates for a price it does not hold yet. -/
def new : PriceLevel := ⟨[], 0, 0⟩

/-- Append an order to the queue. -/
def addOrder (heap : Heap) (level : PriceLevel) (order : OrderPtr) :
    PriceLevel where
  orders := level.orders ++ [order]
  totalQuantity := level.totalQuantity + (heap order).quantity
  orderCount := level.orderCount + 1

/-- Remove the first order with an identifier. -/
def removeOrder (heap : Heap) (level : PriceLevel) (id : OrderId) :
    Bool × PriceLevel :=
  match level.orders.find? fun order => (heap order).id = id with
  | none => (false, level)
  | some order =>
      (true, {
        orders := level.orders.eraseP fun order => (heap order).id = id
        totalQuantity := level.totalQuantity - (heap order).quantity
        orderCount := level.orderCount - 1 })

/-- The first order of the queue. -/
def getBestOrder (level : PriceLevel) : Option OrderPtr :=
  level.orders.head?

def getTotalQuantity (level : PriceLevel) : Quantity :=
  level.totalQuantity

def isEmpty (level : PriceLevel) : Bool :=
  level.orders.isEmpty

end PriceLevel

/-- A price ladder: the levels of one side, sorted by price. -/
abbrev Ladder := SortedMap Price PriceLevel

namespace Ladder

/-- Append an order to the level of a price, creating the level if needed. -/
def addOrder (heap : Heap) (ladder : Ladder) (price : Price)
    (order : OrderPtr) : Ladder :=
  ladder.insert price
    (((ladder.find? price).getD PriceLevel.new).addOrder heap order)

/-- Remove an order from the level of a price, and the level when it becomes
empty.  The result is `none` when the ladder has no such level. -/
def removeOrder (heap : Heap) (ladder : Ladder) (price : Price)
    (id : OrderId) : Option (Bool × Ladder) :=
  (ladder.find? price).map fun level =>
    let removal := level.removeOrder heap id
    (removal.1,
      if removal.2.isEmpty then ladder.erase price
      else ladder.insert price removal.2)

end Ladder

/-- The order book. A cached best price is 0 while its side is empty. -/
structure OrderBook where
  buyLevels : Ladder
  sellLevels : Ladder
  orderMap : OrderId → Option OrderPtr
  bestBidPrice : Price
  bestAskPrice : Price

namespace OrderBook

/-- The book as constructed. -/
def new : OrderBook where
  buyLevels := SortedMap.empty
  sellLevels := SortedMap.empty
  orderMap _ := none
  bestBidPrice := 0
  bestAskPrice := 0

def updateBestBid (book : OrderBook) : OrderBook :=
  { book with bestBidPrice :=
      match book.buyLevels.last? with
      | none => 0
      | some highest => highest.1 }

def updateBestAsk (book : OrderBook) : OrderBook :=
  { book with bestAskPrice :=
      match book.sellLevels.first? with
      | none => 0
      | some lowest => lowest.1 }

/-- Assign or, with `none`, erase the index entry of an identifier. -/
def withIndex (book : OrderBook) (id : OrderId) (entry : Option OrderPtr) :
    OrderBook :=
  { book with orderMap := Function.update book.orderMap id entry }

/-- Enter an order, already checked and stamped, into the index and the ladder
of its side. -/
def enter (heap : Heap) (book : OrderBook) (order : OrderPtr) : OrderBook :=
  let fields := heap order
  let book := book.withIndex fields.id (some order)
  if fields.isBuy then
    { book with buyLevels :=
        book.buyLevels.addOrder heap fields.priceScaled order }.updateBestBid
  else
    { book with sellLevels :=
        book.sellLevels.addOrder heap fields.priceScaled order }.updateBestAsk

/-- Cancel an order by its identifier. -/
def cancelOrder (heap : Heap) (book : OrderBook) (id : OrderId) :
    Bool × OrderBook :=
  match book.orderMap id with
  | none => (false, book)
  | some order =>
      let price := (heap order).priceScaled
      let removal : Bool × OrderBook :=
        if (heap order).isBuy then
          match book.buyLevels.removeOrder heap price id with
          | none => (false, book)
          | some (removed, buyLevels) =>
              (removed, { book with buyLevels }.updateBestBid)
        else
          match book.sellLevels.removeOrder heap price id with
          | none => (false, book)
          | some (removed, sellLevels) =>
              (removed, { book with sellLevels }.updateBestAsk)
      if removal.1 then (true, removal.2.withIndex id none) else removal

/-- The first order of the highest buy level. -/
def getBestBid (book : OrderBook) : Option OrderPtr :=
  book.buyLevels.last?.bind fun highest => highest.2.getBestOrder

/-- The first order of the lowest sell level. -/
def getBestAsk (book : OrderBook) : Option OrderPtr :=
  book.sellLevels.first?.bind fun lowest => lowest.2.getBestOrder

/-- Whether the cached best prices cross. -/
def hasMatch (book : OrderBook) : Bool :=
  0 < book.bestBidPrice && 0 < book.bestAskPrice &&
    book.bestAskPrice ≤ book.bestBidPrice

def getOrder (book : OrderBook) (id : OrderId) : Option OrderPtr :=
  book.orderMap id

end OrderBook

/-- What the calls on a book act on: the order objects, the readings the clock
is going to return, and the book. -/
structure Engine where
  heap : Heap
  clock : Nat → Timestamp
  book : OrderBook

namespace Engine

/-- A book just constructed, over any objects and any clock. -/
def new (heap : Heap) (clock : Nat → Timestamp) : Engine :=
  ⟨heap, clock, OrderBook.new⟩

/-- Read the clock. -/
def getTimestampNs (engine : Engine) : Timestamp × Engine :=
  (engine.clock 0, { engine with clock := fun index => engine.clock (index + 1) })

/-- Write an order object. -/
def store (engine : Engine) (order : OrderPtr) (fields : Order) : Engine :=
  { engine with heap := Function.update engine.heap order fields }

/-- Set the timestamp of an order that has none. -/
def stamp (engine : Engine) (order : OrderPtr) : Engine :=
  if (engine.heap order).timestampNs = 0 then
    let (now, engine) := engine.getTimestampNs
    engine.store order { engine.heap order with timestampNs := now }
  else engine

/-- Add an order to the book; the null pointer and an order without quantity
are refused. -/
def addOrder (engine : Engine) (order : Option OrderPtr) : Bool × Engine :=
  match order with
  | none => (false, engine)
  | some order =>
      if (engine.heap order).quantity = 0 then (false, engine)
      else
        let engine := engine.stamp order
        (true, { engine with book := engine.book.enter engine.heap order })

/-- Cancel an order by its identifier. -/
def cancelOrder (engine : Engine) (id : OrderId) : Bool × Engine :=
  let cancelled := engine.book.cancelOrder engine.heap id
  (cancelled.1, { engine with book := cancelled.2 })

/-- Cancel an order, overwrite its price, quantity and timestamp, and add it
again. -/
def modifyOrder (engine : Engine) (id : OrderId) (newPrice : Price)
    (newQuantity : Quantity) : Bool × Engine :=
  match engine.book.orderMap id with
  | none => (false, engine)
  | some order =>
      let engine := (engine.cancelOrder id).2
      let (now, engine) := engine.getTimestampNs
      let engine := engine.store order { engine.heap order with
        priceScaled := newPrice, quantity := newQuantity, timestampNs := now }
      engine.addOrder (some order)

end Engine

end TradingMatcher
