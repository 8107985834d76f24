import Mathlib.Tactic
import TradingMatcher.PriceTime

/-!
# Orders

The order record, its fixed-width fields, and the objects orders live in.  The
book never owns an order: it holds pointers to objects of its caller, so the
objects form a heap of their own.
-/

namespace TradingMatcher

open PriceTime

/-- Fixed-point price, scaled by one million. -/
abbrev Price := Int64

abbrev OrderId := UInt32

abbrev Quantity := UInt32

/-- Nanoseconds since the epoch. -/
abbrev Timestamp := Int64

instance priceLinearOrder : LinearOrder Int64 where
  le_refl _ := Int64.le_refl _
  le_trans _ _ _ := Int64.le_trans
  le_antisymm _ _ := Int64.le_antisymm
  le_total := Int64.le_total
  lt_iff_le_not_ge first second := by
    rw [Int64.lt_iff_toInt_lt, Int64.le_iff_toInt_le, Int64.le_iff_toInt_le]
    omega
  toDecidableLE := inferInstance
  toDecidableEq := inferInstance
  toDecidableLT := inferInstance

/-- An order.  `side` is 0 for a buy; every other value counts as a sell. -/
structure Order where
  id : OrderId
  quantity : Quantity
  priceScaled : Price
  timestampNs : Timestamp
  side : UInt8
  orderType : UInt8
  reserved : UInt16
  deriving DecidableEq, Repr

namespace Order

/-- The constructor of an order from its side, quantity and price, with the
default order type. -/
def new (id : OrderId) (isBuyOrder : Bool) (quantity : Quantity)
    (priceScaled : Price) (timestampNs : Timestamp) : Order where
  id := id
  quantity := quantity
  priceScaled := priceScaled
  timestampNs := timestampNs
  side := if isBuyOrder then 0 else 1
  orderType := 0
  reserved := 0

/-- The default constructor. -/
def zero : Order := ⟨0, 0, 0, 0, 0, 0, 0⟩

def isBuy (order : Order) : Bool := order.side == 0

/-- The side of the book an order belongs to. -/
def bookSide (order : Order) : Side :=
  if order.isBuy then .buy else .sell

@[simp]
theorem bookSide_eq_buy_iff (order : Order) :
    order.bookSide = .buy ↔ order.isBuy = true := by
  cases buys : order.isBuy <;> simp [bookSide, buys]

@[simp]
theorem bookSide_eq_sell_iff (order : Order) :
    order.bookSide = .sell ↔ order.isBuy = false := by
  cases buys : order.isBuy <;> simp [bookSide, buys]

/-- The operator `<`: the lower price, at one price the earlier timestamp. -/
def operatorLess (order other : Order) : Bool :=
  if order.priceScaled ≠ other.priceScaled then
    order.priceScaled < other.priceScaled
  else order.timestampNs < other.timestampNs

/-- The operator `>`: the higher price, at one price the earlier timestamp. -/
def operatorGreater (order other : Order) : Bool :=
  if order.priceScaled ≠ other.priceScaled then
    order.priceScaled > other.priceScaled
  else order.timestampNs < other.timestampNs

end Order

/-- The address of an order object. -/
abbrev OrderPtr := Nat

/-- The order objects, by address. -/
abbrev Heap := OrderPtr → Order

end TradingMatcher
