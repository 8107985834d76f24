import TradingMatcher.Order

/-!
# The order pools

Every thread that uses `g_order_pool` has a pool of its own, whose storage lives
as long as the thread.  An order is taken from the next slot of the calling
thread's pool, or from the heap once the slots are used up.
-/

namespace TradingMatcher

/-- Where an order object lies: in a slot of a thread's pool, or in a block of
the heap. -/
inductive OrderAddress (Thread : Type*)
  | pooled (thread : Thread) (slot : Nat)
  | heap (block : Nat)
  deriving DecidableEq

/-- The thread in whose pool an order object lies. -/
def OrderAddress.owner? {Thread : Type*} : OrderAddress Thread → Option Thread
  | .pooled thread _ => some thread
  | .heap _ => none

/-- The address lies in the storage of the thread's pool. -/
def OrderAddress.InPool {Thread : Type*} (poolSize : UInt64)
    (thread : Thread) : OrderAddress Thread → Prop
  | .pooled owner slot => owner = thread ∧ slot < poolSize.toNat
  | .heap _ => False

instance inPoolDecidable {Thread : Type*} [DecidableEq Thread]
    (poolSize : UInt64) (thread : Thread) :
    ∀ order : OrderAddress Thread, Decidable (order.InPool poolSize thread)
  | .pooled owner slot => inferInstanceAs
      (Decidable (owner = thread ∧ slot < poolSize.toNat))
  | .heap _ => .isFalse id

/-- What `deallocate` applies to an order. -/
inductive Freeing
  | zeroed | deleted
  deriving DecidableEq

/-- The order objects with the pools of all threads; `ended` says of which
threads the storage is gone. -/
structure OrderPools (Thread : Type*) where
  object : OrderAddress Thread → Order
  nextFree : Thread → UInt64
  ended : Thread → Bool

namespace OrderPools

variable {Thread : Type*}

/-- Pools that no thread has used. -/
def new (object : OrderAddress Thread → Order) : OrderPools Thread where
  object := object
  nextFree _ := 0
  ended _ := false

variable [DecidableEq Thread]

/-- Write an order object. -/
def store (pools : OrderPools Thread) (order : OrderAddress Thread)
    (fields : Order) : OrderPools Thread :=
  { pools with object := Function.update pools.object order fields }

/-- Take the next slot of the thread's pool, or the block that `new` returns
when there is none left; either way the order is zeroed. -/
def allocate (poolSize : UInt64) (pools : OrderPools Thread) (thread : Thread)
    (block : Nat) : OrderAddress Thread × OrderPools Thread :=
  let idx := pools.nextFree thread
  let order := if idx < poolSize then .pooled thread idx.toNat else .heap block
  (order, { pools with
    nextFree := Function.update pools.nextFree thread (idx + 1)
    }.store order Order.zero)

/-- Zero an order that lies in the calling thread's own pool, and apply `delete`
to any other. -/
def deallocate (poolSize : UInt64) (pools : OrderPools Thread) (thread : Thread)
    (order : OrderAddress Thread) : Freeing × OrderPools Thread :=
  if order.InPool poolSize thread then (.zeroed, pools.store order Order.zero)
  else (.deleted, pools)

/-- A thread exits, and the storage of its pool ends. -/
def exit (pools : OrderPools Thread) (thread : Thread) : OrderPools Thread :=
  { pools with ended := Function.update pools.ended thread true }

/-- The storage of an order has not ended with its thread. -/
def Alive (pools : OrderPools Thread) (order : OrderAddress Thread) : Prop :=
  ∀ thread ∈ order.owner?, pools.ended thread = false

@[simp]
theorem store_object (pools : OrderPools Thread)
    (order other : OrderAddress Thread) (fields : Order) :
    (pools.store order fields).object other =
      if other = order then fields else pools.object other :=
  Function.update_apply ..

section Calls

variable {poolSize : UInt64} {source target : OrderPools Thread}
  {thread : Thread} {order : OrderAddress Thread}

/-- The order comes from the next slot while there is one, and from the heap
otherwise. -/
theorem allocate_order {block : Nat}
    (call : source.allocate poolSize thread block = (order, target)) :
    (source.nextFree thread).toNat < poolSize.toNat ∧
        order = .pooled thread (source.nextFree thread).toNat ∨
      poolSize.toNat ≤ (source.nextFree thread).toNat ∧
        order = .heap block := by
  obtain ⟨rfl, -⟩ := Prod.mk.inj call
  by_cases inPool : source.nextFree thread < poolSize
  · exact .inl ⟨UInt64.lt_iff_toNat_lt.mp inPool, if_pos inPool⟩
  · refine .inr ⟨?_, if_neg inPool⟩
    rw [UInt64.lt_iff_toNat_lt] at inPool
    omega

theorem allocate_object {block : Nat}
    (call : source.allocate poolSize thread block = (order, target))
    (other : OrderAddress Thread) :
    target.object other =
      if other = order then Order.zero else source.object other := by
  obtain ⟨rfl, rfl⟩ := Prod.mk.inj call
  exact store_object _ _ _ _

theorem allocate_nextFree {block : Nat}
    (call : source.allocate poolSize thread block = (order, target)) :
    target.nextFree = Function.update source.nextFree thread
      (source.nextFree thread + 1) := by
  obtain ⟨rfl, rfl⟩ := Prod.mk.inj call
  rfl

theorem deallocate_freeing {freeing : Freeing}
    (call : source.deallocate poolSize thread order = (freeing, target)) :
    freeing = .zeroed ∧ order.InPool poolSize thread ∧
        target = source.store order Order.zero ∨
      freeing = .deleted ∧ ¬order.InPool poolSize thread ∧
        target = source := by
  rw [deallocate] at call
  split at call
  next inPool =>
    obtain ⟨rfl, rfl⟩ := Prod.mk.inj call
    exact .inl ⟨rfl, inPool, rfl⟩
  next notInPool =>
    obtain ⟨rfl, rfl⟩ := Prod.mk.inj call
    exact .inr ⟨rfl, notInPool, rfl⟩

theorem deallocate_object_of_ne {freeing : Freeing}
    (call : source.deallocate poolSize thread order = (freeing, target))
    {other : OrderAddress Thread} (differ : other ≠ order) :
    target.object other = source.object other := by
  rcases deallocate_freeing call with ⟨-, -, rfl⟩ | ⟨-, -, rfl⟩
  · simp [differ]
  · rfl

theorem deallocate_nextFree {freeing : Freeing}
    (call : source.deallocate poolSize thread order = (freeing, target)) :
    target.nextFree = source.nextFree := by
  rcases deallocate_freeing call with ⟨-, -, rfl⟩ | ⟨-, -, rfl⟩ <;> rfl

end Calls

/-- A thread's exit ends its own orders only. -/
theorem alive_exit_iff {pools : OrderPools Thread} {thread : Thread}
    {order : OrderAddress Thread} :
    (pools.exit thread).Alive order ↔
      pools.Alive order ∧ order.owner? ≠ some thread := by
  cases order with
  | heap block => simp [Alive, OrderAddress.owner?]
  | pooled owner slot =>
      by_cases same : owner = thread <;>
        simp [Alive, OrderAddress.owner?, exit, same]

end OrderPools

end TradingMatcher
