import TradingMatcher.MemoryPool
import TradingMatcher.Runs

/-!
# Orders taken from the pools and given back

Threads call `allocate` and `deallocate` on their own pools, which may differ in
size, and write to the orders in between.  An order may be given back by another
thread than took it, and at most once.  `new` returns a block that no live order
has.
-/

namespace TradingMatcher

/-- The pools with the orders that were taken and not yet given back. -/
structure PoolUse (Thread : Type*) where
  pools : OrderPools Thread
  live : List (OrderAddress Thread)

/-- `allocate` returns the order, and `deallocate` applies the freeing to it. -/
inductive PoolEvent (Thread : Type*)
  | allocate (thread : Thread) (order : OrderAddress Thread)
  | deallocate (thread : Thread) (order : OrderAddress Thread)
      (freeing : Freeing)
  | write (order : OrderAddress Thread) (fields : Order)
  deriving DecidableEq

/-- No order has been taken. -/
def PoolUse.new {Thread : Type*} (object : OrderAddress Thread → Order) :
    PoolUse Thread where
  pools := .new object
  live := []

section Steps

variable {Thread : Type*} [DecidableEq Thread]

/-- One call, or one write to a live order.  Steps after a `delete` of a pool
slot say nothing about the program, whose behaviour is undefined then. -/
inductive PoolStep (poolSize : Thread → UInt64) :
    PoolUse Thread → PoolEvent Thread → PoolUse Thread → Prop
  | allocate {source : PoolUse Thread} {thread : Thread} {block : Nat}
      {order : OrderAddress Thread} {pools : OrderPools Thread}
      (call : source.pools.allocate (poolSize thread) thread block =
        (order, pools))
      (new : order = .heap block → order ∉ source.live) :
      PoolStep poolSize source (.allocate thread order)
        ⟨pools, order :: source.live⟩
  | deallocate {source : PoolUse Thread} {thread : Thread}
      {order : OrderAddress Thread} {freeing : Freeing}
      {pools : OrderPools Thread} (live : order ∈ source.live)
      (call : source.pools.deallocate (poolSize thread) thread order =
        (freeing, pools)) :
      PoolStep poolSize source (.deallocate thread order freeing)
        ⟨pools, source.live.erase order⟩
  | write {source : PoolUse Thread} {order : OrderAddress Thread}
      {fields : Order} (live : order ∈ source.live) :
      PoolStep poolSize source (.write order fields)
        ⟨source.pools.store order fields, source.live⟩

/-- The block that `new` returns, where the order is one. -/
def OrderAddress.block : OrderAddress Thread → Nat
  | .pooled _ _ => 0
  | .heap block => block

/-- The step that an event names, if it can be taken. -/
def PoolUse.next? (poolSize : Thread → UInt64) (source : PoolUse Thread) :
    PoolEvent Thread → Option (PoolUse Thread)
  | .allocate thread order =>
      let call := source.pools.allocate (poolSize thread) thread order.block
      if call.1 = order ∧ (order = .heap order.block → order ∉ source.live) then
        some ⟨call.2, order :: source.live⟩
      else none
  | .deallocate thread order freeing =>
      let call := source.pools.deallocate (poolSize thread) thread order
      if order ∈ source.live ∧ call.1 = freeing then
        some ⟨call.2, source.live.erase order⟩
      else none
  | .write order fields =>
      if order ∈ source.live then
        some ⟨source.pools.store order fields, source.live⟩
      else none

theorem PoolStep.of_next? {poolSize : Thread → UInt64}
    {source target : PoolUse Thread} {event : PoolEvent Thread}
    (taken : source.next? poolSize event = some target) :
    PoolStep poolSize source event target := by
  cases event with
  | allocate thread order =>
      obtain ⟨⟨returned, new⟩, ⟨⟩⟩ := Option.ite_none_right_eq_some.mp taken
      exact .allocate (Prod.ext returned rfl) new
  | deallocate thread order freeing =>
      obtain ⟨⟨live, applied⟩, ⟨⟩⟩ := Option.ite_none_right_eq_some.mp taken
      exact .deallocate live (Prod.ext applied rfl)
  | write order fields =>
      obtain ⟨live, ⟨⟩⟩ := Option.ite_none_right_eq_some.mp taken
      exact .write live

end Steps

section Freeing

variable {Thread : Type*}

/-- `delete` is applied exactly to a block of the heap, any other order is
zeroed, and nothing at another address is touched. -/
structure FreedRight (source target : OrderPools Thread)
    (order : OrderAddress Thread) (freeing : Freeing) : Prop where
  deletes : freeing = .deleted ↔ order.owner? = none
  zeroes : order.owner? ≠ none → target.object order = Order.zero
  others : ∀ other ≠ order, target.object other = source.object other

theorem OrderAddress.owner_of_inPool {order : OrderAddress Thread}
    {size : UInt64} {thread : Thread} (inPool : order.InPool size thread) :
    order.owner? = some thread := by
  cases order with
  | pooled owner slot => exact congrArg some inPool.1
  | heap block => exact inPool.elim

variable [DecidableEq Thread] {poolSize : Thread → UInt64}
  {object : OrderAddress Thread → Order} {history : List (PoolEvent Thread)}
  {state : PoolUse Thread}

/-- The live orders that are in a pool are in its slots. -/
theorem inPool_of_live
    (run : Run (PoolStep poolSize) (.new object) history state) :
    ∀ order ∈ state.live, ∀ owner ∈ order.owner?,
      order.InPool (poolSize owner) owner := by
  apply run.invariant fun _ state =>
    ∀ order ∈ state.live, ∀ owner ∈ order.owner?,
      order.InPool (poolSize owner) owner
  · exact fun _ live => nomatch live
  · intro _ source _ target _ inSlots edge order live owner owned
    cases edge with
    | allocate call =>
        rcases List.mem_cons.mp live with rfl | before
        · rcases OrderPools.allocate_order call with ⟨free, rfl⟩ | ⟨-, rfl⟩
          · obtain rfl := Option.some.inj owned
            exact ⟨rfl, free⟩
          · cases owned
        · exact inSlots order before owner owned
    | deallocate =>
        exact inSlots order (List.mem_of_mem_erase live) owner owned
    | write => exact inSlots order live owner owned

/-- A call frees the order right if and only if the order is a block of the heap
or lies in the pool of the thread that makes the call. -/
theorem freedRight_iff_own
    (run : Run (PoolStep poolSize) (.new object) history state)
    {thread : Thread} {order : OrderAddress Thread} {freeing : Freeing}
    {target : PoolUse Thread}
    (frees : PoolStep poolSize state (.deallocate thread order freeing)
      target) :
    FreedRight state.pools target.pools order freeing ↔
      ∀ owner ∈ order.owner?, owner = thread := by
  cases frees with
  | @deallocate _ _ _ pools live call =>
      have inPool := inPool_of_live run order live
      have others := fun other => @OrderPools.deallocate_object_of_ne _ _ _ _ _
        thread order freeing call other
      rcases OrderPools.deallocate_freeing call with
        ⟨rfl, own, rfl⟩ | ⟨rfl, notOwn, rfl⟩
      · have owned := OrderAddress.owner_of_inPool own
        constructor
        · intro _ owner isOwner
          exact Option.some.inj (isOwner.symm.trans owned)
        · intro _
          exact {
            deletes := by simp [owned]
            zeroes := fun _ => by simp
            others }
      · constructor
        · intro right owner isOwner
          rw [right.deletes.mp rfl] at isOwner
          cases isOwner
        · intro own
          have fromHeap : order.owner? = none := by
            rw [Option.eq_none_iff_forall_not_mem]
            intro owner isOwner
            apply notOwn
            rw [← own owner isOwner]
            exact inPool owner isOwner
          exact {
            deletes := iff_of_true rfl fromHeap
            zeroes := fun pooled => (pooled fromHeap).elim
            others }

/-- The size of the pools of `g_order_pool`. -/
def defaultPoolSize : UInt64 := 1024 * 1024

/-- One thread takes an order from its pool and the other gives it back:
`deallocate` applies `delete` to a pool slot. -/
theorem deallocate_of_other_thread :
    ∃ state target,
      Run (PoolStep fun _ : Bool => defaultPoolSize) (.new fun _ => Order.zero)
          [.allocate true (.pooled true 0)] state ∧
        PoolStep (fun _ => defaultPoolSize) state
          (.deallocate false (.pooled true 0) .deleted) target ∧
        ¬FreedRight state.pools target.pools (.pooled true 0) .deleted := by
  obtain ⟨state, target, run, frees⟩ := Run.exists_step_of_replay
    (PoolUse.next? fun _ => defaultPoolSize) PoolStep.of_next?
    (.new fun _ => Order.zero) [.allocate true (.pooled true 0)]
    (.deallocate false (.pooled true 0) .deleted) (by decide)
  refine ⟨state, target, run, frees, ?_⟩
  intro right
  cases right.deletes.mp rfl

/-- The thread that took the order gives it back. -/
theorem freedRight_iff_own_taker :
    ∃ source target : PoolUse Bool,
      FreedRight source.pools target.pools (.pooled true 0) .zeroed ↔
        ∀ owner ∈ (OrderAddress.pooled true 0).owner?, owner = true := by
  obtain ⟨source, target, run, frees⟩ := Run.exists_step_of_replay
    (PoolUse.next? fun _ => defaultPoolSize) PoolStep.of_next?
    (.new fun _ => Order.zero) [.allocate true (.pooled true 0)]
    (.deallocate true (.pooled true 0) .zeroed) (by decide)
  exact ⟨source, target, freedRight_iff_own run frees⟩

end Freeing

section Apart

variable {Thread : Type*} [DecidableEq Thread]

/-- The number of calls of `allocate` by the thread. -/
def allocations (thread : Thread) : List (PoolEvent Thread) → Nat
  | [] => 0
  | .allocate caller _ :: earlier =>
      allocations thread earlier + if caller = thread then 1 else 0
  | .deallocate _ _ _ :: earlier | .write _ _ :: earlier =>
      allocations thread earlier

variable {poolSize : Thread → UInt64} {object : OrderAddress Thread → Order}
  {history : List (PoolEvent Thread)} {state : PoolUse Thread}

theorem allocations_le_cons (thread : Thread) (event : PoolEvent Thread) :
    allocations thread history ≤ allocations thread (event :: history) := by
  cases event with
  | allocate => exact Nat.le_add_right _ _
  | _ => exact le_refl _

/-- The index of the next slot counts the calls, modulo the word size. -/
theorem nextFree_eq
    (run : Run (PoolStep poolSize) (.new object) history state) :
    ∀ thread, (state.pools.nextFree thread).toNat =
      allocations thread history % 2 ^ 64 := by
  apply run.invariant fun history state =>
    ∀ thread, (state.pools.nextFree thread).toNat =
      allocations thread history % 2 ^ 64
  · exact fun _ => rfl
  · intro earlier source _ target _ counts edge thread
    cases edge with
    | @allocate caller block order pools call =>
        rw [OrderPools.allocate_nextFree call, allocations]
        by_cases same : thread = caller
        · subst same
          rw [Function.update_self, UInt64.toNat_add, counts, if_pos rfl]
          simp [Nat.add_mod]
        · rw [Function.update_of_ne same, if_neg (Ne.symm same)]
          exact counts thread
    | deallocate _ call =>
        rw [OrderPools.deallocate_nextFree call]
        exact counts thread
    | write => exact counts thread

/-- No two live orders are one object, and those in a pool are in the slots that
its thread has used up. -/
structure LiveApart (history : List (PoolEvent Thread))
    (state : PoolUse Thread) : Prop where
  nodup : state.live.Nodup
  used : ∀ thread slot, .pooled thread slot ∈ state.live →
    slot < allocations thread history

/-- What `allocate` returns is not live. -/
theorem LiveApart.fresh (apart : LiveApart history state)
    (run : Run (PoolStep poolSize) (.new object) history state)
    {thread : Thread} (few : allocations thread history < 2 ^ 64)
    {order : OrderAddress Thread} {target : PoolUse Thread}
    (takes : PoolStep poolSize state (.allocate thread order) target) :
    order ∉ state.live := by
  cases takes with
  | allocate call new =>
      rcases OrderPools.allocate_order call with ⟨-, rfl⟩ | ⟨-, rfl⟩
      · intro live
        have used := apart.used _ _ live
        rw [nextFree_eq run, Nat.mod_eq_of_lt few] at used
        exact lt_irrefl _ used
      · exact new rfl

theorem LiveApart.of_run
    (run : Run (PoolStep poolSize) (.new object) history state)
    (few : ∀ thread, allocations thread history < 2 ^ 64) :
    LiveApart history state := by
  revert few
  apply run.invariant fun history state =>
    (∀ thread, allocations thread history < 2 ^ 64) → LiveApart history state
  · exact fun _ => ⟨List.nodup_nil, fun _ _ => nofun⟩
  · intro earlier source event target run ih edge few
    have fewEarlier := fun thread =>
      Nat.lt_of_le_of_lt (allocations_le_cons thread event) (few thread)
    have apart := ih fewEarlier
    have used := fun thread slot live => Nat.lt_of_lt_of_le
      (apart.used thread slot live) (allocations_le_cons thread event)
    cases edge with
    | @allocate caller block order pools call new =>
        have fresh := apart.fresh run (fewEarlier caller) (.allocate call new)
        refine ⟨List.nodup_cons.mpr ⟨fresh, apart.nodup⟩, ?_⟩
        intro thread slot live
        rcases List.mem_cons.mp live with rfl | before
        · rcases OrderPools.allocate_order call with ⟨-, same⟩ | ⟨-, same⟩
          · obtain ⟨rfl, rfl⟩ := OrderAddress.pooled.inj same
            rw [nextFree_eq run, Nat.mod_eq_of_lt (fewEarlier _), allocations,
              if_pos rfl]
            exact Nat.lt_succ_self _
          · cases same
        · exact used thread slot before
    | deallocate =>
        exact ⟨apart.nodup.erase _, fun thread slot live =>
          used thread slot (List.mem_of_mem_erase live)⟩
    | write => exact ⟨apart.nodup, used⟩

end Apart

section OnePool

variable {poolSize : UInt64} {object : OrderAddress Unit → Order}
  {history : List (PoolEvent Unit)} {state : PoolUse Unit}

/-- Orders of one pool that are live at the same time are different objects;
`allocate` returns a zeroed order, and neither call changes another live one. -/
theorem live_orders_apart
    (run : Run (PoolStep fun _ => poolSize) (.new object) history state)
    (few : allocations () history < 2 ^ 64) :
    state.live.Nodup ∧
      (∀ order target,
        PoolStep (fun _ => poolSize) state (.allocate () order) target →
          order ∉ state.live ∧ target.pools.object order = Order.zero ∧
            ∀ other ∈ state.live,
              target.pools.object other = state.pools.object other) ∧
      ∀ order freeing target,
        PoolStep (fun _ => poolSize) state (.deallocate () order freeing)
            target →
          ∀ other ∈ target.live,
            target.pools.object other = state.pools.object other := by
  have apart := LiveApart.of_run run fun _ => few
  refine ⟨apart.nodup, ?_, ?_⟩
  · intro order target takes
    have fresh := apart.fresh run few takes
    cases takes with
    | allocate call =>
        refine ⟨fresh, ?_, ?_⟩
        · rw [OrderPools.allocate_object call, if_pos rfl]
        · intro other live
          have differ : other ≠ order := by
            rintro rfl
            exact fresh live
          rw [OrderPools.allocate_object call, if_neg differ]
  · intro order freeing target frees other live
    cases frees with
    | deallocate _ call =>
        apply OrderPools.deallocate_object_of_ne call
        rintro rfl
        exact apart.nodup.not_mem_erase live

/-- The second order from a pool of one slot comes from the heap. -/
def exhaustedPool : List (PoolEvent Unit) :=
  [.allocate () (.heap 0), .allocate () (.pooled () 0)]

theorem live_orders_apart_exhausted :
    ∃ state, Run (PoolStep fun _ => 1) (.new fun _ => Order.zero) exhaustedPool
      state ∧ state.live.Nodup := by
  have replays : (Run.replay (PoolUse.next? fun _ => 1)
      (.new fun _ => Order.zero) exhaustedPool).isSome := by decide
  obtain ⟨state, replayed⟩ := Option.isSome_iff_exists.mp replays
  have run := Run.of_replay PoolStep.of_next? replayed
  exact ⟨state, run, (live_orders_apart run (by decide)).1⟩

end OnePool

end TradingMatcher
