import TradingMatcher.LiveOrders

/-!
# Resetting a pool

A slot that was given back is not taken again until `reset` starts the pool over,
which looks at no order.  From then on the pool hands out its slots once more,
those of orders that are still live included.
-/

namespace TradingMatcher

/-- The pool of the thread hands out its first slot next. -/
def OrderPools.reset {Thread : Type*} [DecidableEq Thread]
    (pools : OrderPools Thread) (thread : Thread) : OrderPools Thread :=
  { pools with nextFree := Function.update pools.nextFree thread 0 }

/-- A call on a pool or a write to an order, or a reset. -/
inductive ResetEvent (Thread : Type*)
  | call (event : PoolEvent Thread)
  | reset (thread : Thread)
  deriving DecidableEq

section Steps

variable {Thread : Type*} [DecidableEq Thread]

inductive ResetStep (poolSize : Thread → UInt64) :
    PoolUse Thread → ResetEvent Thread → PoolUse Thread → Prop
  | call {source target : PoolUse Thread} {event : PoolEvent Thread}
      (edge : PoolStep poolSize source event target) :
      ResetStep poolSize source (.call event) target
  | reset {source : PoolUse Thread} {thread : Thread} :
      ResetStep poolSize source (.reset thread)
        { source with pools := source.pools.reset thread }

/-- The step that an event names, if it can be taken. -/
def PoolUse.nextOrReset? (poolSize : Thread → UInt64) (source : PoolUse Thread) :
    ResetEvent Thread → Option (PoolUse Thread)
  | .call event => source.next? poolSize event
  | .reset thread => some { source with pools := source.pools.reset thread }

theorem ResetStep.of_nextOrReset? {poolSize : Thread → UInt64}
    {source target : PoolUse Thread} {event : ResetEvent Thread}
    (taken : source.nextOrReset? poolSize event = some target) :
    ResetStep poolSize source event target := by
  cases event with
  | call event => exact .call (.of_next? taken)
  | reset thread =>
      obtain rfl := Option.some.inj taken
      exact .reset

/-- The number of calls of `allocate` by the thread since its pool was last
reset. -/
def sinceReset (thread : Thread) : List (ResetEvent Thread) → Nat
  | [] => 0
  | .call (.allocate caller _) :: earlier =>
      sinceReset thread earlier + if caller = thread then 1 else 0
  | .call (.deallocate ..) :: earlier | .call (.write ..) :: earlier =>
      sinceReset thread earlier
  | .reset caller :: earlier =>
      if caller = thread then 0 else sinceReset thread earlier

theorem sinceReset_le_length (thread : Thread)
    (history : List (ResetEvent Thread)) :
    sinceReset thread history ≤ history.length := by
  induction history with
  | nil => exact Nat.le_refl _
  | cons event earlier ih =>
      rw [List.length_cons]
      rcases event with (_ | _ | _) | _
      · rw [sinceReset]
        split <;> omega
      · exact Nat.le_succ_of_le ih
      · exact Nat.le_succ_of_le ih
      · rw [sinceReset]
        split <;> omega

/-- No order in the pool of a thread is live when the pool is reset. -/
def ResetsIdle (state : PoolUse Thread) : ResetEvent Thread → Prop
  | .call _ => True
  | .reset thread => ∀ order ∈ state.live, order.owner? ≠ some thread

instance (state : PoolUse Thread) : ∀ event, Decidable (ResetsIdle state event)
  | .call _ => .isTrue trivial
  | .reset thread => inferInstanceAs
      (Decidable (∀ order ∈ state.live, order.owner? ≠ some thread))

end Steps

section Runs

variable {Thread : Type*} [DecidableEq Thread] {poolSize : Thread → UInt64}
  {object : OrderAddress Thread → Order} {history : List (ResetEvent Thread)}
  {state target : PoolUse Thread} {thread : Thread}
  {order : OrderAddress Thread}

/-- The index of the next slot counts the calls since the reset, modulo the word
size. -/
theorem nextFree_eq_sinceReset
    (run : Run (ResetStep poolSize) (.new object) history state)
    (thread : Thread) :
    (state.pools.nextFree thread).toNat = sinceReset thread history % 2 ^ 64 := by
  refine run.invariant (fun history state =>
    (state.pools.nextFree thread).toNat = sinceReset thread history % 2 ^ 64)
    rfl ?_
  intro history source event target _ counts edge
  cases edge with
  | reset =>
      rename_i caller
      rw [sinceReset]
      by_cases same : caller = thread
      · rw [if_pos same, ← same]
        simp [OrderPools.reset]
      · rw [if_neg same, ← counts]
        simp [OrderPools.reset, Ne.symm same]
  | call edge =>
      cases edge with
      | @allocate caller block order pools call =>
          rw [OrderPools.allocate_nextFree call, sinceReset]
          by_cases same : caller = thread
          · subst same
            rw [Function.update_self, UInt64.toNat_add, counts, if_pos rfl]
            simp [Nat.add_mod]
          · rw [Function.update_of_ne (Ne.symm same), if_neg same]
            exact counts
      | deallocate _ call =>
          rw [OrderPools.deallocate_nextFree call]
          exact counts
      | write => exact counts

/-- A live order of a pool is in one of its slots. -/
theorem slot_lt_of_live
    (run : Run (ResetStep poolSize) (.new object) history state) {slot : Nat}
    (live : .pooled thread slot ∈ state.live) :
    slot < (poolSize thread).toNat := by
  refine run.invariant (fun _ state => ∀ thread slot,
    .pooled thread slot ∈ state.live → slot < (poolSize thread).toNat)
    (fun _ _ => nofun) ?_ thread slot live
  intro _ source _ target _ inSlots edge thread slot live
  cases edge with
  | reset => exact inSlots thread slot live
  | call edge =>
      cases edge with
      | allocate call =>
          rcases List.mem_cons.mp live with same | before
          · rcases OrderPools.allocate_order call with ⟨free, isNext⟩ | ⟨-, rfl⟩
            · obtain ⟨rfl, rfl⟩ := OrderAddress.pooled.inj (same.trans isNext)
              exact free
            · cases same
          · exact inSlots thread slot before
      | deallocate => exact inSlots thread slot (List.mem_of_mem_erase live)
      | write => exact inSlots thread slot live

/-- In every run, whatever is given back and reset, as long as the index of the
next slot has not come round, `allocate` takes an order from the heap exactly
when it was called as often as the pool has slots since the last reset, and it
returns an order that is live already exactly when the slot with the number of
these calls is live. -/
theorem allocate_from
    (run : Run (ResetStep poolSize) (.new object) history state)
    (few : sinceReset thread history < 2 ^ 64)
    (takes : ResetStep poolSize state (.call (.allocate thread order)) target) :
    (order.owner? = none ↔
        (poolSize thread).toNat ≤ sinceReset thread history) ∧
      (order ∈ state.live ↔
        .pooled thread (sinceReset thread history) ∈ state.live) := by
  have next := nextFree_eq_sinceReset run thread
  rw [Nat.mod_eq_of_lt few] at next
  cases takes with
  | call takes =>
  cases takes with
  | allocate call new =>
      rcases OrderPools.allocate_order call with ⟨free, rfl⟩ | ⟨usedUp, rfl⟩
      · rw [next] at free ⊢
        exact ⟨iff_of_false nofun (Nat.not_le.mpr free), Iff.rfl⟩
      · rw [next] at usedUp
        refine ⟨iff_of_true rfl usedUp, iff_of_false (new rfl) fun live => ?_⟩
        exact Nat.not_lt.mpr usedUp (slot_lt_of_live run live)

/-- No two live orders are one object, and those in a pool are in slots that were
taken since its reset. -/
structure SlotsUsed (history : List (ResetEvent Thread))
    (state : PoolUse Thread) : Prop where
  nodup : state.live.Nodup
  used : ∀ thread slot, .pooled thread slot ∈ state.live →
    slot < sinceReset thread history

theorem SlotsUsed.step {event : ResetEvent Thread}
    (apart : SlotsUsed history state)
    (run : Run (ResetStep poolSize) (.new object) history state)
    (edge : Guarded ResetsIdle (ResetStep poolSize) state event target)
    (few : ∀ thread, sinceReset thread history < 2 ^ 64) :
    SlotsUsed (event :: history) target := by
  obtain ⟨idle, edge⟩ := edge
  cases edge with
  | @reset caller =>
      refine ⟨apart.nodup, fun thread slot live => ?_⟩
      rw [sinceReset, if_neg]
      · exact apart.used thread slot live
      · rintro rfl
        exact idle _ live rfl
  | call edge =>
      cases edge with
      | @allocate caller block order pools call new =>
          have fresh : order ∉ state.live := by
            intro live
            have again := (allocate_from run (few caller)
              (.call (.allocate call new))).2.mp live
            exact lt_irrefl _ (apart.used _ _ again)
          refine ⟨List.nodup_cons.mpr ⟨fresh, apart.nodup⟩, ?_⟩
          intro thread slot live
          rw [sinceReset]
          rcases List.mem_cons.mp live with same | before
          · rcases OrderPools.allocate_order call with ⟨-, isNext⟩ | ⟨-, rfl⟩
            · obtain ⟨rfl, rfl⟩ := OrderAddress.pooled.inj (same.trans isNext)
              rw [nextFree_eq_sinceReset run, Nat.mod_eq_of_lt (few _),
                if_pos rfl]
              exact Nat.lt_succ_self _
            · cases same
          · exact (apart.used thread slot before).trans_le (Nat.le_add_right _ _)
      | deallocate =>
          exact ⟨apart.nodup.erase _, fun thread slot live =>
            apart.used thread slot (List.mem_of_mem_erase live)⟩
      | write => exact ⟨apart.nodup, apart.used⟩

/-- Where a pool is reset only while none of its orders is live, and no index has
come round, live orders are different objects, and `allocate` never returns a
live one. -/
theorem resetsIdle_apart
    (run : Run (Guarded ResetsIdle (ResetStep poolSize)) (.new object) history
      state)
    (few : ∀ moment, moment <:+ history →
      ∀ thread, sinceReset thread moment < 2 ^ 64) :
    state.live.Nodup ∧
      ∀ thread order target,
        ResetStep poolSize state (.call (.allocate thread order)) target →
          order ∉ state.live := by
  have apart : SlotsUsed history state := by
    revert few
    apply run.invariant fun history state =>
      (∀ moment, moment <:+ history →
        ∀ thread, sinceReset thread moment < 2 ^ 64) → SlotsUsed history state
    · exact fun _ => ⟨List.nodup_nil, fun _ _ => nofun⟩
    · intro earlier source event target run ih edge few
      have fewEarlier := fun moment (isSuffix : moment <:+ earlier) =>
        few moment (isSuffix.trans (List.suffix_cons _ _))
      exact (ih fewEarlier).step run.unguard edge
        (fewEarlier earlier List.suffix_rfl)
  refine ⟨apart.nodup, fun thread order target takes live => ?_⟩
  have now := few history List.suffix_rfl thread
  have again := (allocate_from run.unguard now takes).2.mp live
  exact lt_irrefl _ (apart.used _ _ again)

/-- An order is taken, the pool is reset, and the order is taken again. -/
def takenTwice : List (ResetEvent Unit) :=
  [.reset (), .call (.allocate () (.pooled () 0))]

theorem allocate_from_takenTwice :
    ∃ state target : PoolUse Unit,
      Run (ResetStep fun _ => defaultPoolSize) (.new fun _ => Order.zero)
          takenTwice state ∧
        ResetStep (fun _ => defaultPoolSize) state
          (.call (.allocate () (.pooled () 0))) target ∧
        ((OrderAddress.pooled () 0 : OrderAddress Unit) ∈ state.live ↔
          .pooled () (sinceReset () takenTwice) ∈ state.live) := by
  obtain ⟨state, target, run, takes⟩ := Run.exists_step_of_replay
    (PoolUse.nextOrReset? fun _ => defaultPoolSize) ResetStep.of_nextOrReset?
    (.new fun _ => Order.zero) takenTwice
    (.call (.allocate () (.pooled () 0))) (by decide)
  exact ⟨state, target, run, takes, (allocate_from run (by decide) takes).2⟩

/-- The order is given back before the pool is reset. -/
def givenBack : List (ResetEvent Unit) :=
  [.call (.allocate () (.pooled () 0)), .reset (),
    .call (.deallocate () (.pooled () 0) .zeroed),
    .call (.allocate () (.pooled () 0))]

theorem resetsIdle_apart_givenBack :
    ∃ state : PoolUse Unit,
      Run (Guarded ResetsIdle (ResetStep fun _ => defaultPoolSize))
          (.new fun _ => Order.zero) givenBack state ∧ state.live.Nodup := by
  have replays : ((Run.replay (Run.guardNext ResetsIdle
      (PoolUse.nextOrReset? fun _ => defaultPoolSize))
      (.new fun _ => Order.zero) givenBack).any fun _ => true) = true := by
    decide
  obtain ⟨state, run, -⟩ := Run.exists_of_replay
    (Run.guardNext_sound ResetStep.of_nextOrReset?) _ givenBack _ replays
  refine ⟨state, run, (resetsIdle_apart run ?_).1⟩
  intro moment isSuffix thread
  have := sinceReset_le_length thread moment
  have := isSuffix.length_le
  simp only [givenBack, List.length_cons, List.length_nil] at this
  omega

end Runs

end TradingMatcher
