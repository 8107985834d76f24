import TradingMatcher.StandingOrders

/-!
# Accepted orders and the index

An accepted order that has not been filled, cancelled or modified to no
quantity should be the one that the index names and that a cancellation takes
off the ladders.  Over runs that add every object at most once this holds in
every state exactly when no accepted order repeats the identifier of a standing
one.
-/

namespace TradingMatcher

open PriceTime

/-- The object given to the book in a call. -/
def Event.added? : Event → Option OrderPtr
  | .addOrder order _ _ => some order
  | _ => none

/-- No object is added twice. -/
def DistinctObjects (history : List Event) : Prop :=
  (history.filterMap Event.added?).Nodup

instance (history : List Event) : Decidable (DistinctObjects history) :=
  inferInstanceAs (Decidable (List.Nodup _))

/-- The identifier under which an order was accepted, if since then it was
neither cancelled through it nor modified to no quantity. -/
def liveId? (order : OrderPtr) : List Event → Option OrderId
  | [] => none
  | .addOrder added fields result :: earlier =>
      if added = order ∧ result = true then some fields.id
      else liveId? order earlier
  | .cancelOrder id result :: earlier =>
      (liveId? order earlier).filter fun own => ¬ (own = id ∧ result = true)
  | .modifyOrder id _ newQuantity _ :: earlier =>
      (liveId? order earlier).filter fun own => ¬ (own = id ∧ newQuantity = 0)
  | _ :: earlier => liveId? order earlier

/-- Every accepted order that still has quantity is found by its identifier,
and a cancellation takes exactly this order off the ladders. -/
def KeepsAccepted (history : List Event) (engine : Engine) : Prop :=
  ∀ order id, liveId? order history = some id →
    (engine.heap order).quantity ≠ 0 →
      engine.book.getOrder id = some order ∧
        (engine.cancelOrder id).1 = true ∧
        engine.book.standing.Perm
          (order :: (engine.cancelOrder id).2.book.standing)

theorem added_of_liveId? {order : OrderPtr} {id : OrderId}
    {history : List Event} (live : liveId? order history = some id) :
    order ∈ history.filterMap Event.added? := by
  induction history with
  | nil => cases live
  | cons event earlier ih =>
      cases event with
      | addOrder added fields result =>
          rw [liveId?] at live
          split at live
          next same =>
            rw [same.1]
            exact List.mem_cons_self
          next => exact List.mem_cons_of_mem _ (ih live)
      | cancelOrder => exact ih (Option.filter_eq_some_iff.mp live).1
      | modifyOrder => exact ih (Option.filter_eq_some_iff.mp live).1
      | matchOrders => exact ih live
      | executeTrade => exact ih live
      | matchReturn => exact ih live

theorem DistinctObjects.tail {event : Event} {earlier : List Event}
    (distinct : DistinctObjects (event :: earlier)) :
    DistinctObjects earlier := by
  rw [DistinctObjects, List.filterMap_cons] at distinct
  split at distinct
  · exact distinct
  · exact (List.nodup_cons.mp distinct).2

/-- An order that was live before is another object than the one now added. -/
theorem DistinctObjects.ne_of_live {event : Event} {earlier : List Event}
    (distinct : DistinctObjects (event :: earlier)) {order : OrderPtr}
    {id : OrderId} (live : liveId? order earlier = some id) :
    event.added? ≠ some order := by
  intro added
  rw [DistinctObjects, List.filterMap_cons_some added, List.nodup_cons]
    at distinct
  exact distinct.1 (added_of_liveId? live)

theorem liveId?_of_not_names {event : Event} {earlier : List Event}
    {order : OrderPtr} {id : OrderId} (unnamed : ¬ event.Names id)
    (other : event.added? ≠ some order)
    (live : liveId? order earlier = some id) :
    liveId? order (event :: earlier) = some id := by
  cases event with
  | addOrder added fields result =>
      rw [liveId?, if_neg, live]
      rintro ⟨rfl, -⟩
      exact other rfl
  | cancelOrder cancelled result =>
      rw [liveId?, live]
      exact Option.filter_some_pos
        (decide_eq_true fun both => unnamed both.1.symm)
  | modifyOrder modified newPrice newQuantity result =>
      rw [liveId?, live]
      exact Option.filter_some_pos
        (decide_eq_true fun both => unnamed both.1.symm)
  | matchOrders => exact live
  | executeTrade => exact live
  | matchReturn => exact live

/-- Only its own add can make an order live. -/
theorem liveId?_earlier {event : Event} {earlier : List Event}
    {order : OrderPtr} {id : OrderId} (other : event.added? ≠ some order)
    (live : liveId? order (event :: earlier) = some id) :
    liveId? order earlier = some id := by
  cases event with
  | addOrder added fields result =>
      rwa [liveId?, if_neg] at live
      rintro ⟨rfl, -⟩
      exact other rfl
  | cancelOrder => exact (Option.filter_eq_some_iff.mp live).1
  | modifyOrder => exact (Option.filter_eq_some_iff.mp live).1
  | matchOrders => exact live
  | executeTrade => exact live
  | matchReturn => exact live

/-- Over a fresh run the live orders with quantity are the standing ones. -/
structure LiveStanding (history : List Event) (engine : Engine) : Prop where
  live : ∀ order ∈ engine.book.standing,
    liveId? order history = some (engine.heap order).id
  stands : ∀ order id, liveId? order history = some id →
    (engine.heap order).quantity ≠ 0 → order ∈ engine.book.standing

theorem Effect.liveStanding {before after : Engine} {event : Event}
    {earlier : List Event} (effect : Effect before event after)
    (tidy : before.Tidy) (tidyAfter : after.Tidy)
    (distinct : DistinctObjects (event :: earlier))
    (sync : LiveStanding earlier before) :
    LiveStanding (event :: earlier) after := by
  refine ⟨fun order stands => ?_, fun order id live quantity => ?_⟩
  · cases effect.fate tidy stands with
    | kept stood unnamed heap =>
        have lived := sync.live order stood
        rw [heap]
        exact liveId?_of_not_names unnamed (distinct.ne_of_live lived) lived
    | traded stood _ _ heap =>
        rw [heap]
        exact sync.live order stood
    | modified stood sameId _ quantity =>
        have nonzero := tidyAfter.hasQuantity order stands
        rw [quantity] at nonzero
        rw [sameId, liveId?, sync.live order stood]
        exact Option.filter_some_pos
          (decide_eq_true fun both => nonzero both.2)
    | added _ newId => rw [newId, liveId?, if_pos ⟨rfl, rfl⟩]
  · by_contra gone
    by_cases stood : order ∈ before.book.standing
    · -- It left in this step, so it is no longer live or has no quantity.
      have lived := sync.live order stood
      cases (effect.stands_or_departs tidy stood).resolve_left gone with
      | cancelled =>
          obtain ⟨sameLive, differs⟩ := Option.filter_eq_some_iff.mp live
          obtain rfl := Option.some.inj (lived.symm.trans sameLive)
          simp at differs
      | emptied =>
          obtain ⟨sameLive, differs⟩ := Option.filter_eq_some_iff.mp live
          obtain rfl := Option.some.inj (lived.symm.trans sameLive)
          simp at differs
      | filled _ usedUp => exact quantity usedUp
    · by_cases added : event.added? = some order
      · cases effect with
        | refused =>
            obtain rfl := Option.some.inj added
            rw [liveId?, if_neg (by simp)] at live
            exact distinct.ne_of_live live rfl
        | added _ _ _ _ queues =>
            obtain rfl := Option.some.inj added
            exact gone ((mem_standing_insertBehind queues).mpr (.inl rfl))
        | _ => cases added
      · have same := effect.untouched stood fun fields result isAdd =>
          added (by rw [isAdd]; rfl)
        rw [same] at quantity
        exact stood
          (sync.stands order id (liveId?_earlier added live) quantity)

/-- Cancelling a standing order of a tidy book takes it, and no other, off the
ladders. -/
theorem Engine.Tidy.standing_perm_cancelOrder {engine : Engine}
    (tidy : engine.Tidy) {order : OrderPtr}
    (stands : order ∈ engine.book.standing) :
    engine.book.standing.Perm (order ::
      (engine.cancelOrder (engine.heap order).id).2.book.standing) := by
  obtain ⟨-, tidyAfter, queues, -⟩ := tidy.cancelOrder stands
  have remaining (other : OrderPtr) :
      other ∈ (engine.cancelOrder (engine.heap order).id).2.book.standing ↔
        other ≠ order ∧ other ∈ engine.book.standing :=
    tidy.consistent.mem_standing_erase queues
  apply (List.perm_ext_iff_of_nodup tidy.consistent.standing_nodup ?_).mpr
  · intro other
    rw [List.mem_cons, remaining other]
    by_cases same : other = order
    · simp [same, stands]
    · simp [same]
  · refine List.nodup_cons.mpr ⟨?_, tidyAfter.consistent.standing_nodup⟩
    exact fun member => ((remaining order).mp member).1 rfl

theorem LiveStanding.keepsAccepted {history : List Event} {engine : Engine}
    (sync : LiveStanding history engine) (tidy : engine.Tidy) :
    KeepsAccepted history engine := by
  intro order id live quantity
  have stands := sync.stands order id live quantity
  obtain rfl := Option.some.inj (live.symm.trans (sync.live order stands))
  exact ⟨(tidy.consistent.indexed _ _).mpr ⟨stands, rfl⟩,
    (tidy.cancelOrder stands).1, tidy.standing_perm_cancelOrder stands⟩

section Runs

variable {heap : Heap} {clock : Nat → Timestamp} {history : List Event}
  {machine : Machine}

theorem FreshRun.liveStanding (run : FreshRun heap clock history machine)
    (distinct : DistinctObjects history) :
    LiveStanding history machine.engine := by
  induction run with
  | start =>
      refine ⟨fun order stands => ?_, fun _ _ live => nomatch live⟩
      simp [Machine.start] at stands
  | next run edge ih =>
      have tidy := FreshRun.tidy run
      obtain ⟨tidyAfter, effect⟩ := Step.effect tidy edge.1 edge.2
      exact effect.liveStanding tidy tidyAfter distinct (ih distinct.tail)

/-- No accepted add of a run repeats the identifier of a standing order. -/
def FreshIds (heap : Heap) (clock : Nat → Timestamp) (history : List Event) :
    Prop :=
  ∀ order fields result earlier before,
    .addOrder order fields result :: earlier <:+ history →
      BookRun heap clock earlier before → fields.quantity ≠ 0 →
        ∀ other ∈ before.engine.book.standing,
          (before.engine.heap other).id ≠ fields.id

/-- Every accepted order is kept whenever no call is in progress. -/
def AlwaysKeepsAccepted (heap : Heap) (clock : Nat → Timestamp)
    (history : List Event) : Prop :=
  ∀ earlier middle, earlier <:+ history → BookRun heap clock earlier middle →
    middle.phase = .idle → KeepsAccepted earlier middle.engine

/-- An object that no earlier call was given does not stand. -/
theorem FreshRun.absent_of_distinct {order : OrderPtr} {fields : Order}
    {result : Bool} (run : FreshRun heap clock history machine)
    (distinct : DistinctObjects (.addOrder order fields result :: history)) :
    order ∉ machine.engine.book.standing := fun stands =>
  distinct.ne_of_live ((run.liveStanding distinct.tail).live order stands) rfl

theorem BookRun.fresh_of_freshIds (run : BookRun heap clock history machine)
    (distinct : DistinctObjects history)
    (freshIds : FreshIds heap clock history) :
    FreshRun heap clock history machine := by
  induction run with
  | start => exact .start
  | @next earlier before _ event run edge ih =>
      have earlierFresh := ih distinct.tail
        fun order fields result older state isSuffix =>
          freshIds order fields result older state
            (isSuffix.trans (List.suffix_cons _ _))
      refine earlierFresh.next ⟨?_, edge⟩
      cases event with
      | addOrder order fields result =>
          exact ⟨earlierFresh.absent_of_distinct distinct, freshIds order
            fields result earlier before (List.suffix_refl _) run⟩
      | _ => trivial

/-- An accepted order under a standing identifier takes the index entry of a
live order. -/
theorem Step.not_keepsAccepted {before after : Machine} {order : OrderPtr}
    {fields : Order} {result : Bool} {earlier : List Event}
    (run : FreshRun heap clock earlier before)
    (distinct : DistinctObjects (.addOrder order fields result :: earlier))
    (step : Step before (.addOrder order fields result) after)
    (quantity : fields.quantity ≠ 0) {other : OrderPtr}
    (stands : other ∈ before.engine.book.standing)
    (sameId : (before.engine.heap other).id = fields.id) :
    ¬ KeepsAccepted (.addOrder order fields result :: earlier)
      after.engine := by
  have differ : other ≠ order := ne_of_mem_of_not_mem stands
    (run.absent_of_distinct distinct)
  have lived := (run.liveStanding distinct.tail).live other stands
  have hasQuantity := run.tidy.hasQuantity other stands
  cases step with
  | @addOrder engine after _ _ _ _ returns =>
      rw [Engine.addOrder_of_quantity (by rwa [engine.store_heap_self])]
        at returns
      obtain ⟨rfl, rfl⟩ := Prod.mk.inj returns
      intro keeps
      have heapOther : ((engine.store order fields).stamp order).heap other =
          engine.heap other := by
        rw [Engine.stamp_heap_of_ne _ _ differ, engine.store_heap_of_ne differ]
      have found := (keeps other (engine.heap other).id
        (by rwa [liveId?, if_neg fun both => differ both.1.symm])
        (by rwa [heapOther])).1
      have stampedId : (((engine.store order fields).stamp order).heap
          order).id = fields.id := by
        rw [((engine.store order fields).stamp_heap order order).1,
          engine.store_heap_self]
      rw [OrderBook.getOrder, OrderBook.enter_eq,
        OrderBook.orderMap_withLevels, OrderBook.orderMap_withIndex, stampedId,
        sameId, Function.update_self] at found
      exact differ (Option.some.inj found).symm

theorem BookRun.fresh_of_keepsAccepted
    (run : BookRun heap clock history machine)
    (distinct : DistinctObjects history)
    (keeps : AlwaysKeepsAccepted heap clock history) :
    FreshRun heap clock history machine := by
  induction run with
  | start => exact .start
  | @next earlier before after event run edge ih =>
      have earlierFresh := ih distinct.tail
        fun older state isSuffix =>
          keeps older state (isSuffix.trans (List.suffix_cons _ _))
      refine earlierFresh.next ⟨?_, edge⟩
      cases event with
      | addOrder order fields result =>
          refine ⟨earlierFresh.absent_of_distinct distinct, ?_⟩
          intro quantity other stands sameId
          have idle : after.phase = .idle := by
            cases edge
            rfl
          exact edge.not_keepsAccepted earlierFresh distinct quantity stands
            sameId (keeps _ _ (List.suffix_refl _) (run.next edge) idle)
      | _ => trivial

/-- Over runs that add every object at most once, every accepted order is kept
after every call exactly when no accepted order repeats the identifier of a
standing one. -/
theorem bookRun_keepsAccepted_iff (run : BookRun heap clock history machine)
    (distinct : DistinctObjects history) :
    AlwaysKeepsAccepted heap clock history ↔ FreshIds heap clock history := by
  constructor
  · intro keeps order fields result earlier before isSuffix before_run
    have fresh := BookRun.fresh_of_keepsAccepted run distinct keeps
    obtain ⟨after, freshAfter⟩ := fresh.of_suffix isSuffix
    cases freshAfter with
    | next freshBefore edge =>
        obtain rfl := BookRun.unique before_run freshBefore.unguard
        exact edge.1.2
  · intro freshIds earlier middle isSuffix middleRun _
    have fresh := BookRun.fresh_of_freshIds run distinct freshIds
    obtain ⟨state, freshState⟩ := fresh.of_suffix isSuffix
    obtain rfl := BookRun.unique middleRun freshState.unguard
    have distinctEarlier : DistinctObjects earlier :=
      distinct.sublist (isSuffix.sublist.filterMap _)
    exact (FreshRun.liveStanding freshState distinctEarlier).keepsAccepted
      (FreshRun.tidy freshState)

theorem bookRun_keepsAccepted_iff_cancelled :
    AlwaysKeepsAccepted zeroHeap tickingClock
        [.cancelOrder 1 true, .addOrder 2 (Order.new 2 true 5 90 0) true,
          .addOrder 1 (Order.new 1 true 5 100 0) true] ↔
      FreshIds zeroHeap tickingClock
        [.cancelOrder 1 true, .addOrder 2 (Order.new 2 true 5 90 0) true,
          .addOrder 1 (Order.new 1 true 5 100 0) true] := by
  obtain ⟨machine, run, -⟩ := exists_bookRun_of_replay zeroHeap tickingClock
    [.cancelOrder 1 true, .addOrder 2 (Order.new 2 true 5 90 0) true,
      .addOrder 1 (Order.new 1 true 5 100 0) true] (fun _ => true) (by decide)
  exact bookRun_keepsAccepted_iff run (by decide)

/-- Two buys with one identifier: the index forgets the first, which a
cancellation then leaves on the ladder for good. -/
theorem accepted_lost_on_repeated_id :
    ∃ machine, BookRun zeroHeap tickingClock
        [.addOrder 2 (Order.new 1 true 5 90 0) true,
          .addOrder 1 (Order.new 1 true 5 100 0) true] machine ∧
      machine.phase = .idle ∧
      ¬ KeepsAccepted [.addOrder 2 (Order.new 1 true 5 90 0) true,
          .addOrder 1 (Order.new 1 true 5 100 0) true] machine.engine ∧
      (machine.engine.cancelOrder 1).2.book.standing = [1] ∧
      (machine.engine.cancelOrder 1).2.book.getOrder 1 = none := by
  obtain ⟨machine, run, passes⟩ := exists_bookRun_of_replay zeroHeap
    tickingClock [.addOrder 2 (Order.new 1 true 5 90 0) true,
      .addOrder 1 (Order.new 1 true 5 100 0) true]
    (fun machine => machine.phase = .idle ∧
      machine.engine.book.getOrder 1 = some 2 ∧
      (machine.engine.heap 1).quantity ≠ 0 ∧
      (machine.engine.cancelOrder 1).2.book.standing = [1] ∧
      (machine.engine.cancelOrder 1).2.book.getOrder 1 = none) (by decide)
  obtain ⟨idle, found, quantity, left, forgotten⟩ := of_decide_eq_true passes
  refine ⟨machine, run, idle, fun keeps => ?_, left, forgotten⟩
  have kept := (keeps 1 1 rfl quantity).1
  rw [found] at kept
  cases kept

end Runs

end TradingMatcher
