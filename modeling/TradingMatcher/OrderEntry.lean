import TradingMatcher.StandingOrders

/-!
# How orders enter

A successful add or modify enters an order, and from then on only its quantity
changes.  The history of a run tells when each standing order entered last; a
step leaves every queue as a part of the queue it was, with at most the entering
order inserted.
-/

namespace TradingMatcher

open PriceTime

/-- The identifier that a step enters. -/
def Event.entered? : Event → Option OrderId
  | .addOrder _ fields true => some fields.id
  | .modifyOrder id _ _ true => some id
  | _ => none

theorem Event.names_of_entered {event : Event} {id : OrderId}
    (entered : event.entered? = some id) : event.Names id := by
  cases event with
  | addOrder order fields result =>
      cases result with
      | false => cases entered
      | true => exact Option.some.inj entered
  | modifyOrder other newPrice newQuantity result =>
      cases result with
      | false => cases entered
      | true => exact Option.some.inj entered
  | cancelOrder => cases entered
  | matchOrders => cases entered
  | executeTrade => cases entered
  | matchReturn => cases entered

/-- How many steps came before the one that entered an identifier last. -/
def entryIndex? (id : OrderId) : List Event → Option Nat
  | [] => none
  | event :: earlier =>
      if event.entered? = some id then some earlier.length
      else entryIndex? id earlier

theorem entryIndex?_lt {id : OrderId} {history : List Event} {index : Nat}
    (entered : entryIndex? id history = some index) :
    index < history.length := by
  induction history with
  | nil => cases entered
  | cons event earlier ih =>
      rw [entryIndex?] at entered
      rw [List.length_cons]
      split at entered
      next => exact Option.some.inj entered ▸ Nat.lt_succ_self _
      next => exact (ih entered).trans (Nat.lt_succ_self _)

/-- One step enters at most one identifier. -/
theorem entryIndex?_inj {first second : OrderId} {history : List Event}
    {index : Nat} (firstEntered : entryIndex? first history = some index)
    (secondEntered : entryIndex? second history = some index) :
    first = second := by
  induction history with
  | nil => cases firstEntered
  | cons event earlier ih =>
      rw [entryIndex?] at firstEntered secondEntered
      split at firstEntered <;> split at secondEntered
      next isFirst isSecond =>
        exact Option.some.inj (isFirst.symm.trans isSecond)
      next =>
        obtain rfl := Option.some.inj firstEntered
        exact (Nat.lt_irrefl _ (entryIndex?_lt secondEntered)).elim
      next =>
        obtain rfl := Option.some.inj secondEntered
        exact (Nat.lt_irrefl _ (entryIndex?_lt firstEntered)).elim
      next => exact ih firstEntered secondEntered

namespace Engine

/-- The fields of an order as `addOrder` leaves them. -/
def stamped (engine : Engine) (fields : Order) : Order :=
  if fields.timestampNs = 0 then
    { fields with timestampNs := engine.clock 0 }
  else fields

theorem stamp_heap_self (engine : Engine) (order : OrderPtr) :
    (engine.stamp order).heap order = engine.stamped (engine.heap order) := by
  rw [stamp, stamped]
  split
  · exact Function.update_self _ _ _
  · rfl

/-- Stamping an order changes no price. -/
theorem priceOf_stamped {engine after : Engine} {order : OrderPtr}
    (heap : after.heap = (engine.stamp order).heap) :
    after.priceOf = engine.priceOf := by
  funext other
  rw [priceOf, priceOf, heap, (engine.stamp_heap order other).2.1]

@[simp]
theorem stamped_id (engine : Engine) (fields : Order) :
    (engine.stamped fields).id = fields.id := by
  rw [stamped]
  split <;> rfl

/-- The order that a call enters, with the fields it enters with. -/
def entering? (engine : Engine) : Event → Option (OrderPtr × Order)
  | .addOrder order fields _ =>
      if fields.quantity = 0 then none
      else some (order, engine.stamped fields)
  | .modifyOrder id newPrice newQuantity _ =>
      if newQuantity = 0 then none
      else (engine.book.orderMap id).map fun order =>
        (order, engine.getTimestampNs.2.stamped
          (engine.modifiedFields order newPrice newQuantity))
  | _ => none

end Engine

/-- An order stands before and after a step that does not enter it: all that
the step can change is its quantity. -/
structure Stays (before : Engine) (event : Event) (after : Engine)
    (order : OrderPtr) : Prop where
  stood : order ∈ before.book.standing
  unentered : event.entered? ≠ some (before.heap order).id
  terms : ∃ quantity, after.heap order =
    { before.heap order with quantity := quantity }

/-- A step enters an order, with the fields its call gives it. -/
structure Enters (before : Engine) (event : Event) (after : Engine)
    (order : OrderPtr) : Prop where
  entered : event.entered? = some (after.heap order).id
  entering : before.entering? event = some (order, after.heap order)

theorem Enters.unique {before after : Engine} {event : Event}
    {first second : OrderPtr} (enters : Enters before event after first)
    (others : Enters before event after second) : first = second :=
  congrArg Prod.fst
    (Option.some.inj (enters.entering.symm.trans others.entering))

theorem Stays.not_enters {before after : Engine} {event : Event}
    {order : OrderPtr} (stays : Stays before event after order) :
    ¬ Enters before event after order := by
  obtain ⟨quantity, terms⟩ := stays.terms
  intro enters
  apply stays.unentered
  rw [enters.entered, terms]

namespace Effect

variable {before after : Engine} {event : Event}

/-- The order that a step enters. -/
theorem exists_entering (effect : Effect before event after)
    (tidy : before.Tidy) {id : OrderId} (entered : event.entered? = some id) :
    ∃ order ∈ after.book.standing, (after.heap order).id = id ∧
      Enters before event after order := by
  cases effect with
  | @added order fields _ _ quantity _ heap queues =>
      have terms : after.heap order = before.stamped fields := by
        rw [heap, Engine.stamp_heap_self, Engine.store_heap_self]
        rfl
      have sameId : (after.heap order).id = fields.id := by
        rw [terms, Engine.stamped_id]
      refine ⟨order, (mem_standing_insertBehind queues).mpr (.inl rfl),
        sameId.trans (Option.some.inj entered), ⟨congrArg some sameId.symm, ?_⟩⟩
      rw [terms, Engine.entering?, if_neg quantity]
  | @modified order newPrice newQuantity _ stands quantity _ heap queues =>
      have terms : after.heap order = before.getTimestampNs.2.stamped
          (before.modifiedFields order newPrice newQuantity) := by
        rw [heap, Engine.stamp_heap_self, Engine.withdrawn_heap_self]
        rfl
      have indexed := (tidy.consistent.indexed _ order).mpr ⟨stands, rfl⟩
      have sameId : (after.heap order).id = (before.heap order).id := by
        rw [terms, Engine.stamped_id]
        rfl
      refine ⟨order, (mem_standing_insertBehind queues).mpr (.inl rfl),
        sameId.trans (Option.some.inj entered), ⟨congrArg some sameId.symm, ?_⟩⟩
      rw [terms, Engine.entering?, if_neg quantity, indexed, Option.map_some]
  | refused => cases entered
  | cancelAbsent => cases entered
  | cancelled => cases entered
  | modifyAbsent => cases entered
  | emptied => cases entered
  | entered => cases entered
  | traded => cases entered
  | returned => cases entered

/-- An order that stands after a step stays or is entered. -/
theorem stays_or_enters (effect : Effect before event after)
    (tidy : before.Tidy) (tidyAfter : after.Tidy) {order : OrderPtr}
    (stands : order ∈ after.book.standing) :
    Stays before event after order ∨ Enters before event after order := by
  have enters (entered : event.entered? = some (after.heap order).id) :
      Enters before event after order := by
    obtain ⟨subject, subjectStands, sameId, enters⟩ :=
      effect.exists_entering tidy entered
    obtain rfl := tidyAfter.consistent.eq_of_id_eq subjectStands stands sameId
    exact enters
  cases effect.fate tidy stands with
  | kept stood unnamed heap =>
      exact .inl ⟨stood, fun entered => unnamed (Event.names_of_entered entered),
        _, heap⟩
  | traded stood _ _ heap => exact .inl ⟨stood, nofun, _, heap⟩
  | modified _ id => exact .inr (enters (congrArg some id.symm))
  | added _ id => exact .inr (enters (congrArg some id.symm))

/-- A step that enters nothing leaves parts of the queues. -/
theorem queue_sublist (effect : Effect before event after)
    (entersNothing : event.entered? = none) (side : Side) :
    (after.book.queue side).Sublist (before.book.queue side) := by
  cases effect with
  | refused => exact .refl _
  | added => cases entersNothing
  | cancelAbsent => exact .refl _
  | cancelled _ _ queues => exact queues side ▸ List.erase_sublist
  | modifyAbsent => exact .refl _
  | emptied _ queues => exact queues side ▸ List.erase_sublist
  | modified => cases entersNothing
  | entered => exact .refl _
  | traded _ passed => exact passed.queue_sublist side
  | returned => exact .refl _

end Effect

/-- What a step leaves of a queue stays, and the entering order is inserted
behind all of it that has an equal or better price. -/
structure KeepsQueue (before : Engine) (event : Event) (after : Engine)
    (side : Side) (rest : List OrderPtr) : Prop where
  isPart : rest.Sublist (before.book.queue side)
  stay : ∀ order ∈ rest, Stays before event after order
  queue : after.book.queue side = rest ∨
    ∃ order, Enters before event after order ∧
      after.book.queue side = insertBehind side after.priceOf order rest

/-- The queues of a step that inserts an order into one of them. -/
theorem keepsQueue_of_insertBehind {before after : Engine} {event : Event}
    {order : OrderPtr} {orderSide : Side} {rest : Side → List OrderPtr}
    (staysOrEnters : ∀ other ∈ after.book.standing,
      Stays before event after other ∨ Enters before event after other)
    (enters : Enters before event after order)
    (isPart : ∀ side, (rest side).Sublist (before.book.queue side))
    (absent : ∀ side, order ∉ rest side)
    (queues : ∀ side, after.book.queue side =
      if side = orderSide then insertBehind side after.priceOf order (rest side)
      else rest side) (side : Side) :
    KeepsQueue before event after side (rest side) where
  isPart := isPart side
  stay other member := by
    have stands := (mem_standing_insertBehind queues).mpr (.inr ⟨side, member⟩)
    rcases staysOrEnters other stands with stays | others
    · exact stays
    · exact (absent side (enters.unique others ▸ member)).elim
  queue := by
    rw [queues side]
    split
    · exact .inr ⟨order, enters, rfl⟩
    · exact .inl rfl

theorem Effect.exists_keepsQueue {before after : Engine} {event : Event}
    (effect : Effect before event after) (tidy : before.Tidy)
    (tidyAfter : after.Tidy) (side : Side) :
    ∃ rest, KeepsQueue before event after side rest := by
  have staysOrEnters (order : OrderPtr) (stands : order ∈ after.book.standing) :
      Stays before event after order ∨ Enters before event after order :=
    effect.stays_or_enters tidy tidyAfter stands
  cases entered : event.entered? with
  | none =>
      refine ⟨after.book.queue side, effect.queue_sublist entered side,
        fun order member => ?_, .inl rfl⟩
      have stands := OrderBook.mem_standing_iff.mpr ⟨side, member⟩
      rcases staysOrEnters order stands with stays | enters
      · exact stays
      · cases entered.symm.trans enters.entered
  | some id =>
      obtain ⟨order, -, -, enters⟩ := effect.exists_entering tidy entered
      have entering := enters.entering
      cases effect with
      | @added subject fields _ fresh quantity _ heap queues =>
          rw [Engine.entering?, if_neg quantity] at entering
          obtain ⟨rfl, -⟩ := Prod.mk.inj (Option.some.inj entering)
          rw [← Engine.priceOf_stamped heap] at queues
          have absent (side : Side) : subject ∉ before.book.queue side :=
            fun member =>
              fresh.1 (OrderBook.mem_standing_iff.mpr ⟨side, member⟩)
          exact ⟨_, keepsQueue_of_insertBehind staysOrEnters enters
            (fun _ => .refl _) absent queues side⟩
      | @modified subject newPrice newQuantity _ stands quantity _ heap
          queues =>
          rw [Engine.entering?, if_neg quantity,
            (tidy.consistent.indexed _ subject).mpr ⟨stands, rfl⟩] at entering
          obtain ⟨rfl, -⟩ := Prod.mk.inj (Option.some.inj entering)
          rw [← Engine.priceOf_stamped heap] at queues
          have absent (side : Side) :
              subject ∉ (before.book.queue side).erase subject :=
            List.Nodup.not_mem_erase (tidy.consistent.nodup side)
          exact ⟨_, keepsQueue_of_insertBehind staysOrEnters enters
            (fun _ => List.erase_sublist) absent queues side⟩
      | _ => cases entered

/-- Among the orders of one side and price, earlier in the queue is related to
later in the queue. -/
def Engine.InLevelOrder (engine : Engine)
    (relation : OrderPtr → OrderPtr → Prop) : Prop :=
  ∀ side, (engine.book.queue side).Pairwise fun earlier later =>
    engine.priceOf earlier = engine.priceOf later → relation earlier later

theorem Engine.new_inLevelOrder (heap : Heap) (clock : Nat → Timestamp)
    (relation : OrderPtr → OrderPtr → Prop) :
    (Engine.new heap clock).InLevelOrder relation := by
  intro side
  have empty : (Engine.new heap clock).book.queue side = [] := by
    cases side <;> rfl
  rw [empty]
  exact .nil

/-- An order in the levels has to be kept for the orders that stay, and needs
every entering order last of its level. -/
theorem Effect.inLevelOrder {before after : Engine} {event : Event}
    {relation relationAfter : OrderPtr → OrderPtr → Prop}
    (effect : Effect before event after) (tidy : before.Tidy)
    (tidyAfter : after.Tidy) (ordered : before.InLevelOrder relation)
    (stay : ∀ earlier later, Stays before event after earlier →
      Stays before event after later → relation earlier later →
        relationAfter earlier later)
    (enter : ∀ side, ∀ earlier ∈ before.book.queue side,
      ∀ later ∈ after.book.queue side, Stays before event after earlier →
        Enters before event after later →
          after.priceOf earlier = after.priceOf later →
            relationAfter earlier later) :
    after.InLevelOrder relationAfter := by
  intro side
  obtain ⟨rest, isPart, stays, queue⟩ :=
    effect.exists_keepsQueue tidy tidyAfter side
  have samePrice (order : OrderPtr) (member : order ∈ rest) :
      after.priceOf order = before.priceOf order := by
    obtain ⟨quantity, terms⟩ := (stays order member).terms
    rw [Engine.priceOf, Engine.priceOf, terms]
  have restOrdered : rest.Pairwise fun earlier later =>
      after.priceOf earlier = after.priceOf later →
        relationAfter earlier later := by
    refine List.Pairwise.imp_of_mem ?_ ((ordered side).sublist isPart)
    intro earlier later earlierMember laterMember related same
    rw [samePrice earlier earlierMember, samePrice later laterMember] at same
    exact stay earlier later (stays earlier earlierMember)
      (stays later laterMember) (related same)
  rcases queue with queue | ⟨order, enters, queue⟩
  · rwa [queue]
  · have inPriority : InPriority side after.priceOf rest := by
      refine List.Pairwise.imp_of_mem ?_
        ((tidy.consistent.inPriority side).sublist isPart)
      intro earlier later earlierMember laterMember notBetter
      rw [samePrice earlier earlierMember, samePrice later laterMember]
      exact notBetter
    have member : order ∈ after.book.queue side := by
      rw [queue, (insertBehind_perm _ _ _ _).mem_iff]
      exact List.mem_cons_self
    rw [queue]
    apply insertBehind_pairwise inPriority restOrdered
    · intro other inRest _ same
      exact enter side other (isPart.subset inRest) order member
        (stays other inRest) enters same
    · intro other _ better same
      exact (better.ne same).elim

section History

variable {before after : Engine} {event : Event} {order : OrderPtr}
  (earlier : List Event)

theorem Stays.entryIndex?_eq (stays : Stays before event after order) :
    entryIndex? (after.heap order).id (event :: earlier) =
      entryIndex? (before.heap order).id earlier := by
  obtain ⟨quantity, terms⟩ := stays.terms
  rw [terms, entryIndex?, if_neg stays.unentered]

theorem Enters.entryIndex?_eq (enters : Enters before event after order) :
    entryIndex? (after.heap order).id (event :: earlier) =
      some earlier.length :=
  if_pos enters.entered

end History

/-- Both identifiers have entered, the first of them earlier. -/
def EnteredBefore (history : List Event) (first second : OrderId) : Prop :=
  ∃ firstIndex secondIndex, entryIndex? first history = some firstIndex ∧
    entryIndex? second history = some secondIndex ∧ firstIndex < secondIndex

instance (history : List Event) (first second : OrderId) :
    Decidable (EnteredBefore history first second) :=
  decidable_of_iff (∃ firstIndex ∈ entryIndex? first history,
      ∃ secondIndex ∈ entryIndex? second history, firstIndex < secondIndex) (by
    simp only [EnteredBefore, Option.mem_def, ← exists_and_left])

theorem EnteredBefore.asymm {history : List Event} {first second : OrderId}
    (before : EnteredBefore history first second) :
    ¬ EnteredBefore history second first := by
  obtain ⟨firstIndex, secondIndex, isFirst, isSecond, less⟩ := before
  rintro ⟨other, another, isOther, isAnother, greater⟩
  obtain rfl := Option.some.inj (isFirst.symm.trans isAnother)
  obtain rfl := Option.some.inj (isSecond.symm.trans isOther)
  exact less.asymm greater

section Runs

variable {heap : Heap} {clock : Nat → Timestamp} {history : List Event}
  {machine : Machine}

/-- Every standing order has entered. -/
theorem FreshRun.exists_entryIndex (run : FreshRun heap clock history machine) :
    ∀ order ∈ machine.engine.book.standing, ∃ index,
      entryIndex? (machine.engine.heap order).id history = some index := by
  apply run.invariant_of_effect fun history engine =>
    ∀ order ∈ engine.book.standing, ∃ index,
      entryIndex? (engine.heap order).id history = some index
  · intro order stands
    simp at stands
  · intro earlier before event after tidy tidyAfter held effect order stands
    rcases effect.stays_or_enters tidy tidyAfter stands with stays | enters
    · rw [stays.entryIndex?_eq]
      exact held order stays.stood
    · exact ⟨_, enters.entryIndex?_eq earlier⟩

theorem FreshRun.enteredBefore_or (run : FreshRun heap clock history machine)
    {first second : OrderPtr} (firstStands : first ∈ machine.engine.book.standing)
    (secondStands : second ∈ machine.engine.book.standing)
    (differ : first ≠ second) :
    EnteredBefore history (machine.engine.heap first).id
        (machine.engine.heap second).id ∨
      EnteredBefore history (machine.engine.heap second).id
        (machine.engine.heap first).id := by
  obtain ⟨firstIndex, isFirst⟩ := run.exists_entryIndex first firstStands
  obtain ⟨secondIndex, isSecond⟩ := run.exists_entryIndex second secondStands
  rcases Nat.lt_trichotomy firstIndex secondIndex with less | rfl | greater
  · exact .inl ⟨_, _, isFirst, isSecond, less⟩
  · have sameId := entryIndex?_inj isFirst isSecond
    exact (differ (run.tidy.consistent.eq_of_id_eq firstStands secondStands
      sameId)).elim
  · exact .inr ⟨_, _, isSecond, isFirst, greater⟩

/-- Every level of the book is in the order of entry. -/
theorem FreshRun.inEntryOrder (run : FreshRun heap clock history machine) :
    machine.engine.InLevelOrder fun earlier later =>
      EnteredBefore history (machine.engine.heap earlier).id
        (machine.engine.heap later).id := by
  have invariant := run.invariant
    (fun history machine => machine.engine.InLevelOrder fun earlier later =>
      EnteredBefore history (machine.engine.heap earlier).id
        (machine.engine.heap later).id)
    (Engine.new_inLevelOrder _ _ _)
  apply invariant
  intro history source event target run ordered step
  have tidy := FreshRun.tidy run
  obtain ⟨tidyAfter, effect⟩ := Step.effect tidy step.1 step.2
  apply effect.inLevelOrder tidy tidyAfter ordered
  · intro earlier later earlierStays laterStays before
    rwa [EnteredBefore, earlierStays.entryIndex?_eq, laterStays.entryIndex?_eq]
  · intro side earlier _ later _ earlierStays laterEnters _
    obtain ⟨index, isIndex⟩ :=
      FreshRun.exists_entryIndex run earlier earlierStays.stood
    exact ⟨index, history.length,
      (earlierStays.entryIndex?_eq history).trans isIndex,
      laterEnters.entryIndex?_eq history, entryIndex?_lt isIndex⟩

end Runs

end TradingMatcher
