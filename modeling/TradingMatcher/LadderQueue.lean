import TradingMatcher.OrderBook

/-!
# The queue of a price ladder

A ladder read level by level, from the best price on, is one queue of orders.
Appending an order to the level of its price inserts it into the queue behind
everything of equal or better price, and removing an order by its identifier
erases exactly that order, provided each order stands in the level of its price
and no level is empty.
-/

namespace TradingMatcher

open PriceTime

/-- Erasing the first item that passes a test erases an item that alone passes
it. -/
private theorem eraseP_eq_erase_of_unique {Item : Type*} [DecidableEq Item]
    {items : List Item} {item : Item} {test : Item → Bool}
    (passes : test item = true)
    (unique : ∀ other ∈ items, test other = true → other = item) :
    items.eraseP test = items.erase item := by
  induction items with
  | nil => rfl
  | cons head rest ih =>
      have restUnique := ih fun other member =>
        unique other (List.mem_cons_of_mem head member)
      by_cases same : head = item
      · simp [same, passes]
      · have fails : ¬ test head = true := fun headPasses =>
          same (unique head (List.mem_cons_self) headPasses)
        rw [List.eraseP_cons_of_neg fails, restUnique,
          List.erase_cons_tail (by simpa using same)]

namespace Ladder

/-- The orders of a ladder in the priority order of a side. -/
def queue (ladder : Ladder) : Side → List OrderPtr
  | .buy => ladder.entries.reverse.flatMap fun entry => entry.2.orders
  | .sell => ladder.entries.flatMap fun entry => entry.2.orders

/-- The level with the best price of a side. -/
def best? (ladder : Ladder) : Side → Option (Price × PriceLevel)
  | .buy => ladder.last?
  | .sell => ladder.first?

/-- The best price of a side, 0 when there is none. -/
def bestKey (ladder : Ladder) (side : Side) : Price :=
  match ladder.best? side with
  | none => 0
  | some best => best.1

/-- Every level holds orders, and they have its price and the ladder's side. -/
structure WellPlaced (heap : Heap) (side : Side) (ladder : Ladder) : Prop where
  nonempty : ∀ price level, (price, level) ∈ ladder.entries → level.orders ≠ []
  placed : ∀ price level, (price, level) ∈ ladder.entries →
    ∀ order ∈ level.orders,
      (heap order).priceScaled = price ∧ (heap order).bookSide = side

theorem mem_queue_iff {ladder : Ladder} {side : Side} {order : OrderPtr} :
    order ∈ ladder.queue side ↔
      ∃ price level, (price, level) ∈ ladder.entries ∧ order ∈ level.orders := by
  cases side <;> simp [queue]

/-- The queue around one price: the better levels, the level, the worse
levels. -/
theorem exists_queue_split (ladder : Ladder) (side : Side) (price : Price) :
    ∃ ahead behind : List OrderPtr,
      ladder.queue side =
        ahead ++ (((ladder.find? price).getD PriceLevel.new).orders ++ behind) ∧
      (∀ level, queue (ladder.insert price level) side =
        ahead ++ (level.orders ++ behind)) ∧
      queue (ladder.erase price) side = ahead ++ behind ∧
      (∀ order ∈ ahead, ∃ other level, (other, level) ∈ ladder.entries ∧
        order ∈ level.orders ∧ side.Better other price) ∧
      (∀ order ∈ behind, ∃ other level, (other, level) ∈ ladder.entries ∧
        order ∈ level.orders ∧ side.Better price other) := by
  obtain ⟨below, above, belowPrice, abovePrice, entriesEq, insertEq, eraseEq⟩ :=
    ladder.exists_split price
  have inBelow : ∀ order ∈ below.flatMap (fun entry => entry.2.orders),
      ∃ other level, (other, level) ∈ ladder.entries ∧
        order ∈ level.orders ∧ other < price := by
    intro order member
    obtain ⟨entry, entryMember, inLevel⟩ := List.mem_flatMap.mp member
    exact ⟨entry.1, entry.2, by simp [entriesEq, entryMember], inLevel,
      belowPrice entry entryMember⟩
  have inAbove : ∀ order ∈ above.flatMap (fun entry => entry.2.orders),
      ∃ other level, (other, level) ∈ ladder.entries ∧
        order ∈ level.orders ∧ price < other := by
    intro order member
    obtain ⟨entry, entryMember, inLevel⟩ := List.mem_flatMap.mp member
    exact ⟨entry.1, entry.2, by simp [entriesEq, entryMember], inLevel,
      abovePrice entry entryMember⟩
  cases side with
  | buy =>
      refine ⟨above.reverse.flatMap fun entry => entry.2.orders,
        below.reverse.flatMap fun entry => entry.2.orders, ?_, ?_, ?_, ?_, ?_⟩
      · rw [queue, entriesEq]
        cases ladder.find? price <;> simp [PriceLevel.new]
      · intro level
        rw [queue, insertEq]
        simp
      · rw [queue, eraseEq]
        simp
      · intro order member
        exact inAbove order (by simpa using member)
      · intro order member
        exact inBelow order (by simpa using member)
  | sell =>
      refine ⟨below.flatMap fun entry => entry.2.orders,
        above.flatMap fun entry => entry.2.orders, ?_, ?_, ?_, inBelow, inAbove⟩
      · rw [queue, entriesEq]
        cases ladder.find? price <;> simp [PriceLevel.new]
      · intro level
        rw [queue, insertEq]
        simp
      · rw [queue, eraseEq]
        simp

namespace WellPlaced

variable {heap : Heap} {side : Side} {ladder : Ladder}

theorem empty : WellPlaced heap side SortedMap.empty where
  nonempty _ _ member := by simp [SortedMap.empty] at member
  placed _ _ member := by simp [SortedMap.empty] at member

theorem bookSide (wellPlaced : WellPlaced heap side ladder)
    {order : OrderPtr} (member : order ∈ ladder.queue side) :
    (heap order).bookSide = side := by
  obtain ⟨price, level, inLadder, inLevel⟩ := mem_queue_iff.mp member
  exact (wellPlaced.placed price level inLadder order inLevel).2

/-- An order of the queue stands in the level of its price. -/
theorem exists_level (wellPlaced : WellPlaced heap side ladder)
    {order : OrderPtr} (member : order ∈ ladder.queue side) :
    ∃ level, ladder.find? (heap order).priceScaled = some level ∧
      order ∈ level.orders := by
  obtain ⟨price, level, inLadder, inLevel⟩ := mem_queue_iff.mp member
  rw [(wellPlaced.placed price level inLadder order inLevel).1]
  exact ⟨level, SortedMap.mem_entries_iff_find?_eq_some.mp inLadder, inLevel⟩

/-- Placement looks at the prices and sides of the standing orders only. -/
theorem congr {other : Heap} (wellPlaced : WellPlaced heap side ladder)
    (agree : ∀ order ∈ ladder.queue side,
      (other order).priceScaled = (heap order).priceScaled ∧
        (other order).side = (heap order).side) :
    WellPlaced other side ladder where
  nonempty := wellPlaced.nonempty
  placed price level inLadder order inLevel := by
    obtain ⟨samePrice, sameSide⟩ :=
      agree order (mem_queue_iff.mpr ⟨price, level, inLadder, inLevel⟩)
    have before := wellPlaced.placed price level inLadder order inLevel
    refine ⟨samePrice.trans before.1, ?_⟩
    rw [← before.2, Order.bookSide, Order.bookSide, Order.isBuy, Order.isBuy,
      sameSide]

/-- The best level starts with the head of the queue, whose price is its
key. -/
theorem best?_eq (wellPlaced : WellPlaced heap side ladder) :
    (ladder.best? side).bind (fun best => best.2.getBestOrder) =
        (ladder.queue side).head? ∧
      (ladder.best? side).map Prod.fst =
        (ladder.queue side).head?.map fun order => (heap order).priceScaled := by
  have fromLevel : ∀ entry ∈ ladder.entries,
      ∃ order, entry.2.orders.head? = some order ∧
        (heap order).priceScaled = entry.1 := by
    rintro ⟨price, level⟩ member
    obtain ⟨order, rest, ordersEq⟩ :=
      List.exists_cons_of_ne_nil (wellPlaced.nonempty price level member)
    exact ⟨order, by simp [ordersEq],
      (wellPlaced.placed price level member order (by simp [ordersEq])).1⟩
  cases side with
  | buy =>
      rcases List.eq_nil_or_concat ladder.entries with none | ⟨rest, last, concat⟩
      · simp [best?, SortedMap.last?, queue, none]
      · obtain ⟨order, headEq, priceEq⟩ := fromLevel last (by simp [concat])
        simp [best?, SortedMap.last?, queue, concat, PriceLevel.getBestOrder,
          headEq, priceEq]
  | sell =>
      cases entriesEq : ladder.entries with
      | nil => simp [best?, SortedMap.first?, queue, entriesEq]
      | cons first rest =>
          obtain ⟨order, headEq, priceEq⟩ := fromLevel first (by simp [entriesEq])
          simp [best?, SortedMap.first?, queue, entriesEq,
            PriceLevel.getBestOrder, headEq, priceEq]

theorem inPriority (wellPlaced : WellPlaced heap side ladder) :
    InPriority side (fun order => (heap order).priceScaled)
      (ladder.queue side) := by
  have increasing := ladder.increasing
  have sameLevel : ∀ entry ∈ ladder.entries, entry.2.orders.Pairwise
      fun earlier later => ¬ side.Better (heap later).priceScaled
        (heap earlier).priceScaled := by
    rintro ⟨price, level⟩ member
    refine List.pairwise_of_forall_mem_list fun earlier earlierMember later
      laterMember => ?_
    rw [(wellPlaced.placed price level member earlier earlierMember).1,
      (wellPlaced.placed price level member later laterMember).1]
    cases side <;> exact lt_irrefl _
  have acrossLevels : ∀ low ∈ ladder.entries, ∀ high ∈ ladder.entries,
      low.1 < high.1 → ∀ lowOrder ∈ low.2.orders, ∀ highOrder ∈ high.2.orders,
        (heap lowOrder).priceScaled < (heap highOrder).priceScaled := by
    intro low lowMember high highMember keys lowOrder inLow highOrder inHigh
    rw [(wellPlaced.placed low.1 low.2 lowMember lowOrder inLow).1,
      (wellPlaced.placed high.1 high.2 highMember highOrder inHigh).1]
    exact keys
  cases side with
  | buy =>
      refine List.pairwise_flatMap.mpr ⟨fun entry member =>
        sameLevel entry (List.mem_reverse.mp member), ?_⟩
      refine (List.pairwise_reverse.mpr increasing).imp_of_mem ?_
      intro high low highMember lowMember keys highOrder inHigh lowOrder inLow
      exact (acrossLevels low (List.mem_reverse.mp lowMember) high
        (List.mem_reverse.mp highMember) keys lowOrder inLow highOrder
        inHigh).not_gt
  | sell =>
      refine List.pairwise_flatMap.mpr ⟨sameLevel, ?_⟩
      refine increasing.imp_of_mem ?_
      intro low high lowMember highMember keys lowOrder inLow highOrder inHigh
      exact (acrossLevels low lowMember high highMember keys lowOrder inLow
        highOrder inHigh).not_gt

/-- The levels that remain after an erasure, or an assignment of well placed
orders, are well placed. -/
theorem insert (wellPlaced : WellPlaced heap side ladder) {price : Price}
    {level : PriceLevel} (nonempty : level.orders ≠ [])
    (placed : ∀ order ∈ level.orders,
      (heap order).priceScaled = price ∧ (heap order).bookSide = side) :
    WellPlaced heap side (SortedMap.insert ladder price level) where
  nonempty other stored member := by
    rcases SortedMap.mem_insert_entries.mp member with ⟨rfl, rfl⟩ | ⟨-, member⟩
    · exact nonempty
    · exact wellPlaced.nonempty other stored member
  placed other stored member := by
    rcases SortedMap.mem_insert_entries.mp member with ⟨rfl, rfl⟩ | ⟨-, member⟩
    · exact placed
    · exact wellPlaced.placed other stored member

theorem erase (wellPlaced : WellPlaced heap side ladder) (price : Price) :
    WellPlaced heap side (SortedMap.erase ladder price) where
  nonempty other stored member :=
    wellPlaced.nonempty other stored (SortedMap.mem_erase_entries.mp member).2
  placed other stored member :=
    wellPlaced.placed other stored (SortedMap.mem_erase_entries.mp member).2

/-- The orders of the level found at a price, none when there is no level. -/
theorem placed_find? (wellPlaced : WellPlaced heap side ladder) {price : Price}
    {order : OrderPtr}
    (member : order ∈ ((ladder.find? price).getD PriceLevel.new).orders) :
    (heap order).priceScaled = price ∧ (heap order).bookSide = side := by
  cases found : ladder.find? price with
  | none => simp [found, PriceLevel.new] at member
  | some level =>
      refine wellPlaced.placed price level
        (SortedMap.mem_entries_iff_find?_eq_some.mpr found) order ?_
      simpa [found] using member

/-- Adding an order to its level keeps the placement. -/
theorem addOrder (wellPlaced : WellPlaced heap side ladder) {order : OrderPtr}
    (orderSide : (heap order).bookSide = side) :
    WellPlaced heap side
      (Ladder.addOrder heap ladder (heap order).priceScaled order) := by
  refine wellPlaced.insert (by simp [PriceLevel.addOrder]) ?_
  intro other member
  simp only [PriceLevel.addOrder, List.mem_append, List.mem_singleton] at member
  rcases member with present | rfl
  · exact wellPlaced.placed_find? present
  · exact ⟨rfl, orderSide⟩

/-- Adding an order to its level inserts it into the queue by priority. -/
theorem queue_addOrder (wellPlaced : WellPlaced heap side ladder)
    (order : OrderPtr) :
    (Ladder.addOrder heap ladder (heap order).priceScaled order).queue side =
      insertBehind side (fun other => (heap other).priceScaled) order
        (ladder.queue side) := by
  obtain ⟨ahead, behind, queueEq, insertEq, -, aheadBetter, behindWorse⟩ :=
    ladder.exists_queue_split side (heap order).priceScaled
  have aheadOk : ∀ other ∈ ahead ++
        ((ladder.find? (heap order).priceScaled).getD PriceLevel.new).orders,
      ¬ side.Better (heap order).priceScaled (heap other).priceScaled := by
    intro other member
    rcases List.mem_append.mp member with better | same
    · obtain ⟨price, level, inLadder, inLevel, keyBetter⟩ :=
        aheadBetter other better
      rw [(wellPlaced.placed price level inLadder other inLevel).1]
      exact keyBetter.asymm
    · rw [(wellPlaced.placed_find? same).1]
      cases side <;> exact lt_irrefl _
  have behindOk : ∀ other ∈ behind,
      side.Better (heap order).priceScaled (heap other).priceScaled := by
    intro other member
    obtain ⟨price, level, inLadder, inLevel, keyWorse⟩ :=
      behindWorse other member
    rw [(wellPlaced.placed price level inLadder other inLevel).1]
    exact keyWorse
  rw [Ladder.addOrder, insertEq, queueEq, PriceLevel.addOrder,
    ← List.append_assoc ahead _ behind, ← List.append_assoc ahead _ behind,
    insertBehind_append aheadOk behindOk]
  simp

/-- Removing an order by an identifier that only it has. -/
theorem removeOrder (wellPlaced : WellPlaced heap side ladder)
    {order : OrderPtr} (member : order ∈ ladder.queue side)
    (unique : ∀ other ∈ ladder.queue side,
      (heap other).id = (heap order).id → other = order) :
    ∃ remaining, Ladder.removeOrder heap ladder (heap order).priceScaled
        (heap order).id = some (true, remaining) ∧
      WellPlaced heap side remaining ∧
      remaining.queue side = (ladder.queue side).erase order := by
  obtain ⟨level, found, inLevel⟩ := wellPlaced.exists_level member
  have inLadder := SortedMap.mem_entries_iff_find?_eq_some.mpr found
  have uniqueInLevel : ∀ other ∈ level.orders,
      (heap other).id = (heap order).id → other = order := fun other present =>
    unique other (mem_queue_iff.mpr ⟨_, level, inLadder, present⟩)
  obtain ⟨ahead, behind, queueEq, insertEq, eraseEq, aheadBetter, -⟩ :=
    ladder.exists_queue_split side (heap order).priceScaled
  have notAhead : order ∉ ahead := by
    intro present
    obtain ⟨price, other, otherInLadder, inOther, better⟩ :=
      aheadBetter order present
    rw [(wellPlaced.placed price other otherInLadder order inOther).1] at better
    cases side <;> exact lt_irrefl _ better
  have foundFirst : level.orders.find?
      (fun other => (heap other).id = (heap order).id) = some order := by
    cases search : level.orders.find?
        (fun other => (heap other).id = (heap order).id) with
    | none => simpa using List.find?_eq_none.mp search order inLevel
    | some other =>
        have sameId := List.find?_some search
        rw [uniqueInLevel other (List.mem_of_find?_eq_some search)
          (by simpa using sameId)]
  have erased : level.orders.eraseP
      (fun other => (heap other).id = (heap order).id) =
        level.orders.erase order :=
    eraseP_eq_erase_of_unique (by simp) fun other present sameId =>
      uniqueInLevel other present (by simpa using sameId)
  have queueErase : (ladder.queue side).erase order =
      ahead ++ (level.orders.erase order ++ behind) := by
    rw [queueEq, found, List.erase_append_right _ notAhead,
      List.erase_append_left _ (by simpa using inLevel)]
    rfl
  rw [Ladder.removeOrder, found]
  simp only [Option.map_some, PriceLevel.removeOrder, foundFirst, erased,
    PriceLevel.isEmpty, List.isEmpty_iff]
  refine ⟨_, rfl, ?_, ?_⟩
  · split
    · exact wellPlaced.erase _
    next remains =>
      refine wellPlaced.insert remains fun other present => ?_
      exact wellPlaced.placed _ level inLadder other
        (List.mem_of_mem_erase present)
  · rw [queueErase]
    split
    next empties => rw [eraseEq, empties, List.nil_append]
    next => rw [insertEq]

end WellPlaced

end Ladder

end TradingMatcher
