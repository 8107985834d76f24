import TradingMatcher.ClearingVolume

/-!
# Sweeping the other side

An order that enters an uncrossed book trades, as the only order of its side,
with the orders of the other side that it crosses, best first, until it is used
up or no more of them are left.
-/

namespace TradingMatcher.PriceTime

def Side.opposite : Side → Side
  | .buy => .sell
  | .sell => .buy

@[simp]
theorem Side.opposite_ne (side : Side) : side.opposite ≠ side := by
  cases side <;> decide

section Totals

variable {Object Id Price : Type*}

/-- The quantity of all entries together. -/
def total (entries : List (Entry Object Id Price)) : Nat :=
  (entries.map Entry.quantity).sum

@[simp]
theorem total_nil : total ([] : List (Entry Object Id Price)) = 0 := rfl

@[simp]
theorem total_cons (head : Entry Object Id Price)
    (rest : List (Entry Object Id Price)) :
    total (head :: rest) = head.quantity + total rest := by
  simp [total]

/-- What is left of the last of some orders when a quantity was taken from them
in turn. -/
def leftOver (taken : List (Entry Object Id Price)) (quantity : Nat) :
    List (Entry Object Id Price) :=
  match taken.getLast? with
  | none => []
  | some last =>
      if total taken - quantity = 0 then []
      else [{ last with quantity := total taken - quantity }]

/-- An order that is used up is not the one that anything is left of. -/
theorem leftOver_cons {head : Entry Object Id Price}
    {taken : List (Entry Object Id Price)} {quantity : Nat}
    (usedUp : head.quantity ≤ quantity) :
    leftOver (head :: taken) quantity =
      leftOver taken (quantity - head.quantity) := by
  have same : total (head :: taken) - quantity =
      total taken - (quantity - head.quantity) := by
    rw [total_cons]
    omega
  cases taken with
  | nil =>
      have none : total [head] - quantity = 0 := same.trans (Nat.zero_sub _)
      simp only [leftOver, List.getLast?_singleton, none, if_true]
      rfl
  | cons next taken =>
      rw [leftOver, leftOver, same, List.getLast?_cons_cons]

/-- The identifier that a trade gives for a side. -/
def Fill.id (fill : Fill Id) : Side → Id
  | .buy => fill.buyId
  | .sell => fill.sellId

/-- The trade of an order of a side with one of the other side. -/
def Fill.of (side : Side) (own other : Id) (quantity : Nat) : Fill Id :=
  match side with
  | .buy => ⟨own, other, quantity⟩
  | .sell => ⟨other, own, quantity⟩

/-- The trades of an order with the other side: with a prefix `taken` of what it
crosses, in turn, all but the last filled completely and removed, and the rest
of the queue as it was. -/
structure Takes (side : Side) (entry : Entry Object Id Price)
    (crossing queue : List (Entry Object Id Price)) (fills : List (Fill Id))
    (queueAfter taken : List (Entry Object Id Price)) : Prop where
  isPrefix : taken <+: crossing
  trades : (fills.map fun fill => (fill.id side, fill.id side.opposite)) =
    taken.map fun other => (entry.id, other.id)
  filled : (fills.map Fill.quantity).dropLast =
    (taken.map Entry.quantity).dropLast
  volume : Book.volume fills = min entry.quantity (total crossing)
  queueAfter : queueAfter =
    leftOver taken entry.quantity ++ queue.drop taken.length

end Totals

section Definitions

variable {Object Id Price : Type*} [LinearOrder Price]

/-- An order of this side at `price` can trade with one of the other side at
`other`. -/
def Side.Crosses : Side → Price → Price → Prop
  | .buy, price, other => other ≤ price
  | .sell, price, other => price ≤ other

instance (side : Side) : DecidableRel (@Side.Crosses Price _ side) :=
  match side with
  | .buy => fun price other => inferInstanceAs (Decidable (other ≤ price))
  | .sell => fun price other => inferInstanceAs (Decidable (price ≤ other))

/-- The orders of the other side that an order of this side crosses, best
first. -/
def Book.crossing (book : Book Object Id Price) (side : Side) (price : Price) :
    List (Entry Object Id Price) :=
  (book.queue side.opposite).filter fun other => side.Crosses price other.price

/-- Every buy price is below every sell price. -/
def Book.Uncrossed (book : Book Object Id Price) : Prop :=
  ∀ buy ∈ book.buys, ∀ sell ∈ book.sells, buy.price < sell.price

/-- What an order does that enters a book: it takes what it crosses, rests with
what that leaves of it, and changes nothing else on its own side. -/
structure Sweeps (side : Side) (entry : Entry Object Id Price)
    (before after : Book Object Id Price) (fills : List (Fill Id))
    (taken : List (Entry Object Id Price)) : Prop where
  takes : Takes side entry (before.crossing side entry.price)
    (before.queue side.opposite) fills (after.queue side.opposite) taken
  own : after.queue side =
    if total (before.crossing side entry.price) < entry.quantity then
      insertBehind side Entry.price { entry with
        quantity := entry.quantity -
          total (before.crossing side entry.price) } (before.queue side)
    else before.queue side

end Definitions

section Takes

variable {Object Id Price : Type*} {side : Side}
  {crossing rest : List (Entry Object Id Price)}

/-- The first of the orders that are crossed uses the entering order up. -/
theorem Takes.of_usedUp {entry head : Entry Object Id Price}
    {fill : Fill Id} (usedUp : entry.quantity ≤ head.quantity)
    (ids : (fill.id side, fill.id side.opposite) = (entry.id, head.id))
    (quantity : fill.quantity = entry.quantity) :
    Takes side entry (head :: crossing) (head :: rest) [fill]
      (Book.fillHead entry.quantity (head :: rest)) [head] where
  isPrefix := List.prefix_append [head] crossing
  trades := by simp [ids]
  filled := rfl
  volume := by
    simp only [Book.volume, List.map_singleton, List.sum_singleton, quantity,
      total_cons]
    omega
  queueAfter := by
    simp only [Book.fillHead, leftOver, List.getLast?_singleton, total_cons,
      total_nil, Nat.add_zero, List.length_singleton, List.drop_succ_cons,
      List.drop_zero]
    split <;> rfl

/-- The first of the orders that are crossed is used up, and the rest of the
entering order goes on. -/
theorem Takes.cons {entry head : Entry Object Id Price} {fill : Fill Id}
    {fills : List (Fill Id)} {queueAfter taken : List (Entry Object Id Price)}
    (usedUp : head.quantity ≤ entry.quantity)
    (ids : (fill.id side, fill.id side.opposite) = (entry.id, head.id))
    (quantity : fill.quantity = head.quantity)
    (takes : Takes side { entry with
      quantity := entry.quantity - head.quantity } crossing rest fills
      queueAfter taken) :
    Takes side entry (head :: crossing) (head :: rest) (fill :: fills)
      queueAfter (head :: taken) where
  isPrefix := List.prefix_cons_inj head |>.mpr takes.isPrefix
  trades := by
    rw [List.map_cons, List.map_cons, ids, takes.trades]
  filled := by
    have sameLength : fills.length = taken.length := by
      simpa using congrArg List.length takes.trades
    have filled := takes.filled
    cases fills with
    | nil =>
        obtain rfl := List.eq_nil_of_length_eq_zero sameLength.symm
        rfl
    | cons next fills =>
        cases taken with
        | nil => cases sameLength
        | cons other taken =>
            simp only [List.map_cons, List.dropLast_cons_cons] at filled ⊢
            rw [quantity, filled]
  volume := by
    have volume := takes.volume
    simp only [Book.volume, List.map_cons, List.sum_cons, quantity,
      total_cons] at volume ⊢
    omega
  queueAfter := by
    rw [leftOver_cons usedUp, takes.queueAfter]
    rfl

/-- Filling the head changes no price. -/
theorem Book.exists_price_of_mem_fillHead {quantity : Nat}
    {queue : List (Entry Object Id Price)} {entry : Entry Object Id Price}
    (member : entry ∈ fillHead quantity queue) :
    ∃ before ∈ queue, before.price = entry.price := by
  cases queue with
  | nil => cases member
  | cons head rest =>
      rw [fillHead] at member
      split at member
      · exact ⟨entry, List.mem_cons_of_mem _ member, rfl⟩
      · rcases List.mem_cons.mp member with rfl | behind
        · exact ⟨head, List.mem_cons_self, rfl⟩
        · exact ⟨entry, List.mem_cons_of_mem _ behind, rfl⟩

end Takes

section Heads

variable {Object Id Price : Type*} [LinearOrder Price]
  {book : Book Object Id Price} {side : Side}

/-- A trade seen from one side. -/
theorem Book.trade?_heads {own other : Entry Object Id Price}
    {owns others : List (Entry Object Id Price)}
    (ownQueue : book.queue side = own :: owns)
    (otherQueue : book.queue side.opposite = other :: others)
    (crosses : side.Crosses own.price other.price) :
    ∃ after, book.trade? = some (Fill.of side own.id other.id
        (min own.quantity other.quantity), after) ∧
      after.queue side =
        Book.fillHead (min own.quantity other.quantity) (own :: owns) ∧
      after.queue side.opposite =
        Book.fillHead (min own.quantity other.quantity) (other :: others) := by
  obtain ⟨buys, sells⟩ := book
  cases side with
  | buy =>
      obtain rfl : buys = own :: owns := ownQueue
      obtain rfl : sells = other :: others := otherQueue
      exact ⟨_, if_pos crosses, rfl, rfl⟩
  | sell =>
      obtain rfl : sells = own :: owns := ownQueue
      obtain rfl : buys = other :: others := otherQueue
      refine ⟨⟨fillHead (min own.quantity other.quantity) (other :: others),
        fillHead (min own.quantity other.quantity) (own :: owns)⟩, ?_, rfl, rfl⟩
      rw [min_comm]
      exact if_pos crosses

/-- Two queues of which no pair crosses do not trade. -/
theorem Book.trade?_eq_none
    (apart : ∀ own ∈ book.queue side, ∀ other ∈ book.queue side.opposite,
      ¬ side.Crosses own.price other.price) : book.trade? = none := by
  obtain ⟨buys, sells⟩ := book
  cases buys with
  | nil => rfl
  | cons buy buys =>
      cases sells with
      | nil => rfl
      | cons sell sells =>
          refine if_neg ?_
          cases side with
          | buy => exact apart buy List.mem_cons_self sell List.mem_cons_self
          | sell => exact apart sell List.mem_cons_self buy List.mem_cons_self

@[simp]
theorem Fill.id_of (side : Side) (own other : Id) (quantity : Nat) :
    ((Fill.of side own other quantity).id side,
      (Fill.of side own other quantity).id side.opposite) = (own, other) := by
  cases side <;> rfl

@[simp]
theorem Fill.quantity_of (side : Side) (own other : Id) (quantity : Nat) :
    (Fill.of side own other quantity).quantity = quantity := by
  cases side <;> rfl

end Heads

section Sweep

variable {Object Id Price : Type*} [LinearOrder Price] {side : Side}
  {crossing rest owns : List (Entry Object Id Price)}

/-- The order at the head of its side takes what it crosses. -/
theorem Book.matchAll_takes {book : Book Object Id Price}
    {entry : Entry Object Id Price} (quantity : entry.quantity ≠ 0)
    (ownQueue : book.queue side = entry :: owns)
    (otherQueue : book.queue side.opposite = crossing ++ rest)
    (crosses : ∀ other ∈ crossing, side.Crosses entry.price other.price)
    (stops : ∀ other ∈ rest, ¬ side.Crosses entry.price other.price)
    (behind : ∀ own ∈ owns, ∀ other ∈ crossing ++ rest,
      ¬ side.Crosses own.price other.price) :
    ∃ taken, Takes side entry crossing (crossing ++ rest) book.matchAll.1
        (book.matchAll.2.queue side.opposite) taken ∧
      book.matchAll.2.queue side = if total crossing < entry.quantity then
        { entry with quantity := entry.quantity - total crossing } :: owns
        else owns := by
  induction crossing generalizing book entry with
  | nil =>
      have noTrade : book.trade? = none := by
        have apart : ∀ own ∈ book.queue side,
            ∀ other ∈ book.queue side.opposite,
              ¬ side.Crosses own.price other.price := by
          rw [ownQueue, otherQueue]
          intro own member other otherMember
          rcases List.mem_cons.mp member with rfl | ownBehind
          · exact stops other otherMember
          · exact behind own ownBehind other otherMember
        exact trade?_eq_none apart
      rw [matchAll_of_none noTrade]
      refine ⟨[], ⟨List.prefix_refl _, rfl, rfl, ?_, otherQueue⟩, ?_⟩
      · simp [volume]
      · simp [ownQueue, Nat.pos_of_ne_zero quantity]
  | cons head crossing ih =>
      rw [List.cons_append] at otherQueue behind ⊢
      obtain ⟨after, trade, ownAfter, otherAfter⟩ := trade?_heads ownQueue
        otherQueue (crosses head List.mem_cons_self)
      rw [matchAll_of_some trade, total_cons]
      rcases Nat.lt_or_ge head.quantity entry.quantity with more | usedUp
      · have left : entry.quantity - head.quantity ≠ 0 := by omega
        rw [Nat.min_eq_right more.le] at ownAfter otherAfter ⊢
        rw [fillHead, if_pos (Nat.sub_self _)] at otherAfter
        rw [fillHead, if_neg left] at ownAfter
        obtain ⟨taken, takes, own⟩ := ih left ownAfter otherAfter
          (fun other member => crosses other (List.mem_cons_of_mem _ member))
          stops fun own member other otherMember =>
            behind own member other (List.mem_cons_of_mem _ otherMember)
        refine ⟨head :: taken, takes.cons more.le (Fill.id_of ..)
          (Fill.quantity_of ..), ?_⟩
        have more_iff : total crossing < entry.quantity - head.quantity ↔
            head.quantity + total crossing < entry.quantity := by omega
        rw [own, Nat.sub_sub]
        simp only [more_iff]
      · rw [Nat.min_eq_left usedUp] at ownAfter otherAfter ⊢
        rw [fillHead, if_pos (Nat.sub_self _)] at ownAfter
        have apart : ∀ own ∈ after.queue side,
            ∀ other ∈ after.queue side.opposite,
              ¬ side.Crosses own.price other.price := by
          rw [ownAfter, otherAfter]
          intro own member other otherMember
          obtain ⟨before, inQueue, samePrice⟩ :=
            exists_price_of_mem_fillHead otherMember
          rw [← samePrice]
          exact behind own member before inQueue
        rw [matchAll_of_none (trade?_eq_none apart)]
        refine ⟨[head], ?_, ?_⟩
        · rw [otherAfter]
          exact .of_usedUp usedUp (Fill.id_of ..) (Fill.quantity_of ..)
        · rw [ownAfter, if_neg (by omega)]

/-- In a queue in priority the orders that are crossed come first. -/
theorem InPriority.crossing_append {price : Price}
    {queue : List (Entry Object Id Price)}
    (inPriority : InPriority side.opposite Entry.price queue) :
    queue = (queue.filter fun other => side.Crosses price other.price) ++
      queue.filter fun other => ¬ side.Crosses price other.price := by
  induction queue with
  | nil => rfl
  | cons head rest ih =>
      obtain ⟨headFirst, restOk⟩ := List.pairwise_cons.mp inPriority
      by_cases crosses : side.Crosses price head.price
      · simpa [crosses] using ih restOk
      · have stops : ∀ other ∈ rest, ¬ side.Crosses price other.price := by
          intro other member
          have notBetter := headFirst other member
          cases side <;> simp only [Side.Crosses, Side.opposite, Side.Better,
            not_le, not_lt] at * <;> order
        have none : rest.filter (fun other =>
            side.Crosses price other.price) = [] :=
          List.filter_eq_nil_iff.mpr (by simpa using stops)
        have all : rest.filter (fun other =>
            ¬ side.Crosses price other.price) = rest :=
          List.filter_eq_self.mpr (by simpa using stops)
        rw [List.filter_cons_of_neg (by simpa using crosses),
          List.filter_cons_of_pos (by simpa using crosses), none, all]
        rfl

/-- No order of an uncrossed book crosses one of the other side. -/
theorem Book.Uncrossed.not_crosses {book : Book Object Id Price}
    (uncrossed : book.Uncrossed) {own other : Entry Object Id Price}
    (ownMember : own ∈ book.queue side)
    (otherMember : other ∈ book.queue side.opposite) :
    ¬ side.Crosses own.price other.price := by
  cases side with
  | buy => exact not_le.mpr (uncrossed own ownMember other otherMember)
  | sell => exact not_le.mpr (uncrossed other otherMember own ownMember)

/-- An order that crosses the other side goes before all of its own. -/
theorem Book.Uncrossed.insertBehind_eq_cons {book : Book Object Id Price}
    (uncrossed : book.Uncrossed) {entry other : Entry Object Id Price}
    (otherMember : other ∈ book.queue side.opposite)
    (crosses : side.Crosses entry.price other.price) :
    insertBehind side Entry.price entry (book.queue side) =
      entry :: book.queue side := by
  have better : ∀ own ∈ book.queue side,
      side.Better entry.price own.price := by
    intro own member
    have apart := uncrossed.not_crosses member otherMember
    cases side with
    | buy => exact (not_le.mp apart).trans_le crosses
    | sell => exact lt_of_le_of_lt crosses (not_le.mp apart)
  have placed : insertBehind side Entry.price entry ([] ++ book.queue side) =
      [] ++ entry :: book.queue side := insertBehind_append nofun better
  exact placed

/-- An order that enters an uncrossed book in priority sweeps what it
crosses. -/
theorem Book.add_matchAll_sweeps {before added : Book Object Id Price}
    {entry : Entry Object Id Price} (sorted : before.Sorted)
    (uncrossed : before.Uncrossed) (quantity : entry.quantity ≠ 0)
    (adds : before.add side entry = (true, added)) :
    ∃ taken, Sweeps side entry before added.matchAll.2 added.matchAll.1
      taken := by
  rw [add_of_quantity quantity] at adds
  obtain ⟨-, rfl⟩ := Prod.mk.inj adds
  generalize addedEq : before.withQueue side _ = added
  have ownQueue : added.queue side =
      insertBehind side Entry.price entry (before.queue side) := by
    simp [← addedEq]
  have otherQueue : added.queue side.opposite =
      before.crossing side entry.price ++
        (before.queue side.opposite).filter fun other =>
          ¬ side.Crosses entry.price other.price := by
    rw [← addedEq, queue_withQueue, if_neg side.opposite_ne]
    exact (sorted side.opposite).crossing_append
  have otherSame : added.queue side.opposite = before.queue side.opposite := by
    simp [← addedEq]
  have crosses : ∀ other ∈ before.crossing side entry.price,
      side.Crosses entry.price other.price := by
    intro other member
    simpa using (List.mem_filter.mp member).2
  by_cases none : before.crossing side entry.price = []
  · have apart : ∀ own ∈ added.queue side,
        ∀ other ∈ added.queue side.opposite,
          ¬ side.Crosses own.price other.price := by
      rw [ownQueue, otherSame]
      intro own member other otherMember
      rw [(insertBehind_perm side Entry.price entry _).mem_iff,
        List.mem_cons] at member
      rcases member with rfl | stood
      · simpa using List.filter_eq_nil_iff.mp none other otherMember
      · exact uncrossed.not_crosses stood otherMember
    rw [matchAll_of_none (trade?_eq_none apart)]
    refine ⟨[], ⟨List.nil_prefix, rfl, rfl, ?_, otherSame⟩, ?_⟩
    · simp [none, volume]
    · simp [none, ownQueue, Nat.pos_of_ne_zero quantity]
  · obtain ⟨other, member⟩ := List.exists_mem_of_ne_nil _ none
    have inQueue : other ∈ before.queue side.opposite :=
      List.mem_of_mem_filter member
    have first (resting : Entry Object Id Price)
        (samePrice : resting.price = entry.price) :
        insertBehind side Entry.price resting (before.queue side) =
          resting :: before.queue side :=
      uncrossed.insertBehind_eq_cons inQueue
        (samePrice ▸ crosses other member)
    rw [first entry rfl] at ownQueue
    obtain ⟨taken, takes, own⟩ := matchAll_takes quantity ownQueue otherQueue
      crosses (fun other member => by simpa using (List.mem_filter.mp member).2)
      (by
        rw [← otherQueue, otherSame]
        exact fun own ownMember other otherMember =>
          uncrossed.not_crosses ownMember otherMember)
    rw [← otherQueue, otherSame] at takes
    refine ⟨taken, takes, ?_⟩
    rw [own]
    split
    · symm
      apply first
      rfl
    · rfl

end Sweep

end TradingMatcher.PriceTime
