import TradingMatcher.PriceTime
import Mathlib.Order.Bounds.Basic

/-!
# The clearing volume

At a price, the buys that would pay it and the sells that would take it could
trade the smaller of their two totals.  A match of two queues in priority trades
exactly the largest of these volumes: as long as the heads cross, every price
between them loses the traded quantity on both sides, and every other price has
an empty side.
-/

namespace TradingMatcher

namespace PriceTime

section Depth

variable {Object Id Price : Type*} [LinearOrder Price]

/-- The total quantity of the entries that are at least as good as a limit. -/
def depth (side : Side) (limit : Price) (queue : List (Entry Object Id Price)) :
    Nat :=
  ((queue.filter fun entry => ¬ side.Better limit entry.price).map
    Entry.quantity).sum

variable {side : Side} {limit : Price} {head : Entry Object Id Price}
  {queue rest : List (Entry Object Id Price)}

@[simp]
theorem depth_nil : depth side limit ([] : List (Entry Object Id Price)) = 0 :=
  rfl

theorem depth_cons : depth side limit (head :: rest) =
    (if side.Better limit head.price then 0 else head.quantity) +
      depth side limit rest := by
  by_cases better : side.Better limit head.price <;> simp [depth, better]

/-- A limit better than the head is better than the whole queue. -/
theorem depth_eq_zero (inPriority : InPriority side Entry.price (head :: rest))
    (better : side.Better limit head.price) :
    depth side limit (head :: rest) = 0 := by
  have none : (head :: rest).filter
      (fun entry => ¬ side.Better limit entry.price) = [] := by
    apply List.filter_eq_nil_iff.mpr
    intro entry member
    have notBetter : ¬ side.Better entry.price head.price := by
      rcases List.mem_cons.mp member with rfl | behind
      · exact fun same => same.asymm same
      · exact (List.pairwise_cons.mp inPriority).1 entry behind
    have worse : side.Better limit entry.price := by
      by_contra atLeast
      exact Side.not_better_trans notBetter atLeast better
    simp [worse]
  rw [depth, none]
  rfl

/-- Filling the head takes the quantity from every limit up to its price. -/
theorem depth_fillHead {quantity : Nat} (enough : quantity ≤ head.quantity) :
    depth side limit (head :: rest) =
      depth side limit (Book.fillHead quantity (head :: rest)) +
        if side.Better limit head.price then 0 else quantity := by
  rw [Book.fillHead, depth_cons]
  by_cases better : side.Better limit head.price
  · by_cases usedUp : head.quantity - quantity = 0
    · simp [better, usedUp]
    · simp [better, usedUp, depth_cons]
  · by_cases usedUp : head.quantity - quantity = 0
    · simp only [better, usedUp, if_true, if_false]
      omega
    · simp only [better, usedUp, if_false, depth_cons]
      omega

end Depth

namespace Book

section Volume

variable {Object Id Price : Type*} [LinearOrder Price]

/-- The quantity that both sides have at a price. -/
def volumeAt (book : Book Object Id Price) (price : Price) : Nat :=
  min (depth .buy price book.buys) (depth .sell price book.sells)

/-- The total quantity of a sequence of trades. -/
def volume (fills : List (Fill Id)) : Nat :=
  (fills.map Fill.quantity).sum

variable {book after : Book Object Id Price} {fill : Fill Id}

/-- Without a trade there is no price at which both sides have quantity. -/
theorem Sorted.volumeAt_of_none (sorted : book.Sorted)
    (noTrade : book.trade? = none) (price : Price) :
    book.volumeAt price = 0 := by
  obtain ⟨buys, sells⟩ := book
  cases buys with
  | nil => simp [volumeAt]
  | cons buy buys =>
      cases sells with
      | nil => simp [volumeAt]
      | cons sell sells =>
          have apart : buy.price < sell.price := by
            by_contra crosses
            simp [Book.trade?, not_lt.mp crosses] at noTrade
          rw [volumeAt, Nat.min_eq_zero_iff]
          rcases lt_or_ge buy.price price with above | atMost
          · exact .inl (depth_eq_zero (sorted .buy) above)
          · exact .inr (depth_eq_zero (sorted .sell) (atMost.trans_lt apart))

/-- A trade takes its quantity from the volume at every price between the two
heads, and at other prices there was no volume. -/
theorem Sorted.volumeAt_of_some (sorted : book.Sorted)
    (trade : book.trade? = some (fill, after)) :
    ∃ low high : Price, low ≤ high ∧
      (∀ price, low ≤ price → price ≤ high →
        book.volumeAt price = after.volumeAt price + fill.quantity) ∧
      ∀ price, ¬(low ≤ price ∧ price ≤ high) →
        book.volumeAt price = 0 ∧ after.volumeAt price = 0 := by
  obtain ⟨buy, buys, sell, sells, rfl, crosses, filled, rfl⟩ :=
    trade?_cases trade
  have fromBuy : fill.quantity ≤ buy.quantity := by
    rw [filled]
    exact min_le_left _ _
  have fromSell : fill.quantity ≤ sell.quantity := by
    rw [filled]
    exact min_le_right _ _
  have demand (price : Price) : depth .buy price (buy :: buys) =
      depth .buy price (fillHead fill.quantity (buy :: buys)) +
        if buy.price < price then 0 else fill.quantity :=
    depth_fillHead fromBuy
  have supply (price : Price) : depth .sell price (sell :: sells) =
      depth .sell price (fillHead fill.quantity (sell :: sells)) +
        if price < sell.price then 0 else fill.quantity :=
    depth_fillHead fromSell
  refine ⟨sell.price, buy.price, crosses, ?_, ?_⟩
  · intro price atLeast atMost
    rw [volumeAt, volumeAt, demand, supply, if_neg atMost.not_gt,
      if_neg atLeast.not_gt, Nat.add_min_add_right]
  · intro price outside
    simp only [volumeAt, Nat.min_eq_zero_iff]
    rcases lt_or_ge buy.price price with above | atMost
    · have nobody := depth_eq_zero (sorted .buy) above
      have after := demand price
      rw [nobody, if_pos above, Nat.add_zero] at after
      exact ⟨.inl nobody, .inl after.symm⟩
    · have below : price < sell.price := by
        by_contra atLeast
        exact outside ⟨not_lt.mp atLeast, atMost⟩
      have nobody := depth_eq_zero (sorted .sell) below
      have after := supply price
      rw [nobody, if_pos below, Nat.add_zero] at after
      exact ⟨.inr nobody, .inr after.symm⟩

/-- Matching two queues in priority trades the largest volume that any price
admits. -/
theorem Sorted.matchAll_isGreatest [Nonempty Price] (sorted : book.Sorted) :
    IsGreatest (Set.range book.volumeAt) (volume book.matchAll.1) := by
  induction book using Book.matchAll.induct with
  | case1 book noTrade =>
      rw [matchAll_of_none noTrade]
      have nothing := sorted.volumeAt_of_none noTrade
      refine ⟨⟨Classical.arbitrary Price, nothing _⟩, ?_⟩
      rintro _ ⟨price, rfl⟩
      exact (nothing price).le
  | case2 book fill after trade ih =>
      rw [matchAll_of_some trade]
      obtain ⟨⟨best, attained⟩, bound⟩ := ih (sorted.trade? trade)
      obtain ⟨low, high, nonempty, inside, outside⟩ :=
        sorted.volumeAt_of_some trade
      have total : volume (fill :: after.matchAll.1) =
          volume after.matchAll.1 + fill.quantity := by
        simp [volume, Nat.add_comm]
      rw [total]
      constructor
      · by_cases between : low ≤ best ∧ best ≤ high
        · exact ⟨best, by rw [inside best between.1 between.2, attained]⟩
        · -- Nothing is left to trade, so any price between the heads will do.
          rw [(outside best between).2] at attained
          have atLow := bound ⟨low, rfl⟩
          refine ⟨low, ?_⟩
          rw [inside low (le_refl low) nonempty]
          omega
      · rintro _ ⟨price, rfl⟩
        by_cases between : low ≤ price ∧ price ≤ high
        · rw [inside price between.1 between.2]
          exact Nat.add_le_add_right (bound ⟨price, rfl⟩) _
        · rw [(outside price between).1]
          exact Nat.zero_le _

end Volume

end Book

end PriceTime

end TradingMatcher
