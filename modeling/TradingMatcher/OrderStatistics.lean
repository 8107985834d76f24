import Mathlib.Data.List.Sort
import Mathlib.Order.Basic

/-!
# Order statistics

The entries of a sorted list and the numbers of entries below them.  Sorting
forgets the order in which a list was given.
-/

namespace TradingMatcher

namespace OrderStatistics

variable {Value : Type*} [LinearOrder Value] {values : List Value}
  {index : Nat} {value : Value}

theorem countP_lt_le (sorted : values.Pairwise (· ≤ ·))
    (entry : values[index]? = some value) :
    values.countP (· < value) ≤ index := by
  induction values generalizing index with
  | nil => cases entry
  | cons head tail ih =>
      obtain ⟨least, sortedTail⟩ := List.pairwise_cons.mp sorted
      cases index with
      | zero =>
          obtain rfl := Option.some.inj entry
          rw [Nat.le_zero, List.countP_eq_zero]
          intro other mem
          rcases List.mem_cons.mp mem with rfl | later
          · simp
          · simpa using least other later
      | succ index =>
          have rest := ih sortedTail entry
          rw [List.countP_cons]
          split <;> omega

theorem lt_countP_le (sorted : values.Pairwise (· ≤ ·))
    (entry : values[index]? = some value) :
    index < values.countP (· ≤ value) := by
  induction values generalizing index with
  | nil => cases entry
  | cons head tail ih =>
      obtain ⟨least, sortedTail⟩ := List.pairwise_cons.mp sorted
      cases index with
      | zero =>
          obtain rfl := Option.some.inj entry
          rw [List.countP_cons_of_pos (by simp)]
          exact Nat.succ_pos _
      | succ index =>
          have headLe := least value (List.mem_of_getElem? entry)
          have rest := ih sortedTail entry
          rw [List.countP_cons_of_pos (by simpa using headLe)]
          exact Nat.succ_lt_succ rest

theorem getElem?_mono (sorted : values.Pairwise (· ≤ ·)) {later : Nat}
    {other : Value} (le : index ≤ later) (entry : values[index]? = some value)
    (laterEntry : values[later]? = some other) : value ≤ other := by
  obtain ⟨inRange, rfl⟩ := List.getElem?_eq_some_iff.mp entry
  obtain ⟨laterInRange, rfl⟩ := List.getElem?_eq_some_iff.mp laterEntry
  rcases le.lt_or_eq with before | rfl
  · exact List.pairwise_iff_getElem.mp sorted _ _ inRange laterInRange before
  · exact le_refl _

theorem insertionSort_eq_of_perm {first second : List Value}
    (perm : first.Perm second) :
    first.insertionSort (· ≤ ·) = second.insertionSort (· ≤ ·) := by
  have sortedPerm : (first.insertionSort (· ≤ ·)).Perm
      (second.insertionSort (· ≤ ·)) :=
    ((List.perm_insertionSort _ first).trans perm).trans
      (List.perm_insertionSort _ second).symm
  apply sortedPerm.eq_of_pairwise _ (List.pairwise_insertionSort _ _)
    (List.pairwise_insertionSort _ _)
  intro one another _ _ le ge
  exact le_antisymm le ge

end OrderStatistics

end TradingMatcher
