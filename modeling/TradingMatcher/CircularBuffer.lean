import Mathlib.Tactic
import Mathlib.Logic.Function.Basic

/-!
# Circular buffers

Items are sent to ever growing positions, and a position lies in the slot that
is its remainder modulo the size.  Positions less than one revolution apart
have different slots, so a slot can be written for the next item while all
items that are still held stay where they are.
-/

namespace TradingMatcher.CircularBuffer

variable {Item : Type*} {size : Nat}

/-- Within one revolution a slot has one position. -/
theorem eq_of_slot_eq {start first second : Nat}
    (firstFrom : start ≤ first) (firstTo : first < start + size)
    (secondFrom : start ≤ second) (secondTo : second < start + size)
    (sameSlot : first % size = second % size) : first = second := by
  wlog ordered : first ≤ second generalizing first second
  · exact (this secondFrom secondTo firstFrom firstTo sameSlot.symm
      (by omega)).symm
  have multiple : size ∣ second - first :=
    (Nat.modEq_iff_dvd' ordered).mp sameSlot
  have small : second - first < size := by omega
  have none := Nat.eq_zero_of_dvd_of_lt multiple small
  omega

/-- The items released so far are followed by the item at their number. -/
theorem append_prefix_of_getElem? {sent released : List Item} {item : Item}
    (isPrefix : released <+: sent) (next : sent[released.length]? = some item) :
    released ++ [item] <+: sent := by
  obtain ⟨rest, rfl⟩ := isPrefix
  rw [List.getElem?_append_right (Nat.le_refl _), Nat.sub_self] at next
  cases rest with
  | nil => cases next
  | cons first rest =>
      obtain rfl := Option.some.inj next
      exact ⟨rest, by rw [List.append_assoc, List.singleton_append]⟩

/-- Every item sent to a position that is not yet released lies in the slot of
its position. -/
def Holds (size : Nat) (buffer : Nat → Item) (sent : List Item)
    (released : Nat) : Prop :=
  ∀ position item, released ≤ position → sent[position]? = some item →
    buffer (position % size) = item

namespace Holds

variable {buffer : Nat → Item} {sent : List Item} {released : Nat}

theorem empty (size : Nat) (buffer : Nat → Item) :
    Holds size buffer [] 0 := by
  intro position item _ atPosition
  cases atPosition

/-- The slot of the next position can be written without losing an item. -/
theorem write (holds : Holds size buffer sent released)
    (room : sent.length < released + size) (item : Item) :
    Holds size (Function.update buffer (sent.length % size) item) sent
      released := by
  intro position other unreleased atPosition
  have before := (List.getElem?_eq_some_iff.mp atPosition).1
  have otherSlot : position % size ≠ sent.length % size := by
    intro sameSlot
    have same := eq_of_slot_eq unreleased (by omega) (by omega) room sameSlot
    omega
  rw [Function.update_of_ne otherSlot]
  exact holds position other unreleased atPosition

/-- Sending an item that lies in the slot of the next position. -/
theorem send (holds : Holds size buffer sent released) {item : Item}
    (written : buffer (sent.length % size) = item) :
    Holds size buffer (sent ++ [item]) released := by
  intro position other unreleased atPosition
  by_cases old : position < sent.length
  · rw [List.getElem?_append_left old] at atPosition
    exact holds position other unreleased atPosition
  · have bound := (List.getElem?_eq_some_iff.mp atPosition).1
    rw [List.length_append, List.length_singleton] at bound
    obtain rfl : position = sent.length := by omega
    rw [List.getElem?_append_right (Nat.le_refl _), Nat.sub_self] at atPosition
    obtain rfl := Option.some.inj atPosition
    exact written

theorem release (holds : Holds size buffer sent released) {later : Nat}
    (grows : released ≤ later) : Holds size buffer sent later :=
  fun position item unreleased => holds position item (grows.trans unreleased)

end Holds

end TradingMatcher.CircularBuffer
