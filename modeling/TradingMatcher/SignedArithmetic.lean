import Mathlib.Tactic

/-!
# Signed arithmetic

Addition and subtraction of signed 64-bit integers, without a result where they
overflow, which is undefined.
-/

namespace TradingMatcher

namespace SignedArithmetic

/-- The integers that 64 bits hold. -/
def Fits (x : Int) : Prop := -2 ^ 63 ≤ x ∧ x < 2 ^ 63

instance fitsDecidable (x : Int) : Decidable (Fits x) :=
  inferInstanceAs (Decidable (_ ∧ _))

theorem fits_toInt (x : Int64) : Fits x.toInt := ⟨x.le_toInt, x.toInt_lt⟩

/-- Within the range, a result that is right modulo the word size is right. -/
theorem bmod_eq_of_fits {x : Int} (fits : Fits x) : x.bmod (2 ^ 64) = x := by
  obtain ⟨least, greatest⟩ := fits
  exact Int.bmod_eq_of_le (by omega) (by omega)

def add? (first second : Int64) : Option Int64 :=
  if Fits (first.toInt + second.toInt) then some (first + second) else none

def sub? (first second : Int64) : Option Int64 :=
  if Fits (first.toInt - second.toInt) then some (first - second) else none

variable {first second result : Int64}

theorem add?_eq_some_iff :
    add? first second = some result ↔
      result.toInt = first.toInt + second.toInt := by
  rw [add?, Option.ite_none_right_eq_some, Option.some_inj]
  constructor
  · rintro ⟨fits, rfl⟩
    rw [Int64.toInt_add, bmod_eq_of_fits fits]
  · intro isExact
    have fits := isExact ▸ fits_toInt result
    refine ⟨fits, ?_⟩
    rw [← Int64.toInt_inj, Int64.toInt_add, bmod_eq_of_fits fits, isExact]

theorem sub?_eq_some_iff :
    sub? first second = some result ↔
      result.toInt = first.toInt - second.toInt := by
  rw [sub?, Option.ite_none_right_eq_some, Option.some_inj]
  constructor
  · rintro ⟨fits, rfl⟩
    rw [Int64.toInt_sub, bmod_eq_of_fits fits]
  · intro isExact
    have fits := isExact ▸ fits_toInt result
    refine ⟨fits, ?_⟩
    rw [← Int64.toInt_inj, Int64.toInt_sub, bmod_eq_of_fits fits, isExact]

theorem ofInt_eq_some_iff {x : Int} :
    (if Fits x then some (Int64.ofInt x) else none) = some result ↔
      result.toInt = x := by
  rw [Option.ite_none_right_eq_some, Option.some_inj]
  constructor
  · rintro ⟨fits, rfl⟩
    exact Int64.toInt_ofInt.trans (bmod_eq_of_fits fits)
  · intro isExact
    have fits := isExact ▸ fits_toInt result
    refine ⟨fits, ?_⟩
    rw [← Int64.toInt_inj, isExact]
    exact Int64.toInt_ofInt.trans (bmod_eq_of_fits fits)

theorem exists_add?_iff :
    (∃ result, add? first second = some result) ↔
      Fits (first.toInt + second.toInt) := by
  simp [add?]

theorem exists_sub?_iff :
    (∃ result, sub? first second = some result) ↔
      Fits (first.toInt - second.toInt) := by
  simp [sub?]

end SignedArithmetic

end TradingMatcher
