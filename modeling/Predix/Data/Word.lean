import Mathlib.Algebra.Ring.Int.Defs
import Mathlib.Algebra.Ring.Nat
import Mathlib.Data.Int.Basic
import Mathlib.Order.Lattice
import Mathlib.Tactic.Common

namespace Predix.Data.Word

/-! Exactness of 64-bit signed arithmetic. A machine operation is exact when
the integer it stands for fits the word. -/

def Fits (value : Int) : Prop :=
  -2 ^ 63 ≤ value ∧ value < 2 ^ 63

instance (value : Int) : Decidable (Fits value) :=
  inferInstanceAs (Decidable (_ ∧ _))

theorem fits_toInt (word : Int64) : Fits word.toInt :=
  ⟨word.le_toInt, word.toInt_lt⟩

theorem Fits.of_between {low value high : Int}
    (lowFits : Fits low) (highFits : Fits high)
    (above : low ≤ value) (below : value ≤ high) : Fits value := by
  unfold Fits at *
  omega

theorem fits_of_nonneg_le {value : Int} {word : Int64}
    (nonneg : 0 ≤ value) (bounded : value ≤ word.toInt) : Fits value :=
  Fits.of_between (by decide : Fits 0) (fits_toInt word) nonneg bounded

theorem bmod_of_fits {value : Int} (fits : Fits value) :
    value.bmod (2 ^ 64) = value := by
  unfold Fits at fits
  apply Int.bmod_eq_of_le
  · omega
  · omega

theorem toInt_add {left right : Int64}
    (fits : Fits (left.toInt + right.toInt)) :
    (left + right).toInt = left.toInt + right.toInt := by
  rw [Int64.toInt_add, bmod_of_fits fits]

theorem toInt_sub {left right : Int64}
    (fits : Fits (left.toInt - right.toInt)) :
    (left - right).toInt = left.toInt - right.toInt := by
  rw [Int64.toInt_sub, bmod_of_fits fits]

theorem toInt_mul {left right : Int64}
    (fits : Fits (left.toInt * right.toInt)) :
    (left * right).toInt = left.toInt * right.toInt := by
  rw [Int64.toInt_mul, bmod_of_fits fits]

theorem toInt_neg {word : Int64} (positive : 0 < word.toInt) :
    (-word).toInt = -word.toInt := by
  have fits := fits_toInt word
  rw [Int64.toInt_neg]
  apply bmod_of_fits
  unfold Fits at fits ⊢
  omega

theorem toInt_sub_of_le {left right : Int64}
    (nonneg : 0 ≤ right.toInt) (le : right.toInt ≤ left.toInt) :
    (left - right).toInt = left.toInt - right.toInt :=
  toInt_sub (fits_of_nonneg_le (by omega)
    (by omega : left.toInt - right.toInt ≤ left.toInt))

theorem toInt_sub_of_nonneg {left right : Int64}
    (leftNonneg : 0 ≤ left.toInt) (rightNonneg : 0 ≤ right.toInt) :
    (left - right).toInt = left.toInt - right.toInt := by
  apply toInt_sub
  have leftFits := fits_toInt left
  have rightFits := fits_toInt right
  unfold Fits at *
  omega

/-- A sum that wraps is exact again once enough has been taken off. -/
theorem toInt_add_sub (left right amount : Int64) :
    (left + right - amount).toInt =
      (left.toInt + right.toInt - amount.toInt).bmod (2 ^ 64) := by
  rw [Int64.toInt_sub, Int64.toInt_add, Int.bmod_sub_bmod]

theorem zero_lt_iff {word : Int64} : 0 < word ↔ 0 < word.toInt := by
  rw [Int64.lt_iff_toInt_lt, Int64.toInt_zero]

theorem le_zero_iff {word : Int64} : word ≤ 0 ↔ word.toInt ≤ 0 := by
  rw [Int64.le_iff_toInt_le, Int64.toInt_zero]

theorem lt_zero_iff {word : Int64} : word < 0 ↔ word.toInt < 0 := by
  rw [Int64.lt_iff_toInt_lt, Int64.toInt_zero]

theorem eq_zero_iff {word : Int64} : word = 0 ↔ word.toInt = 0 := by
  rw [← Int64.toInt_inj, Int64.toInt_zero]

def clampZero (word : Int64) : Int64 :=
  if word < 0 then 0 else word

@[simp] theorem toInt_clampZero (word : Int64) :
    (clampZero word).toInt = max 0 word.toInt := by
  unfold clampZero
  split
  · rename_i negative
    rw [lt_zero_iff] at negative
    rw [Int64.toInt_zero]
    omega
  · rename_i nonneg
    rw [lt_zero_iff] at nonneg
    omega

def minWord (left right : Int64) : Int64 :=
  if left < right then left else right

@[simp] theorem toInt_minWord (left right : Int64) :
    (minWord left right).toInt = min left.toInt right.toInt := by
  unfold minWord
  split
  · rename_i less
    rw [Int64.lt_iff_toInt_lt] at less
    omega
  · rename_i notLess
    rw [Int64.lt_iff_toInt_lt] at notLess
    omega

end Predix.Data.Word
