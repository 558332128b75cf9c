import Predix.Data.BinaryFormat
import Predix.Data.Word

namespace Predix.Data

open Word

/-! Numbers of 64 bits, and their conversion to machine integers. -/

def float64 : BinaryFormat := ⟨53, -1074⟩

namespace Float64

def Finite (value : ℚ) : Prop := |value| < 2 ^ 1024

instance (value : ℚ) : Decidable (Finite value) :=
  inferInstanceAs (Decidable (_ < _))

/-- What overflows a float64 is out of range here too, so that the infinities
need no values of their own. -/
def toInt64 (value : ℚ) : Int64 :=
  let whole := value.num.tdiv value.den
  if Fits whole then Int64.ofInt whole else Int64.minValue

theorem toInt64_of_between {whole : ℤ} {value : ℚ} (nonneg : 0 ≤ whole)
    (fits : Fits whole) (low : whole ≤ value) (high : value < whole + 1) :
    toInt64 value = Int64.ofInt whole := by
  have floor : value.floor = whole := Int.floor_eq_iff.mpr ⟨low, high⟩
  have numerator : 0 ≤ value.num := by
    rw [Rat.num_nonneg]
    exact le_trans (by exact_mod_cast nonneg) low
  unfold toInt64
  rw [Int.tdiv_eq_ediv_of_nonneg numerator, ← Rat.floor_def, floor]
  exact if_pos fits

theorem toInt64_intCast {whole : ℤ} (fits : Fits whole) :
    toInt64 whole = Int64.ofInt whole := by
  simp [toInt64, fits]

theorem toInt64_round_intCast {whole : ℤ} (small : |whole| < 2 ^ 53) :
    toInt64 (float64.round whole) = Int64.ofInt whole := by
  rw [float64.round_intCast small (by decide)]
  apply toInt64_intCast
  rw [abs_lt] at small
  unfold Fits
  omega

theorem round_error {value : ℚ} (normal : 1 / 100000 ≤ value) :
    |float64.round value - value| ≤ value / 9007199254740992 := by
  have positive : 0 < value := by linarith
  have smallest : (2 : ℚ) ^ (float64.least + float64.precision - 1) ≤
      |value| := by
    rw [abs_of_pos positive]
    refine le_trans ?_ normal
    calc (2 : ℚ) ^ (float64.least + float64.precision - 1)
        ≤ 2 ^ (-17 : ℤ) := zpow_le_zpow_right₀ (by norm_num) (by decide)
      _ ≤ 1 / 100000 := by norm_num
  have relative := float64.round_relative smallest
  have unit : (2 : ℚ) ^ (-(float64.precision : ℤ)) = 1 / 9007199254740992 := by
    norm_num [float64]
  rw [unit, abs_of_pos positive] at relative
  linarith

/-- The last sum and the truncation leave 5/16 of a unit to the errors before
them. -/
theorem toInt64_round_half {units : ℤ} {value : ℚ} (nonneg : 0 ≤ units)
    (bound : units ≤ 2 ^ 50) (near : |value - units| ≤ 5 / 16) :
    toInt64 (float64.round (value + 1 / 2)) = Int64.ofInt units := by
  have low : (0 : ℚ) ≤ units := by exact_mod_cast nonneg
  have high : (units : ℚ) ≤ 1125899906842624 := by exact_mod_cast bound
  obtain ⟨left, right⟩ := abs_le.mp near
  have error := @round_error (value + 1 / 2) (by linarith)
  obtain ⟨below, above⟩ := abs_le.mp error
  have fits : Fits units :=
    Fits.of_between (by decide : Fits 0) (by decide : Fits (2 ^ 50)) nonneg bound
  apply toInt64_of_between nonneg fits
  · linarith
  · linarith

end Float64

end Predix.Data
