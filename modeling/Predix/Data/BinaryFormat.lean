import Mathlib.Data.Int.Log
import Mathlib.Data.Rat.Floor
import Mathlib.Tactic.Linarith
import Mathlib.Tactic.FieldSimp

namespace Predix.Data

/-! Binary floating-point formats. Values are rationals; the rounding of an
exact result is to nearest, and to even from the middle. -/

/-- The integer next to a rational, the even one of two. -/
def nearestEven (value : ℚ) : ℤ :=
  let fraction := value - ⌊value⌋
  if fraction < 1 / 2 then ⌊value⌋
  else if 1 / 2 < fraction then ⌊value⌋ + 1
  else if ⌊value⌋ % 2 = 0 then ⌊value⌋
  else ⌊value⌋ + 1

private theorem nearestEven_error (value : ℚ) :
    |(nearestEven value : ℚ) - value| ≤ 1 / 2 := by
  have below := Int.floor_le value
  have above := Int.lt_floor_add_one value
  unfold nearestEven
  rw [abs_le]
  simp only
  split
  · constructor <;> linarith
  split
  · push_cast
    constructor <;> linarith
  split
  · constructor <;> linarith
  · push_cast
    constructor <;> linarith

theorem nearestEven_intCast (whole : ℤ) :
    nearestEven (whole : ℚ) = whole := by
  simp [nearestEven]

/-- The bits of a significand, and the exponent of the smallest number. There is
no largest one. -/
structure BinaryFormat where
  precision : ℕ
  least : ℤ

namespace BinaryFormat

variable (format : BinaryFormat)

def exponent (value : ℚ) : ℤ :=
  max (Int.log 2 |value| + 1 - format.precision) format.least

def lastBit (value : ℚ) : ℚ := 2 ^ format.exponent value

def round (value : ℚ) : ℚ :=
  nearestEven (value / format.lastBit value) * format.lastBit value

theorem lastBit_pos (value : ℚ) : 0 < format.lastBit value := by
  exact zpow_pos (by norm_num) _

theorem round_error (value : ℚ) :
    |format.round value - value| ≤ format.lastBit value / 2 := by
  have positive := format.lastBit_pos value
  have error := nearestEven_error (value / format.lastBit value)
  have scaled : format.round value - value =
      (nearestEven (value / format.lastBit value) -
        value / format.lastBit value) * format.lastBit value := by
    unfold round
    field_simp
  rw [scaled, abs_mul, abs_of_pos positive]
  calc _ ≤ 1 / 2 * format.lastBit value := by gcongr
    _ = format.lastBit value / 2 := by ring

private theorem lastBit_le {value : ℚ}
    (normal : 2 ^ (format.least + format.precision - 1) ≤ |value|) :
    format.lastBit value ≤ |value| * 2 ^ (1 - (format.precision : ℤ)) := by
  have positive : 0 < |value| := lt_of_lt_of_le (zpow_pos (by norm_num) _) normal
  have log : format.least + format.precision - 1 ≤ Int.log 2 |value| :=
    (Int.zpow_le_iff_le_log (by norm_num) positive).mp (by exact_mod_cast normal)
  have exponent : format.exponent value =
      Int.log 2 |value| + (1 - (format.precision : ℤ)) := by
    unfold BinaryFormat.exponent
    rw [max_eq_left (by omega)]
    omega
  unfold lastBit
  rw [exponent, zpow_add₀ (by norm_num)]
  have below := Int.zpow_log_le_self (b := 2) (by norm_num) positive
  exact mul_le_mul_of_nonneg_right (by exact_mod_cast below)
    (zpow_pos (by norm_num) _).le

/-- The rounding error of a number that is not among the smallest. -/
theorem round_relative {value : ℚ}
    (normal : 2 ^ (format.least + format.precision - 1) ≤ |value|) :
    |format.round value - value| ≤
      |value| * 2 ^ (-(format.precision : ℤ)) := by
  have error := format.round_error value
  have small := format.lastBit_le normal
  have half : (2 : ℚ) ^ (1 - (format.precision : ℤ)) =
      2 * 2 ^ (-(format.precision : ℤ)) := by
    rw [sub_eq_add_neg, zpow_add₀ (by norm_num), zpow_one]
  rw [half] at small
  linarith

theorem round_zero : format.round 0 = 0 := by
  have zero := nearestEven_intCast 0
  rw [Int.cast_zero] at zero
  rw [round, zero_div, zero, Int.cast_zero, zero_mul]

theorem round_intCast {whole : ℤ} (small : |whole| < 2 ^ format.precision)
    (least : format.least ≤ 0) :
    format.round whole = whole := by
  obtain rfl | nonzero := eq_or_ne whole 0
  · rw [Int.cast_zero, round_zero]
  have exponent : format.exponent whole ≤ 0 := by
    refine max_le ?_ least
    have positive : (0 : ℚ) < |(whole : ℚ)| := by
      exact_mod_cast abs_pos.mpr nonzero
    have log : Int.log 2 |(whole : ℚ)| < format.precision := by
      apply (Int.lt_zpow_iff_log_lt (by norm_num) positive).mp
      exact_mod_cast small
    omega
  obtain ⟨shift, isShift⟩ := Int.eq_ofNat_of_zero_le
    (Int.neg_nonneg.mpr exponent)
  have lastBit : format.lastBit whole = (2 ^ shift)⁻¹ := by
    rw [BinaryFormat.lastBit, ← zpow_natCast, ← zpow_neg, ← isShift, neg_neg]
  have scaled : (whole : ℚ) / format.lastBit whole =
      ((whole * 2 ^ shift : ℤ) : ℚ) := by
    rw [lastBit, div_inv_eq_mul]
    push_cast
    rfl
  rw [round, scaled, nearestEven_intCast, ← scaled,
    div_mul_cancel₀ _ (format.lastBit_pos whole).ne']

end BinaryFormat

end Predix.Data
