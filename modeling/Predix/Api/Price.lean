import Predix.Data.Float64

namespace Predix

open Data Word

/-! Prices between decimals and fixed point. -/

/-- The conversion of a float64 to units of 1/10000: product and sum are
rounded. -/
def scalePrice (f : ℚ) : Int64 :=
  Float64.toInt64 (float64.round (float64.round (f * 10000) + 1 / 2))

/-- The same expression where the compiler fuses the sum with the product, as
the language lets it on some machines. -/
def scalePriceFused (f : ℚ) : Int64 :=
  Float64.toInt64 (float64.round (f * 10000 + 1 / 2))

def unscalePrice (v : Int64) : ℚ :=
  float64.round (float64.round v.toInt / 10000)

/-- What the conversion is for: the units of a decimal, without rounding on the
way. -/
def exactPrice (price : ℚ) : Int64 :=
  Float64.toInt64 (price * 10000 + 1 / 2)

theorem scaled_near {units : ℤ} (nonneg : 0 ≤ units) :
    |float64.round (units / 10000) * 10000 - units| ≤
      units / 9007199254740992 := by
  obtain rfl | positive := nonneg.eq_or_lt
  · simp [float64.round_zero]
  have one : (1 : ℚ) ≤ units := by exact_mod_cast positive
  have error := @Float64.round_error ((units : ℚ) / 10000) (by linarith)
  obtain ⟨below, above⟩ := abs_le.mp error
  rw [abs_le]
  constructor <;> linarith

section FourDecimals

variable {units : ℤ} (nonneg : 0 ≤ units) (bound : units ≤ 2 ^ 50)

include nonneg bound

private theorem scalePriceFused_units :
    scalePriceFused (float64.round (units / 10000)) = Int64.ofInt units := by
  have high : (units : ℚ) ≤ 1125899906842624 := by exact_mod_cast bound
  apply Float64.toInt64_round_half nonneg bound
  exact le_trans (scaled_near nonneg) (by linarith)

private theorem scalePrice_units :
    scalePrice (float64.round (units / 10000)) = Int64.ofInt units := by
  have high : (units : ℚ) ≤ 1125899906842624 := by exact_mod_cast bound
  apply Float64.toInt64_round_half nonneg bound
  obtain rfl | positive := nonneg.eq_or_lt
  · norm_num [float64.round_zero]
  have one : (1 : ℚ) ≤ units := by exact_mod_cast positive
  obtain ⟨left, right⟩ := abs_le.mp (scaled_near nonneg)
  -- the product is rounded once more than in the fused expression
  have error := @Float64.round_error (float64.round (units / 10000) * 10000)
    (by linarith)
  obtain ⟨below, above⟩ := abs_le.mp error
  rw [abs_le]
  constructor <;> linarith

private theorem unscalePrice_units :
    unscalePrice (Int64.ofInt units) = float64.round (units / 10000) := by
  have fits : Fits units :=
    Fits.of_between (by decide : Fits 0) (by decide : Fits (2 ^ 50)) nonneg bound
  have small : |units| < 2 ^ float64.precision := by
    rw [abs_of_nonneg nonneg]
    exact lt_of_le_of_lt bound (by decide)
  rw [unscalePrice, Int64.toInt_ofInt_of_le fits.1 fits.2,
    float64.round_intCast small (by decide)]

end FourDecimals

private theorem exactPrice_decimal {units : ℤ} (nonneg : 0 ≤ units)
    (fits : Fits units) :
    exactPrice (units / 10000) = Int64.ofInt units := by
  apply Float64.toInt64_of_between nonneg fits
  · linarith
  · linarith

/-- The machine's conversion is the exact one on prices of four decimals,
with or without a fused sum, and fixed point is read back as it was. -/
theorem scalePrice_exact {units : ℤ} (nonneg : 0 ≤ units)
    (bound : units ≤ 2 ^ 50) :
    scalePrice (float64.round (units / 10000)) =
        exactPrice (units / 10000) ∧
      scalePriceFused (float64.round (units / 10000)) =
        exactPrice (units / 10000) ∧
      scalePrice (unscalePrice (Int64.ofInt units)) =
        Int64.ofInt units := by
  have fits : Fits units :=
    Fits.of_between (by decide : Fits 0) (by decide : Fits (2 ^ 50)) nonneg bound
  rw [exactPrice_decimal nonneg fits, unscalePrice_units nonneg bound]
  exact ⟨scalePrice_units nonneg bound,
    scalePriceFused_units nonneg bound,
    scalePrice_units nonneg bound⟩

/-- The price 0.29, whose float64 is not 0.29. -/
theorem scalePrice_exact_cents :
    scalePrice (float64.round ((2900 : ℤ) / 10000)) =
      exactPrice ((2900 : ℤ) / 10000) :=
  (@scalePrice_exact 2900 (by decide) (by decide)).1

end Predix
