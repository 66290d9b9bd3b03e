import GrevirPeripherals.PwmFrequencyWindow
import Mathlib.Algebra.Order.Field.Basic
import Mathlib.Tactic.FieldSimp

/-!
The two accuracy tests for a frequency: the comparison of `within`, and the window
that `around` puts about the requested one.
-/

namespace GrevirPeripherals.PwmAccuracy

open GrevirPeripherals.PwmFrequencyWindow
open GrevirPeripherals.PwmFrequencyWindow.FrequencyWindow
open GrevirPeripherals.PwmNumeric

variable {actual requested : Ratio} {ppm : UInt32}

/-- The cross products of a comparison, as natural numbers. -/
def crossActual (actual requested : Ratio) : Nat :=
  actual.numerator.toNat * requested.denominator.toNat

def crossRequested (actual requested : Ratio) : Nat :=
  requested.numerator.toNat * actual.denominator.toNat

/-- The distance of the cross products. -/
def crossDistance (actual requested : Ratio) : Nat :=
  if crossActual actual requested > crossRequested actual requested then
    crossActual actual requested - crossRequested actual requested
  else crossRequested actual requested - crossActual actual requested

/-- Every product that either test forms, over the natural numbers. -/
def products (actual requested : Ratio) (ppm : UInt32) : List Nat :=
  [crossActual actual requested, crossRequested actual requested,
    crossDistance actual requested * 1000000, crossRequested actual requested * ppm.toNat,
    requested.numerator.toNat * (1000000 - ppm.toNat),
    requested.numerator.toNat * (1000000 + ppm.toNat), actual.numerator.toNat * 1000000]

/-- The quotient of the frequencies is that of the cross products. -/
theorem value_div_value (actual requested : Ratio) :
    actual.value / requested.value =
      (crossActual actual requested : ℚ) / crossRequested actual requested := by
  rw [Ratio.value, Ratio.value, crossActual, crossRequested, div_div_div_eq]
  push_cast
  rw [mul_comm (actual.denominator.toNat : ℚ)]

section Cross

variable (hactual : actual.valid = true) (hrequested : requested.valid = true)

include hactual hrequested

theorem cross_bounds :
    crossActual actual requested ≤ 1000000 * 1000000 ∧
      0 < crossRequested actual requested ∧
      crossRequested actual requested ≤ 1000000 * 1000000 := by
  obtain ⟨⟨-, hnum⟩, hden, hden'⟩ := (Ratio.valid_iff actual).mp hactual
  obtain ⟨⟨hnum', hnum''⟩, -, hden''⟩ := (Ratio.valid_iff requested).mp hrequested
  exact ⟨Nat.mul_le_mul hnum hden'', Nat.mul_pos hnum' hden, Nat.mul_le_mul hnum'' hden'⟩

theorem crossDistance_le : crossDistance actual requested ≤ 1000000 * 1000000 := by
  obtain ⟨hleft, -, hright⟩ := cross_bounds hactual hrequested
  rw [crossDistance]
  split_ifs <;> omega

/-- No product of either test reaches the end of the 64-bit range. -/
theorem products_fit (hppm : ppm.toNat ≤ 1000000) :
    ∀ product ∈ products actual requested ppm, product ≤ 2 ^ 64 - 1 := by
  obtain ⟨hleft, -, hright⟩ := cross_bounds hactual hrequested
  have hdistance := crossDistance_le hactual hrequested
  obtain ⟨⟨-, hnum⟩, -⟩ := (Ratio.valid_iff actual).mp hactual
  obtain ⟨⟨-, hnum'⟩, -⟩ := (Ratio.valid_iff requested).mp hrequested
  have htolerance := Nat.mul_le_mul hright hppm
  have hlower := Nat.mul_le_mul hnum' (show 1000000 - ppm.toNat ≤ 1000000 by omega)
  have hupper := Nat.mul_le_mul hnum' (show 1000000 + ppm.toNat ≤ 2000000 by omega)
  simp only [products, List.forall_mem_cons, List.not_mem_nil, false_implies, implies_true,
    and_true]
  refine ⟨?_, ?_, ?_, ?_, ?_, ?_, ?_⟩ <;> omega

/-- In 64 bits the test compares the exact distance with the exact tolerance. -/
theorem within_eq_true_iff (hppm : ppm.toNat ≤ 1000000) :
    within actual requested ppm = true ↔
      crossDistance actual requested * 1000000 ≤ crossRequested actual requested * ppm.toNat := by
  obtain ⟨hleft, -, hright⟩ := cross_bounds hactual hrequested
  have hfit := products_fit hactual hrequested hppm
  have hdistance : (if actual.numerator.toUInt64 * requested.denominator.toUInt64 >
          requested.numerator.toUInt64 * actual.denominator.toUInt64 then
        actual.numerator.toUInt64 * requested.denominator.toUInt64 -
          requested.numerator.toUInt64 * actual.denominator.toUInt64
      else requested.numerator.toUInt64 * actual.denominator.toUInt64 -
        actual.numerator.toUInt64 * requested.denominator.toUInt64).toNat =
      crossDistance actual requested := by
    rw [crossDistance, crossActual, crossRequested]
    simp only [gt_iff_lt, UInt64.lt_iff_toNat_lt, toNat_product]
    split_ifs with hlt
    · rw [UInt64.toNat_sub_of_le, toNat_product, toNat_product]
      rw [UInt64.le_iff_toNat_le, toNat_product, toNat_product]
      exact hlt.le
    · rw [UInt64.toNat_sub_of_le, toNat_product, toNat_product]
      rw [UInt64.le_iff_toNat_le, toNat_product, toNat_product]
      exact Nat.le_of_not_lt hlt
  have hscaled := hfit (crossDistance actual requested * 1000000) (by simp [products])
  have htolerance := hfit (crossRequested actual requested * ppm.toNat) (by simp [products])
  have hmillion : (1000000 : UInt64).toNat = 1000000 := rfl
  rw [within, decide_eq_true_iff, UInt64.le_iff_toNat_le, UInt64.toNat_mul, hdistance, hmillion,
    UInt64.toNat_mul, toNat_product, UInt32.toNat_toUInt64, ← crossRequested,
    Nat.mod_eq_of_lt (by omega), Nat.mod_eq_of_lt (by omega)]

theorem within_iff_abs (hppm : ppm.toNat ≤ 1000000) :
    within actual requested ppm = true ↔
      |actual.value / requested.value - 1| ≤ (ppm.toNat : ℚ) / 1000000 := by
  have hpos : (0 : ℚ) < crossRequested actual requested := by
    exact_mod_cast (cross_bounds hactual hrequested).2.1
  have hdistance : (crossDistance actual requested : ℚ) =
      |(crossActual actual requested : ℚ) - crossRequested actual requested| := by
    rw [crossDistance]
    split_ifs with hlt
    · rw [Nat.cast_sub hlt.le, abs_of_nonneg]
      exact sub_nonneg.mpr (by exact_mod_cast hlt.le)
    · rw [Nat.cast_sub (Nat.le_of_not_lt hlt), abs_of_nonpos, neg_sub]
      exact sub_nonpos.mpr (by exact_mod_cast Nat.le_of_not_lt hlt)
  have hquotient : |(crossActual actual requested : ℚ) / crossRequested actual requested - 1| =
      crossDistance actual requested / crossRequested actual requested := by
    rw [div_sub_one hpos.ne', abs_div, abs_of_pos hpos, hdistance]
  rw [within_eq_true_iff hactual hrequested hppm, value_div_value, hquotient,
    div_le_div_iff₀ hpos (by norm_num), mul_comm (ppm.toNat : ℚ)]
  exact_mod_cast Iff.rfl

theorem contains_iff_abs (hppm : ppm.toNat ≤ 1000000) :
    (around requested ppm).contains actual = true ↔
      |actual.value / requested.value - 1| ≤ (ppm.toNat : ℚ) / 1000000 := by
  obtain ⟨hnum, hden⟩ := (Ratio.positive_iff requested).mp (Ratio.positive_of_valid hrequested)
  have hpos : 0 < requested.value := by
    rw [Ratio.value]
    exact div_pos (by exact_mod_cast hnum) (by exact_mod_cast hden)
  obtain ⟨hlower, hupper⟩ := around_values hrequested hppm
  rw [contains_iff_admits (normal_around hrequested hppm).valid
    (Ratio.positive_of_valid hactual), Admits, hlower, hupper, abs_le, neg_le_sub_iff_le_add,
    sub_le_iff_le_add, ← sub_le_iff_le_add, le_div_iff₀ hpos, div_le_iff₀ hpos]
  constructor
  · rintro ⟨hleft, hright⟩
    constructor <;> linarith
  · rintro ⟨hleft, hright⟩
    constructor <;> linarith

/-- Both tests ask for a relative deviation of at most `ppm` millionths, and neither
forms a product that leaves the 64-bit range. -/
theorem within_iff_contains (hppm : ppm.toNat ≤ 1000000) :
    (within actual requested ppm = true ↔ (around requested ppm).contains actual = true) ∧
      (within actual requested ppm = true ↔
        |actual.value / requested.value - 1| ≤ (ppm.toNat : ℚ) / 1000000) ∧
      ∀ product ∈ products actual requested ppm, product ≤ 2 ^ 64 - 1 := by
  have hwithin := within_iff_abs hactual hrequested hppm
  exact ⟨hwithin.trans (contains_iff_abs hactual hrequested hppm).symm, hwithin,
    products_fit hactual hrequested hppm⟩

end Cross

/-- Two millionths above the request are too many for a tolerance of one; with a
tolerance of a million the lower bound is zero. -/
theorem millionth_within_iff_contains :
    (around ⟨1, 1⟩ 1).contains ⟨500001, 500000⟩ = false ∧
      (around ⟨999999, 1⟩ 1000000).contains ⟨1, 1000000⟩ = true :=
  ⟨Bool.eq_false_iff.mpr fun h => absurd
      ((within_iff_contains (by decide) (by decide) (by decide)).1.mpr h) (by decide),
    (within_iff_contains (by decide) (by decide) (by decide)).1.mp (by decide)⟩

end GrevirPeripherals.PwmAccuracy
