import GrevirPeripherals.PwmNumeric

/-!
Exact frequency windows, in microhertz, and the frequencies they contain.
-/

namespace GrevirPeripherals.PwmFrequencyWindow

open GrevirPeripherals.FractionOrder
open GrevirPeripherals.PwmNumeric

structure FrequencyBound where
  numerator : UInt64 := 0
  denominator : UInt32 := 1
deriving DecidableEq

namespace FrequencyBound

def valid (b : FrequencyBound) : Bool :=
  b.numerator ≤ 2000000000000 && 0 < b.denominator && b.denominator ≤ 1000000

def normalized (b : FrequencyBound) : FrequencyBound :=
  let divisor := UInt64.ofNat (Nat.gcd b.numerator.toNat b.denominator.toNat)
  { numerator := b.numerator / divisor
    denominator := (b.denominator.toUInt64 / divisor).toUInt32 }

/-- A comparison that would divide by zero has no value; the callers rule it out. -/
def atMost (b other : FrequencyBound) : Bool :=
  (fractionAtMost b.numerator b.denominator.toUInt64
    other.numerator other.denominator.toUInt64).getD false

def value (b : FrequencyBound) : ℚ :=
  (b.numerator.toNat : ℚ) / b.denominator.toNat

theorem valid_iff (b : FrequencyBound) :
    b.valid = true ↔ b.numerator.toNat ≤ 2000000000000 ∧
      0 < b.denominator.toNat ∧ b.denominator.toNat ≤ 1000000 := by
  simp [valid, UInt64.le_iff_toNat_le, UInt32.lt_iff_toNat_lt, UInt32.le_iff_toNat_le, and_assoc]

theorem denominator_pos_of_valid {b : FrequencyBound} (h : b.valid = true) :
    0 < b.denominator.toNat :=
  ((valid_iff b).mp h).2.1

theorem atMost_iff_value_le {a b : FrequencyBound} (ha : 0 < a.denominator.toNat)
    (hb : 0 < b.denominator.toNat) : a.atMost b = true ↔ a.value ≤ b.value := by
  have hne : ∀ x : UInt32, 0 < x.toNat → x.toUInt64 ≠ 0 := by
    intro x hx hzero
    have := congrArg UInt64.toNat hzero
    rw [UInt32.toNat_toUInt64, UInt64.toNat_zero] at this
    omega
  rw [atMost, fractionAtMost_eq _ _ _ _ (hne _ ha) (hne _ hb), Option.getD_some,
    decide_eq_true_iff, UInt32.toNat_toUInt64, UInt32.toNat_toUInt64, value, value,
    div_le_div_iff_cross ha hb]

section Normalized

variable {a b : FrequencyBound}

theorem toNat_normalized (h : 0 < a.denominator.toNat) :
    a.normalized.numerator.toNat =
        a.numerator.toNat / Nat.gcd a.numerator.toNat a.denominator.toNat ∧
      a.normalized.denominator.toNat =
        a.denominator.toNat / Nat.gcd a.numerator.toNat a.denominator.toNat := by
  have hle : Nat.gcd a.numerator.toNat a.denominator.toNat ≤ a.denominator.toNat :=
    Nat.gcd_le_right _ h
  have hlt := a.denominator.toNat_lt
  have hdivisor : (UInt64.ofNat (Nat.gcd a.numerator.toNat a.denominator.toNat)).toNat =
      Nat.gcd a.numerator.toNat a.denominator.toNat := by
    apply UInt64.toNat_ofNat_of_lt'
    change _ < 2 ^ 64
    omega
  rw [normalized, UInt64.toNat_div, UInt64.toNat_toUInt32, UInt64.toNat_div,
    UInt32.toNat_toUInt64, hdivisor]
  refine ⟨rfl, Nat.mod_eq_of_lt ?_⟩
  exact (Nat.div_le_self _ _).trans_lt hlt

theorem denominator_normalized_pos (h : 0 < a.denominator.toNat) :
    0 < a.normalized.denominator.toNat := by
  rw [(toNat_normalized h).2]
  exact Nat.div_gcd_pos_of_pos_right _ h

theorem value_normalized (h : 0 < a.denominator.toNat) : a.normalized.value = a.value := by
  obtain ⟨hnum, hden⟩ := toNat_normalized h
  rw [value, value, div_eq_div_iff_cross (denominator_normalized_pos h) h, hnum, hden]
  exact cross_lowest_terms _ _

/-- Lowest terms represent a bound uniquely. -/
theorem normalized_eq_iff (ha : 0 < a.denominator.toNat) (hb : 0 < b.denominator.toNat) :
    a.normalized = b.normalized ↔ a.value = b.value := by
  constructor
  · intro h
    rw [← value_normalized ha, ← value_normalized hb, h]
  · intro h
    rw [value, value, div_eq_div_iff_cross ha hb] at h
    obtain ⟨hnumerator, hdenominator⟩ := lowest_terms_eq_of_cross ha hb h
    obtain ⟨hnum, hden⟩ := toNat_normalized ha
    obtain ⟨hnum', hden'⟩ := toNat_normalized hb
    rw [← hnum, ← hnum', UInt64.toNat_inj] at hnumerator
    rw [← hden, ← hden', UInt32.toNat_inj] at hdenominator
    exact FrequencyBound.mk.injEq _ _ _ _ ▸ ⟨hnumerator, hdenominator⟩

theorem normalized_normalized (h : 0 < a.denominator.toNat) :
    a.normalized.normalized = a.normalized :=
  (normalized_eq_iff (denominator_normalized_pos h) h).mpr (value_normalized h)

theorem valid_normalized (h : a.valid = true) : a.normalized.valid = true := by
  obtain ⟨hnumerator, hpos, hdenominator⟩ := (valid_iff a).mp h
  obtain ⟨hnum, hden⟩ := toNat_normalized hpos
  rw [valid_iff, hnum]
  refine ⟨(Nat.div_le_self _ _).trans hnumerator, denominator_normalized_pos hpos, ?_⟩
  rw [hden]
  exact (Nat.div_le_self _ _).trans hdenominator

end Normalized

end FrequencyBound

structure FrequencyWindow where
  lower : FrequencyBound := {}
  upper : FrequencyBound := {}
  specified : Bool := false
deriving DecidableEq

namespace FrequencyWindow

/-- The frequencies within `ppm` parts per million of `rate`. -/
def around (rate : Ratio) (ppm : UInt32) : FrequencyWindow :=
  if !rate.valid || 1000000 < ppm then {}
  else
    { lower := FrequencyBound.normalized
        ⟨rate.numerator.toUInt64 * (1000000 - ppm).toUInt64, rate.denominator⟩
      upper := FrequencyBound.normalized
        ⟨rate.numerator.toUInt64 * (1000000 + ppm).toUInt64, rate.denominator⟩
      specified := true }

def valid (w : FrequencyWindow) : Bool :=
  w.specified && w.lower.valid && w.upper.valid && 0 < w.upper.numerator

def empty (w : FrequencyWindow) : Bool :=
  w.valid && !w.lower.atMost w.upper

/-- An unspecified window is the identity of the accumulation. -/
def intersect (w other : FrequencyWindow) : FrequencyWindow :=
  if !w.specified then other
  else if !other.specified then w
  else
    { lower := if w.lower.atMost other.lower then other.lower else w.lower
      upper := if w.upper.atMost other.upper then w.upper else other.upper
      specified := true }

/-- The frequency of a candidate, in microhertz. -/
def microhertz (actual : Ratio) : FrequencyBound where
  numerator := actual.numerator.toUInt64 * 1000000
  denominator := actual.denominator

def contains (w : FrequencyWindow) (actual : Ratio) : Bool :=
  if !w.valid || w.empty || !actual.positive then false
  else w.lower.atMost (microhertz actual) && (microhertz actual).atMost w.upper

/-- The frequency lies between the bounds, as a rational number. -/
def Admits (w : FrequencyWindow) (actual : Ratio) : Prop :=
  w.lower.value ≤ 1000000 * actual.value ∧ 1000000 * actual.value ≤ w.upper.value

theorem value_microhertz (actual : Ratio) :
    (microhertz actual).value = 1000000 * actual.value := by
  have hproduct : (actual.numerator.toUInt64 * 1000000).toNat =
      actual.numerator.toNat * 1000000 := by
    rw [UInt64.toNat_mul, UInt32.toNat_toUInt64]
    apply Nat.mod_eq_of_lt
    have := actual.numerator.toNat_lt
    change actual.numerator.toNat * 1000000 < 2 ^ 64
    omega
  rw [FrequencyBound.value, Ratio.value, microhertz, hproduct]
  push_cast
  ring

theorem contains_eq_true_iff {w : FrequencyWindow} {actual : Ratio} (hvalid : w.valid = true)
    (hempty : w.empty = false) (hactual : actual.positive = true) :
    w.contains actual = true ↔ w.Admits actual := by
  have hbounds := hvalid
  simp only [valid, Bool.and_eq_true] at hbounds
  have hlower := FrequencyBound.denominator_pos_of_valid hbounds.1.1.2
  have hupper := FrequencyBound.denominator_pos_of_valid hbounds.1.2
  have hpos : 0 < (microhertz actual).denominator.toNat :=
    ((Ratio.positive_iff actual).mp hactual).2
  simp only [contains, hvalid, hempty, hactual, Bool.not_true, Bool.or_self, Bool.false_eq_true,
    if_false, Bool.and_eq_true]
  rw [FrequencyBound.atMost_iff_value_le hlower hpos,
    FrequencyBound.atMost_iff_value_le hpos hupper, value_microhertz, Admits]

theorem valid_iff (w : FrequencyWindow) :
    w.valid = true ↔ w.specified = true ∧ w.lower.valid = true ∧ w.upper.valid = true ∧
      0 < w.upper.numerator.toNat := by
  simp [valid, UInt64.lt_iff_toNat_lt, and_assoc]

theorem empty_iff {w : FrequencyWindow} (hvalid : w.valid = true) :
    w.empty = true ↔ w.upper.value < w.lower.value := by
  obtain ⟨-, hlower, hupper, -⟩ := (valid_iff w).mp hvalid
  rw [empty, hvalid, Bool.true_and, Bool.not_eq_true', ← Bool.not_eq_true,
    FrequencyBound.atMost_iff_value_le (FrequencyBound.denominator_pos_of_valid hlower)
      (FrequencyBound.denominator_pos_of_valid hupper), not_le]

/-- A window that admits a frequency is not empty, so the bounds alone decide. -/
theorem contains_iff_admits {w : FrequencyWindow} {actual : Ratio} (hvalid : w.valid = true)
    (hactual : actual.positive = true) : w.contains actual = true ↔ w.Admits actual := by
  cases hempty : w.empty with
  | false => exact contains_eq_true_iff hvalid hempty hactual
  | true =>
      have hlt := (empty_iff hvalid).mp hempty
      refine iff_of_false (by simp [contains, hempty]) ?_
      rintro ⟨hlower, hupper⟩
      exact absurd (hlower.trans hupper) hlt.not_ge

section Around

variable {rate : Ratio} {ppm : UInt32}

theorem toNat_lowered (hppm : ppm.toNat ≤ 1000000) :
    (1000000 - ppm).toNat = 1000000 - ppm.toNat :=
  UInt32.toNat_sub_of_le _ _ (UInt32.le_iff_toNat_le.mpr hppm)

theorem toNat_raised (hppm : ppm.toNat ≤ 1000000) :
    (1000000 + ppm).toNat = 1000000 + ppm.toNat := by
  rw [UInt32.toNat_add]
  apply Nat.mod_eq_of_lt
  change 1000000 + ppm.toNat < 2 ^ 32
  omega

theorem around_eq (hrate : rate.valid = true) (hppm : ppm.toNat ≤ 1000000) :
    around rate ppm =
      { lower := FrequencyBound.normalized
          ⟨rate.numerator.toUInt64 * (1000000 - ppm).toUInt64, rate.denominator⟩
        upper := FrequencyBound.normalized
          ⟨rate.numerator.toUInt64 * (1000000 + ppm).toUInt64, rate.denominator⟩
        specified := true } := by
  have hlt : ¬1000000 < ppm := by
    rw [UInt32.lt_iff_toNat_lt]
    exact hppm.not_gt
  simp [around, hrate, hlt]

/-- A bound before it is reduced. -/
theorem valid_scaled (hrate : rate.valid = true) {factor : UInt32}
    (hfactor : factor.toNat ≤ 2000000) :
    FrequencyBound.valid ⟨rate.numerator.toUInt64 * factor.toUInt64, rate.denominator⟩ = true := by
  obtain ⟨⟨-, hnumerator⟩, hpos, hdenominator⟩ := (Ratio.valid_iff rate).mp hrate
  rw [FrequencyBound.valid_iff]
  refine ⟨?_, hpos, hdenominator⟩
  rw [toNat_product]
  exact Nat.mul_le_mul hnumerator hfactor

theorem value_scaled (rate : Ratio) (factor : UInt32) :
    FrequencyBound.value ⟨rate.numerator.toUInt64 * factor.toUInt64, rate.denominator⟩ =
      rate.value * factor.toNat := by
  rw [FrequencyBound.value, Ratio.value, toNat_product]
  push_cast
  ring

theorem around_values (hrate : rate.valid = true) (hppm : ppm.toNat ≤ 1000000) :
    (around rate ppm).lower.value = rate.value * (1000000 - ppm.toNat) ∧
      (around rate ppm).upper.value = rate.value * (1000000 + ppm.toNat) := by
  have hpos := ((Ratio.positive_iff rate).mp (Ratio.positive_of_valid hrate)).2
  rw [around_eq hrate hppm]
  constructor
  · rw [FrequencyBound.value_normalized hpos, value_scaled, toNat_lowered hppm,
      Nat.cast_sub hppm]
    norm_num
  · rw [FrequencyBound.value_normalized hpos, value_scaled, toNat_raised hppm]
    push_cast
    rfl

/-- A well-formed window both of whose bounds are in lowest terms. -/
structure Normal (w : FrequencyWindow) : Prop where
  valid : w.valid = true
  lower : w.lower.normalized = w.lower
  upper : w.upper.normalized = w.upper

theorem normal_around (hrate : rate.valid = true) (hppm : ppm.toNat ≤ 1000000) :
    (around rate ppm).Normal := by
  obtain ⟨⟨hnumerator, -⟩, hpos, -⟩ := (Ratio.valid_iff rate).mp hrate
  have hlower : (1000000 - ppm).toNat ≤ 2000000 := by
    rw [toNat_lowered hppm]
    omega
  have hupper : (1000000 + ppm).toNat ≤ 2000000 := by
    rw [toNat_raised hppm]
    omega
  rw [around_eq hrate hppm]
  constructor
  · rw [valid_iff]
    refine ⟨rfl, FrequencyBound.valid_normalized (valid_scaled hrate hlower),
      FrequencyBound.valid_normalized (valid_scaled hrate hupper), ?_⟩
    rw [(FrequencyBound.toNat_normalized hpos).1]
    apply Nat.div_gcd_pos_of_pos_left
    rw [toNat_product, toNat_raised hppm]
    exact Nat.mul_pos hnumerator (by omega)
  · exact FrequencyBound.normalized_normalized hpos
  · exact FrequencyBound.normalized_normalized hpos

end Around

end FrequencyWindow

end GrevirPeripherals.PwmFrequencyWindow
