import GrevirPeripherals.FractionOrder

/-!
The bounded ratios of the PWM allocator and their exact comparison.
-/

namespace GrevirPeripherals.PwmNumeric

open GrevirPeripherals.FractionOrder

structure Ratio where
  numerator : UInt32 := 0
  denominator : UInt32 := 1
deriving DecidableEq

namespace Ratio

def positive (r : Ratio) : Bool :=
  0 < r.numerator && 0 < r.denominator

def valid (r : Ratio) : Bool :=
  0 < r.numerator && r.numerator ≤ 1000000 && 0 < r.denominator && r.denominator ≤ 1000000

def normalized (r : Ratio) : Ratio :=
  let divisor := UInt32.ofNat (Nat.gcd r.numerator.toNat r.denominator.toNat)
  { numerator := r.numerator / divisor
    denominator := r.denominator / divisor }

/-- The number a ratio stands for. -/
def value (r : Ratio) : ℚ :=
  (r.numerator.toNat : ℚ) / r.denominator.toNat

end Ratio

theorem toNat_pos {x : UInt64} (h : x ≠ 0) : 0 < x.toNat := by
  apply Nat.pos_of_ne_zero
  intro hzero
  exact h (UInt64.toNat_inj.mp hzero)

/-- The loop of `fraction_at_most`; `none` marks a division by zero. -/
def fractionAtMostLoop (reversed : Bool) (an ad bn bd : UInt64) : Option Bool :=
  if ad = 0 ∨ bd = 0 then none
  else
    let aq := an / ad
    let bq := bn / bd
    if aq ≠ bq then some (if reversed then decide (aq > bq) else decide (aq < bq))
    else
      let ar := an % ad
      let br := bn % bd
      if ar = 0 ∨ br = 0 then some (if reversed then decide (br = 0) else decide (ar = 0))
      else fractionAtMostLoop (!reversed) ad ar bd br
termination_by ad.toNat
decreasing_by
  rename_i hzero _ _
  rw [UInt64.toNat_mod]
  exact Nat.mod_lt _ (toNat_pos fun h => hzero (Or.inl h))

def fractionAtMost (an ad bn bd : UInt64) : Option Bool :=
  fractionAtMostLoop false an ad bn bd

def atMost (a b : Ratio) : Bool :=
  a.numerator.toUInt64 * b.denominator.toUInt64 ≤ b.numerator.toUInt64 * a.denominator.toUInt64

/-- Relative accuracy, compared without a division. -/
def within (actual requested : Ratio) (ppm : UInt32) : Bool :=
  let a := actual.numerator.toUInt64 * requested.denominator.toUInt64
  let b := requested.numerator.toUInt64 * actual.denominator.toUInt64
  let difference := if a > b then a - b else b - a
  difference * 1000000 ≤ b * ppm.toUInt64

/-- Each reciprocal step turns the comparison of the remainders around. -/
theorem fractionAtMostLoop_eq (reversed : Bool) (an ad bn bd : UInt64) (ha : ad ≠ 0)
    (hb : bd ≠ 0) :
    fractionAtMostLoop reversed an ad bn bd =
      some (if reversed then decide (bn.toNat * ad.toNat ≤ an.toNat * bd.toNat)
        else decide (an.toNat * bd.toNat ≤ bn.toNat * ad.toNat)) := by
  induction reversed, an, ad, bn, bd using fractionAtMostLoop.induct with
  | case1 reversed an ad bn bd hzero =>
      rcases hzero with hzero | hzero
      · exact absurd hzero ha
      · exact absurd hzero hb
  | case2 reversed an ad bn bd hzero aq bq hne =>
      rw [fractionAtMostLoop, if_neg hzero, if_pos hne]
      have hquotient : an.toNat / ad.toNat ≠ bn.toNat / bd.toNat := by
        rw [← UInt64.toNat_div, ← UInt64.toNat_div]
        exact fun h => hne (UInt64.toNat_inj.mp h)
      simp only [gt_iff_lt, UInt64.lt_iff_toNat_lt, UInt64.toNat_div]
      rcases Nat.lt_or_gt_of_ne hquotient with hlt | hgt
      · have hcross := cross_lt_of_div_lt (toNat_pos ha) hlt
        simp [hlt, hlt.not_gt, hcross.le, hcross.not_ge]
      · have hcross := cross_lt_of_div_lt (toNat_pos hb) hgt
        simp [hgt, hgt.not_gt, hcross.le, hcross.not_ge]
  | case3 reversed an ad bn bd hzero aq bq heq ar br hrem =>
      rw [fractionAtMostLoop, if_neg hzero, if_neg heq, if_pos hrem]
      have hquotient := congrArg UInt64.toNat (not_not.mp heq)
      rw [UInt64.toNat_div, UInt64.toNat_div] at hquotient
      simp only [← UInt64.toNat_inj, ar, br, UInt64.toNat_mod] at hrem ⊢
      rw [UInt64.toNat_zero] at hrem ⊢
      simp only [cross_le_iff_mod hquotient, cross_le_iff_mod hquotient.symm,
        cross_le_iff_eq_zero (toNat_pos hb) hrem, cross_le_iff_eq_zero (toNat_pos ha) hrem.symm]
  | case4 reversed an ad bn bd hzero aq bq heq ar br hrem ih =>
      rw [fractionAtMostLoop, if_neg hzero, if_neg heq, if_neg hrem]
      have hquotient := congrArg UInt64.toNat (not_not.mp heq)
      rw [UInt64.toNat_div, UInt64.toNat_div] at hquotient
      rw [ih (fun h => hrem (Or.inl h)) (fun h => hrem (Or.inr h))]
      simp only [ar, br, UInt64.toNat_mod, cross_le_iff_mod hquotient,
        cross_le_iff_mod hquotient.symm]
      cases reversed <;> simp [Nat.mul_comm]

/-- The loop ends, never divides by zero, and compares the exact fractions. -/
theorem fractionAtMost_eq (an ad bn bd : UInt64) (ha : ad ≠ 0) (hb : bd ≠ 0) :
    fractionAtMost an ad bn bd = some (decide (an.toNat * bd.toNat ≤ bn.toNat * ad.toNat)) :=
  fractionAtMostLoop_eq false an ad bn bd ha hb

/-- A product of two 32-bit values does not wrap in 64 bits. -/
theorem toNat_product (x y : UInt32) :
    (x.toUInt64 * y.toUInt64).toNat = x.toNat * y.toNat := by
  rw [UInt64.toNat_mul, UInt32.toNat_toUInt64, UInt32.toNat_toUInt64]
  apply Nat.mod_eq_of_lt
  have hlt : x.toNat * y.toNat < 2 ^ 32 * 2 ^ 32 := Nat.mul_lt_mul'' x.toNat_lt y.toNat_lt
  exact hlt

theorem atMost_eq_true_iff (a b : Ratio) :
    atMost a b = true ↔
      a.numerator.toNat * b.denominator.toNat ≤ b.numerator.toNat * a.denominator.toNat := by
  rw [atMost, decide_eq_true_iff, UInt64.le_iff_toNat_le, toNat_product, toNat_product]

namespace Ratio

theorem positive_iff (r : Ratio) :
    r.positive = true ↔ 0 < r.numerator.toNat ∧ 0 < r.denominator.toNat := by
  simp [positive, UInt32.lt_iff_toNat_lt]

theorem valid_iff (r : Ratio) :
    r.valid = true ↔ (0 < r.numerator.toNat ∧ r.numerator.toNat ≤ 1000000) ∧
      0 < r.denominator.toNat ∧ r.denominator.toNat ≤ 1000000 := by
  simp [valid, UInt32.lt_iff_toNat_lt, UInt32.le_iff_toNat_le, and_assoc]

theorem positive_of_valid {r : Ratio} (h : r.valid = true) : r.positive = true := by
  obtain ⟨⟨hnumerator, -⟩, hdenominator, -⟩ := (valid_iff r).mp h
  exact (positive_iff r).mpr ⟨hnumerator, hdenominator⟩

section Positive

variable {a b : Ratio}

theorem atMost_iff_value_le (ha : a.positive = true) (hb : b.positive = true) :
    atMost a b = true ↔ a.value ≤ b.value := by
  rw [atMost_eq_true_iff, value, value,
    div_le_div_iff_cross ((positive_iff a).mp ha).2 ((positive_iff b).mp hb).2]

theorem toNat_normalized (h : a.positive = true) :
    a.normalized.numerator.toNat =
        a.numerator.toNat / Nat.gcd a.numerator.toNat a.denominator.toNat ∧
      a.normalized.denominator.toNat =
        a.denominator.toNat / Nat.gcd a.numerator.toNat a.denominator.toNat := by
  have hle : Nat.gcd a.numerator.toNat a.denominator.toNat ≤ a.denominator.toNat :=
    Nat.gcd_le_right _ ((positive_iff a).mp h).2
  have hdivisor : (UInt32.ofNat (Nat.gcd a.numerator.toNat a.denominator.toNat)).toNat =
      Nat.gcd a.numerator.toNat a.denominator.toNat := by
    apply UInt32.toNat_ofNat_of_lt'
    exact hle.trans_lt a.denominator.toNat_lt
  rw [normalized, UInt32.toNat_div, UInt32.toNat_div, hdivisor]
  exact ⟨rfl, rfl⟩

theorem positive_normalized (h : a.positive = true) : a.normalized.positive = true := by
  obtain ⟨hnumerator, hdenominator⟩ := (positive_iff a).mp h
  obtain ⟨hnum, hden⟩ := toNat_normalized h
  rw [positive_iff, hnum, hden]
  exact ⟨Nat.div_gcd_pos_of_pos_left _ hnumerator, Nat.div_gcd_pos_of_pos_right _ hdenominator⟩

theorem value_normalized (h : a.positive = true) : a.normalized.value = a.value := by
  obtain ⟨hnum, hden⟩ := toNat_normalized h
  have hpos := ((positive_iff _).mp (positive_normalized h)).2
  rw [value, value, div_eq_div_iff_cross hpos ((positive_iff a).mp h).2, hnum, hden]
  exact cross_lowest_terms _ _

/-- Lowest terms represent a value uniquely. -/
theorem normalized_eq_iff (ha : a.positive = true) (hb : b.positive = true) :
    a.normalized = b.normalized ↔ a.value = b.value := by
  constructor
  · intro h
    rw [← value_normalized ha, ← value_normalized hb, h]
  · intro h
    rw [value, value, div_eq_div_iff_cross ((positive_iff a).mp ha).2
      ((positive_iff b).mp hb).2] at h
    obtain ⟨hnumerator, hdenominator⟩ := lowest_terms_eq_of_cross ((positive_iff a).mp ha).2
      ((positive_iff b).mp hb).2 h
    obtain ⟨hnum, hden⟩ := toNat_normalized ha
    obtain ⟨hnum', hden'⟩ := toNat_normalized hb
    rw [← hnum, ← hnum', UInt32.toNat_inj] at hnumerator
    rw [← hden, ← hden', UInt32.toNat_inj] at hdenominator
    exact Ratio.mk.injEq _ _ _ _ ▸ ⟨hnumerator, hdenominator⟩

theorem normalized_normalized (h : a.positive = true) : a.normalized.normalized = a.normalized :=
  (normalized_eq_iff (positive_normalized h) h).mpr (value_normalized h)

theorem valid_normalized (h : a.valid = true) : a.normalized.valid = true := by
  have hpositive := positive_of_valid h
  obtain ⟨⟨-, hnumerator⟩, -, hdenominator⟩ := (valid_iff a).mp h
  obtain ⟨hnum, hden⟩ := toNat_normalized hpositive
  obtain ⟨hnumPos, hdenPos⟩ := (positive_iff _).mp (positive_normalized hpositive)
  rw [valid_iff]
  refine ⟨⟨hnumPos, ?_⟩, hdenPos, ?_⟩
  · rw [hnum]
    exact (Nat.div_le_self _ _).trans hnumerator
  · rw [hden]
    exact (Nat.div_le_self _ _).trans hdenominator

end Positive

end Ratio

end GrevirPeripherals.PwmNumeric
