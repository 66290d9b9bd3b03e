import Mathlib.Algebra.Order.Field.Basic
import Mathlib.Algebra.Order.Ring.Rat
import Mathlib.Data.Nat.GCD.Basic
import Mathlib.Tactic.Linarith
import Mathlib.Tactic.Ring

/-!
Fractions of natural numbers with positive denominators: their order by cross
products, one step of the Euclidean comparison, and lowest terms.
-/

namespace GrevirPeripherals.FractionOrder

variable {an ad bn bd : Nat}

theorem div_le_div_iff_cross (ha : 0 < ad) (hb : 0 < bd) :
    (an : ℚ) / ad ≤ (bn : ℚ) / bd ↔ an * bd ≤ bn * ad := by
  have ha' : (0 : ℚ) < ad := by exact_mod_cast ha
  have hb' : (0 : ℚ) < bd := by exact_mod_cast hb
  rw [div_le_div_iff₀ ha' hb']
  exact_mod_cast Iff.rfl

theorem div_eq_div_iff_cross (ha : 0 < ad) (hb : 0 < bd) :
    (an : ℚ) / ad = (bn : ℚ) / bd ↔ an * bd = bn * ad := by
  rw [le_antisymm_iff, div_le_div_iff_cross ha hb, div_le_div_iff_cross hb ha,
    ← Nat.le_antisymm_iff]

/-- Different integer parts decide the comparison. -/
theorem cross_lt_of_div_lt (ha : 0 < ad) (h : an / ad < bn / bd) : an * bd < bn * ad := by
  have hb : 0 < bd := by
    by_contra hzero
    rw [Nat.eq_zero_of_not_pos hzero, Nat.div_zero] at h
    exact absurd h (Nat.not_lt_zero _)
  calc an * bd < (an / ad + 1) * ad * bd := by
        apply Nat.mul_lt_mul_of_pos_right _ hb
        rw [Nat.mul_comm]
        exact Nat.lt_mul_div_succ an ha
    _ ≤ bn / bd * ad * bd := by
        apply Nat.mul_le_mul_right
        exact Nat.mul_le_mul_right ad h
    _ = bn / bd * bd * ad := by ring
    _ ≤ bn * ad := Nat.mul_le_mul_right ad (Nat.div_mul_le_self bn bd)

/-- Equal integer parts leave the comparison to the remainders. -/
theorem cross_le_iff_mod (h : an / ad = bn / bd) :
    an * bd ≤ bn * ad ↔ an % ad * bd ≤ bn % bd * ad := by
  have ha : an * bd = an % ad * bd + an / ad * ad * bd := by
    nth_rewrite 1 [← Nat.mod_add_div an ad]
    ring
  have hb : bn * ad = bn % bd * ad + an / ad * ad * bd := by
    nth_rewrite 1 [← Nat.mod_add_div bn bd]
    rw [h]
    ring
  omega

/-- Where a remainder vanishes the comparison ends. -/
theorem cross_le_iff_eq_zero {ar br : Nat} (hb : 0 < bd) (h : ar = 0 ∨ br = 0) :
    ar * bd ≤ br * ad ↔ ar = 0 := by
  rcases h with rfl | rfl
  · simp
  · rw [Nat.zero_mul, Nat.le_zero, Nat.mul_eq_zero, or_iff_left hb.ne']

/-- Fractions of the same value have the same lowest terms. -/
theorem lowest_terms_eq_of_cross (ha : 0 < ad) (hb : 0 < bd) (h : an * bd = bn * ad) :
    an / Nat.gcd an ad = bn / Nat.gcd bn bd ∧ ad / Nat.gcd an ad = bd / Nat.gcd bn bd := by
  obtain ⟨g, a, a', hg, hcoprime, rfl, rfl⟩ := Nat.exists_coprime' (Nat.gcd_pos_of_pos_right an ha)
  obtain ⟨k, b, b', hk, hcoprime', rfl, rfl⟩ := Nat.exists_coprime' (Nat.gcd_pos_of_pos_right bn hb)
  have hcross : a * b' = b * a' := by
    have hmul : g * k * (a * b') = g * k * (b * a') := by
      calc g * k * (a * b') = a * g * (b' * k) := by ring
        _ = b * k * (a' * g) := h
        _ = g * k * (b * a') := by ring
    exact Nat.eq_of_mul_eq_mul_left (Nat.mul_pos hg hk) hmul
  have hdvd : a' ∣ b' :=
    hcoprime.symm.dvd_of_dvd_mul_left (hcross ▸ Dvd.intro_left b rfl)
  have hdvd' : b' ∣ a' :=
    hcoprime'.symm.dvd_of_dvd_mul_left (hcross ▸ Dvd.intro_left a rfl)
  obtain rfl : a' = b' := Nat.dvd_antisymm hdvd hdvd'
  have hpos : 0 < a' := Nat.pos_of_mul_pos_right ha
  obtain rfl : a = b := Nat.eq_of_mul_eq_mul_right hpos hcross
  rw [Nat.gcd_mul_right, Nat.gcd_mul_right, hcoprime, Nat.one_mul, Nat.one_mul,
    Nat.mul_div_cancel _ hg, Nat.mul_div_cancel _ hg, Nat.mul_div_cancel _ hk,
    Nat.mul_div_cancel _ hk]
  exact ⟨rfl, rfl⟩

theorem cross_lowest_terms (an ad : Nat) :
    an / Nat.gcd an ad * ad = an * (ad / Nat.gcd an ad) := by
  calc an / Nat.gcd an ad * ad = an * ad / Nat.gcd an ad :=
        Nat.div_mul_right_comm (Nat.gcd_dvd_left an ad) ad
    _ = an * (ad / Nat.gcd an ad) := Nat.mul_div_assoc an (Nat.gcd_dvd_right an ad)

end GrevirPeripherals.FractionOrder
