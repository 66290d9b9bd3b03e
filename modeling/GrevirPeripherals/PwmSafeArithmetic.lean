import GrevirPeripherals.CheckedExecution
import GrevirPeripherals.PwmFrequencyWindow

/-!
The arithmetic of the PWM allocator with every division and every product checked. Each
helper computes what its unchecked version does where its callers guard it.
-/

namespace GrevirPeripherals.PwmSafeArithmetic

open GrevirPeripherals.CheckedExecution
open GrevirPeripherals.PwmFrequencyWindow
open GrevirPeripherals.PwmNumeric

section Ratios

/-- `Ratio::normalized`, which has no guard of its own. -/
def normalizedChecked (r : Ratio) : Checked Ratio := do
  let divisor := UInt32.ofNat (Nat.gcd r.numerator.toNat r.denominator.toNat)
  let numerator ← divide32 r.numerator divisor
  let denominator ← divide32 r.denominator divisor
  return { numerator := numerator, denominator := denominator }

theorem normalizedChecked_eq {r : Ratio} (h : r.positive = true) :
    normalizedChecked r = .ok r.normalized := by
  obtain ⟨-, hdenominator⟩ := (Ratio.positive_iff r).mp h
  have hdivisor : UInt32.ofNat (Nat.gcd r.numerator.toNat r.denominator.toNat) ≠ 0 := by
    intro hzero
    have hle : Nat.gcd r.numerator.toNat r.denominator.toNat ≤ r.denominator.toNat :=
      Nat.gcd_le_right _ hdenominator
    have hlt := r.denominator.toNat_lt
    have htoNat := congrArg UInt32.toNat hzero
    rw [UInt32.toNat_ofNat_of_lt' (by change _ < 2 ^ 32; omega), UInt32.toNat_zero] at htoNat
    have hpos := Nat.gcd_pos_of_pos_right r.numerator.toNat hdenominator
    omega
  simp only [normalizedChecked, divide32_eq_ok hdivisor, ok_bind, pure_eq_ok]
  rfl

example : normalizedChecked { numerator := 0, denominator := 0 } = .error .divisionByZero := by
  decide

/-- `at_most`, whose products are taken in 64 bits. -/
def atMostChecked (a b : Ratio) : Checked Bool := do
  let left ← multiply a.numerator.toUInt64 b.denominator.toUInt64
  let right ← multiply b.numerator.toUInt64 a.denominator.toUInt64
  return left ≤ right

theorem atMostChecked_eq (a b : Ratio) : atMostChecked a b = .ok (atMost a b) := by
  rw [atMostChecked, multiply_toUInt64, ok_bind, multiply_toUInt64, ok_bind]
  rfl

end Ratios

section Windows

/-- `fraction_at_most`; the loop has no value where it divides by zero. -/
def fractionAtMostChecked (an ad bn bd : UInt64) : Checked Bool :=
  match fractionAtMost an ad bn bd with
  | some result => .ok result
  | none => .error .divisionByZero

def boundAtMostChecked (b other : FrequencyBound) : Checked Bool :=
  fractionAtMostChecked b.numerator b.denominator.toUInt64 other.numerator
    other.denominator.toUInt64

theorem toUInt64_ne_zero {x : UInt32} (h : 0 < x.toNat) : x.toUInt64 ≠ 0 := by
  intro hzero
  have htoNat := congrArg UInt64.toNat hzero
  rw [UInt32.toNat_toUInt64, UInt64.toNat_zero] at htoNat
  omega

theorem boundAtMostChecked_eq {b other : FrequencyBound} (hb : 0 < b.denominator.toNat)
    (hother : 0 < other.denominator.toNat) :
    boundAtMostChecked b other = .ok (b.atMost other) := by
  rw [boundAtMostChecked, fractionAtMostChecked, FrequencyBound.atMost,
    fractionAtMost_eq _ _ _ _ (toUInt64_ne_zero hb) (toUInt64_ne_zero hother)]
  rfl

/-- `FrequencyWindow::empty`, which compares the bounds of valid windows only. -/
def emptyChecked (w : FrequencyWindow) : Checked Bool := do
  if w.valid then
    let ordered ← boundAtMostChecked w.lower w.upper
    return !ordered
  else return false

theorem emptyChecked_eq (w : FrequencyWindow) : emptyChecked w = .ok w.empty := by
  rw [emptyChecked, FrequencyWindow.empty]
  cases hvalid : w.valid with
  | false => rfl
  | true =>
      obtain ⟨-, hlower, hupper, -⟩ := (FrequencyWindow.valid_iff w).mp hvalid
      rw [if_pos rfl, boundAtMostChecked_eq (FrequencyBound.denominator_pos_of_valid hlower)
        (FrequencyBound.denominator_pos_of_valid hupper), ok_bind, Bool.true_and]
      rfl

/-- `FrequencyWindow::contains`. -/
def containsChecked (w : FrequencyWindow) (actual : Ratio) : Checked Bool := do
  if !w.valid then return false
  else if ← emptyChecked w then return false
  else if !actual.positive then return false
  else
    let numerator ← multiply actual.numerator.toUInt64 1000000
    let value : FrequencyBound := { numerator := numerator, denominator := actual.denominator }
    if ← boundAtMostChecked w.lower value then boundAtMostChecked value w.upper
    else return false

theorem multiply_million (x : UInt32) :
    multiply x.toUInt64 1000000 = .ok (x.toUInt64 * 1000000) :=
  multiply_toUInt64 x 1000000

theorem containsChecked_eq (w : FrequencyWindow) (actual : Ratio) :
    containsChecked w actual = .ok (w.contains actual) := by
  rw [containsChecked, FrequencyWindow.contains, emptyChecked_eq]
  cases hvalid : w.valid with
  | false => rfl
  | true =>
      obtain ⟨-, hlower, hupper, -⟩ := (FrequencyWindow.valid_iff w).mp hvalid
      have hlower := FrequencyBound.denominator_pos_of_valid hlower
      have hupper := FrequencyBound.denominator_pos_of_valid hupper
      cases hempty : w.empty with
      | true => rfl
      | false =>
          cases hpositive : actual.positive with
          | false => rfl
          | true =>
              have hactual : 0 < (FrequencyWindow.microhertz actual).denominator.toNat :=
                ((Ratio.positive_iff actual).mp hpositive).2
              have hvalue : (FrequencyBound.mk (actual.numerator.toUInt64 * 1000000)
                  actual.denominator) = FrequencyWindow.microhertz actual :=
                rfl
              simp only [Bool.not_true, Bool.false_eq_true, if_false, ok_bind, multiply_million,
                hvalue, boundAtMostChecked_eq hlower hactual,
                boundAtMostChecked_eq hactual hupper, Bool.or_self]
              cases w.lower.atMost (FrequencyWindow.microhertz actual) <;> rfl

end Windows

end GrevirPeripherals.PwmSafeArithmetic
