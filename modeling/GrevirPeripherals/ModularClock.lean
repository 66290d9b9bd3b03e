import Mathlib.Data.BitVec

/-!
Readings of an unsigned `w`-bit clock against the unbounded time they are taken at.
As long as less than `2 ^ w` ticks pass, the wrapping difference of two readings is
the time between them.
-/

namespace GrevirPeripherals.ModularClock

section Elapsed

variable {w start now : Nat}

theorem ofNat_sub_ofNat (hle : start ≤ now) :
    BitVec.ofNat w now - BitVec.ofNat w start = BitVec.ofNat w (now - start) := by
  have hsplit : BitVec.ofNat w now = BitVec.ofNat w (now - start) + BitVec.ofNat w start := by
    rw [← BitVec.ofNat_add, Nat.sub_add_cancel hle]
  rw [hsplit, BitVec.add_sub_cancel]

variable (hle : start ≤ now) (hlt : now < start + 2 ^ w)

include hle hlt

theorem toNat_elapsed : (BitVec.ofNat w now - BitVec.ofNat w start).toNat = now - start := by
  rw [ofNat_sub_ofNat hle, BitVec.toNat_ofNat]
  apply Nat.mod_eq_of_lt
  omega

theorem lt_elapsed_iff (period : BitVec w) :
    period < BitVec.ofNat w now - BitVec.ofNat w start ↔ start + period.toNat < now := by
  rw [BitVec.lt_def, toNat_elapsed hle hlt]
  omega

theorem le_elapsed_iff (period : BitVec w) :
    period ≤ BitVec.ofNat w now - BitVec.ofNat w start ↔ start + period.toNat ≤ now := by
  rw [BitVec.le_def, toNat_elapsed hle hlt]
  omega

end Elapsed

section Samples

/-- The times of the samples up to `k` do not decrease, and no two consecutive ones are
so far apart that an interval which is still open at the first could wrap around. -/
def Sampled (w interval : Nat) (time : Nat → Nat) (k : Nat) : Prop :=
  ∀ i, i < k → time i ≤ time (i + 1) ∧ time (i + 1) + interval < time i + 2 ^ w

variable {w interval : Nat} {time : Nat → Nat} {k : Nat}

theorem Sampled.mono {k' : Nat} (h : Sampled w interval time k) (hle : k' ≤ k) :
    Sampled w interval time k' :=
  fun i hi => h i (hi.trans_le hle)

theorem Sampled.le {i j : Nat} (h : Sampled w interval time k) (hij : i ≤ j) (hjk : j ≤ k) :
    time i ≤ time j := by
  induction j, hij using Nat.le_induction with
  | base => exact le_rfl
  | succ j _ ih => exact (ih (Nat.le_of_succ_le hjk)).trans (h j hjk).1

/-- An interval that was open at every sample between does not wrap around. -/
theorem Sampled.lt_of_open {i limit : Nat} (h : Sampled w interval time k) (hik : i < k)
    (hlimit : limit ≤ interval) (hopen : ∀ j, i < j → j < k → time j < time i + limit) :
    time k < time i + 2 ^ w := by
  cases k with
  | zero => exact absurd hik (Nat.not_lt_zero i)
  | succ j =>
      have hgap := (h j (Nat.lt_succ_self j)).2
      rcases Nat.lt_succ_iff_lt_or_eq.mp hik with hij | rfl
      · have hlt := hopen j hij (Nat.lt_succ_self j)
        omega
      · omega

end Samples

end GrevirPeripherals.ModularClock
