import GrevirPeripherals.CheckedExecution
import GrevirPeripherals.PwmNumeric

/-!
The loop of `fraction_at_most` round by round: how many rounds it takes, and that no
round divides by zero.
-/

namespace GrevirPeripherals.PwmFractionRounds

open GrevirPeripherals.CheckedExecution
open GrevirPeripherals.PwmNumeric

/-- The variables of the loop. -/
structure Round where
  reversed : Bool
  an : UInt64
  ad : UInt64
  bn : UInt64
  bd : UInt64

/-- The body of the loop, which returns or goes on with the reciprocals of the remainders. -/
def Round.next (r : Round) : Checked (Bool ⊕ Round) := do
  let aq ← divide r.an r.ad
  let bq ← divide r.bn r.bd
  if aq ≠ bq then
    return .inl (if r.reversed then decide (aq > bq) else decide (aq < bq))
  else
    let ar ← remainder r.an r.ad
    let br ← remainder r.bn r.bd
    if ar = 0 ∨ br = 0 then
      return .inl (if r.reversed then decide (br = 0) else decide (ar = 0))
    else
      return .inr { reversed := !r.reversed, an := r.ad, ad := ar, bn := r.bd, bd := br }

/-- The loop, given up with `none` when it has not returned after so many rounds. -/
def rounds : Nat → Round → Checked (Option Bool)
  | 0, _ => .ok none
  | limit + 1, r => do
      match ← r.next with
      | .inl result => return some result
      | .inr next => rounds limit next

/-- Both denominators are positive. -/
structure Round.Proper (r : Round) : Prop where
  ad : r.ad ≠ 0
  bd : r.bd ≠ 0

/-- What the loop returns from here on. -/
def Round.result (r : Round) : Option Bool :=
  fractionAtMostLoop r.reversed r.an r.ad r.bn r.bd

/-- A round returns the result, or leaves it to a round with a smaller denominator. -/
theorem Round.Proper.next {r : Round} (h : r.Proper) :
    (∃ result, r.next = .ok (.inl result) ∧ r.result = some result) ∨
      ∃ r', r.next = .ok (.inr r') ∧ r'.Proper ∧ r'.ad.toNat < r.ad.toNat ∧
        r'.result = r.result := by
  have hzero : ¬(r.ad = 0 ∨ r.bd = 0) := not_or.mpr ⟨h.ad, h.bd⟩
  simp only [Round.next, divide_eq_ok h.ad, divide_eq_ok h.bd, remainder_eq_ok h.ad,
    remainder_eq_ok h.bd, ok_bind, pure_eq_ok]
  by_cases hquotient : r.an / r.ad ≠ r.bn / r.bd
  · refine Or.inl ⟨_, if_pos hquotient, ?_⟩
    rw [result, fractionAtMostLoop, if_neg hzero, if_pos hquotient]
  · by_cases hremainder : r.an % r.ad = 0 ∨ r.bn % r.bd = 0
    · refine Or.inl ⟨_, (if_neg hquotient).trans (if_pos hremainder), ?_⟩
      rw [result, fractionAtMostLoop, if_neg hzero, if_neg hquotient, if_pos hremainder]
    · refine Or.inr ⟨_, (if_neg hquotient).trans (if_neg hremainder), ?_, ?_, ?_⟩
      · exact ⟨fun ha => hremainder (Or.inl ha), fun hb => hremainder (Or.inr hb)⟩
      · rw [UInt64.toNat_mod]
        exact Nat.mod_lt _ (toNat_pos h.ad)
      · symm
        rw [result, fractionAtMostLoop, if_neg hzero, if_neg hquotient, if_neg hremainder]
        rfl

/-- The denominator bounds the number of rounds. -/
theorem Round.Proper.rounds_eq {r : Round} (h : r.Proper) {limit : Nat}
    (hlimit : r.ad.toNat ≤ limit) : rounds limit r = .ok r.result := by
  induction limit generalizing r with
  | zero =>
      have hpos := toNat_pos h.ad
      omega
  | succ limit ih =>
      rw [rounds]
      rcases h.next with ⟨result, hnext, hresult⟩ | ⟨r', hnext, hproper, hlt, hresult⟩
      · rw [hnext, ok_bind, hresult]
        rfl
      · rw [hnext, ok_bind, ← hresult]
        exact ih hproper (by omega)

/-- For positive denominators the loop returns within `ad` rounds, divides by zero in
none of them, and decides the order of the exact fractions. -/
theorem fraction_order_decided (an ad bn bd : UInt64) (ha : 0 < ad) (hb : 0 < bd) {limit : Nat}
    (hlimit : ad.toNat ≤ limit) :
    rounds limit { reversed := false, an, ad, bn, bd } =
        .ok (some (decide (an.toNat * bd.toNat ≤ bn.toNat * ad.toNat))) ∧
      fractionAtMost an ad bn bd =
        some (decide (an.toNat * bd.toNat ≤ bn.toNat * ad.toNat)) := by
  have hne : ∀ x : UInt64, 0 < x → x ≠ 0 := by
    rintro x hx rfl
    exact absurd hx (by decide)
  have hresult := fractionAtMost_eq an ad bn bd (hne ad ha) (hne bd hb)
  refine ⟨?_, hresult⟩
  have hproper : Round.Proper { reversed := false, an, ad, bn, bd } := ⟨hne ad ha, hne bd hb⟩
  rw [hproper.rounds_eq hlimit, ← hresult]
  rfl

/-- The cross products of these fractions do not fit 64 bits. -/
theorem large_fraction_order_decided :
    rounds 5 ⟨false, 18446744073709551615, 5, 18446744073709551614, 7⟩ = .ok (some false) ∧
      fractionAtMost 18446744073709551615 5 18446744073709551614 7 = some false :=
  fraction_order_decided 18446744073709551615 5 18446744073709551614 7 (by decide) (by decide)
    (by decide)

end GrevirPeripherals.PwmFractionRounds
