import Mathlib.Order.Monotone.Basic
import Mathlib.Order.Nat

/-!
Calls that look at a schedule from time to time, and report the next of its dates if it has
passed. Where the dates are at least as far apart as the calls, the calls keep up with them.
-/

namespace GrevirPeripherals.SampledSchedule

section Calls

/-- The time of the call before the one with the given number. -/
def previous (start : Nat) (time : Nat → Nat) : Nat → Nat
  | 0 => start
  | i + 1 => time i

/-- No two calls in a row are more than `gap` apart. -/
structure Tight (gap start : Nat) (time : Nat → Nat) : Prop where
  le : ∀ i, previous start time i ≤ time i
  within : ∀ i, time i ≤ previous start time i + gap

theorem Tight.start_le {gap start : Nat} {time : Nat → Nat} (h : Tight gap start time) (i : Nat) :
    start ≤ previous start time i := by
  induction i with
  | zero => exact Nat.le_refl start
  | succ i ih => exact ih.trans (h.le i)

end Calls

/-- The dates follow the start at distances of at least `gap`. -/
structure Spaced (gap start : Nat) (due : Nat → Nat) : Prop where
  start : due 0 = start
  step : ∀ k, due k + gap ≤ due (k + 1)

/-- How many dates have been reported before a call. -/
def reported (due time : Nat → Nat) : Nat → Nat
  | 0 => 0
  | i + 1 =>
      if due (reported due time i + 1) < time i then reported due time i + 1
      else reported due time i

section Reports

variable {gap start : Nat} {due time : Nat → Nat}

theorem Spaced.monotone (h : Spaced gap start due) : Monotone due :=
  monotone_nat_of_le_succ fun k => (Nat.le_add_right _ gap).trans (h.step k)

theorem reported_succ_of_passed {i : Nat} (h : due (reported due time i + 1) < time i) :
    reported due time (i + 1) = reported due time i + 1 :=
  if_pos h

theorem reported_succ_of_not_passed {i : Nat} (h : ¬due (reported due time i + 1) < time i) :
    reported due time (i + 1) = reported due time i :=
  if_neg h

theorem reported_mono (due time : Nat → Nat) : Monotone (reported due time) := by
  apply monotone_nat_of_le_succ
  intro i
  rw [reported]
  split_ifs
  · exact Nat.le_succ _
  · exact Nat.le_refl _

variable (hspaced : Spaced gap start due) (htight : Tight gap start time)

include hspaced htight

/-- Before each call, the dates that have passed at the call before it are reported, and no
others are. -/
theorem caughtUp (i : Nat) :
    (reported due time i = 0 ∨ due (reported due time i) < previous start time i) ∧
      previous start time i ≤ due (reported due time i + 1) := by
  induction i with
  | zero =>
      refine ⟨Or.inl rfl, ?_⟩
      change start ≤ due (0 + 1)
      rw [← hspaced.start]
      exact hspaced.monotone (Nat.zero_le _)
  | succ i ih =>
      obtain ⟨hlast, hnext⟩ := ih
      have hle := htight.le i
      have hwithin := htight.within i
      change (_ ∨ _ < time i) ∧ time i ≤ _
      by_cases hpassed : due (reported due time i + 1) < time i
      · rw [reported_succ_of_passed hpassed]
        have hstep := hspaced.step (reported due time i + 1)
        exact ⟨Or.inr hpassed, by omega⟩
      · rw [reported_succ_of_not_passed hpassed]
        exact ⟨hlast.imp_right fun hlt => hlt.trans_le hle, Nat.le_of_not_lt hpassed⟩

theorem le_reported_iff {k : Nat} (hk : 1 ≤ k) (i : Nat) :
    k ≤ reported due time i ↔ due k < previous start time i := by
  obtain ⟨hlast, hnext⟩ := caughtUp hspaced htight i
  constructor
  · intro hle
    have hmono := hspaced.monotone hle
    rcases hlast with hzero | hlt
    · omega
    · exact hmono.trans_lt hlt
  · intro hlt
    by_contra hgt
    have hmono := hspaced.monotone (Nat.succ_le_of_lt (Nat.lt_of_not_le hgt))
    rw [Nat.succ_eq_add_one] at hmono
    omega

/-- A call reports the date that has passed since the call before it. -/
theorem passed_iff (i : Nat) :
    due (reported due time i + 1) < time i ↔
      ∃ k, 1 ≤ k ∧ previous start time i ≤ due k ∧ due k < time i := by
  constructor
  · intro hpassed
    exact ⟨_, Nat.succ_pos _, (caughtUp hspaced htight i).2, hpassed⟩
  · rintro ⟨k, hk, hle, hlt⟩
    have hmore : reported due time i + 1 ≤ k := by
      rw [Nat.add_one_le_iff, ← Nat.not_le, le_reported_iff hspaced htight hk]
      exact Nat.not_lt.mpr hle
    exact (hspaced.monotone hmore).trans_lt hlt

theorem le_due_add_gap (i : Nat) : time i ≤ due (reported due time i + 1) + gap :=
  (htight.within i).trans (Nat.add_le_add_right (caughtUp hspaced htight i).2 gap)

theorem due_reported_le (i : Nat) : due (reported due time i) ≤ time i := by
  rcases (caughtUp hspaced htight i).1 with hzero | hlt
  · rw [hzero, hspaced.start]
    exact (htight.start_le i).trans (htight.le i)
  · exact hlt.le.trans (htight.le i)

/-- A date is reported at the first call after it. -/
theorem reported_of_first {k j : Nat} (hk : 1 ≤ k) (hpassed : due k < time j)
    (hfirst : previous start time j ≤ due k) : reported due time j + 1 = k := by
  apply Nat.le_antisymm
  · rw [Nat.add_one_le_iff, ← Nat.not_le, le_reported_iff hspaced htight hk]
    exact Nat.not_lt.mpr hfirst
  · obtain ⟨l, rfl⟩ := Nat.exists_eq_add_of_le hk
    rw [Nat.add_comm, Nat.add_le_add_iff_right]
    rcases Nat.eq_zero_or_pos l with rfl | hl
    · exact Nat.zero_le _
    · rw [le_reported_iff hspaced htight hl]
      have hstep := hspaced.step l
      have hwithin := htight.within j
      rw [Nat.add_comm 1 l] at hpassed
      omega

/-- Once a date has passed at a call, exactly one call has reported it. -/
theorem existsUnique_report {k i : Nat} (hk : 1 ≤ k) (hpassed : due k < time i) :
    ∃! j, due (reported due time j + 1) < time j ∧ reported due time j + 1 = k := by
  classical
  have hexists : ∃ j, due k < time j := ⟨i, hpassed⟩
  have hfound : due k < time (Nat.find hexists) := Nat.find_spec hexists
  have hfirst : previous start time (Nat.find hexists) ≤ due k := by
    cases hj : Nat.find hexists with
    | zero =>
        change start ≤ due k
        rw [← hspaced.start]
        exact hspaced.monotone (Nat.zero_le k)
    | succ j =>
        have hlt : j < Nat.find hexists := by omega
        exact Nat.le_of_not_lt (Nat.find_min hexists hlt)
  have hreported := reported_of_first hspaced htight hk hfound hfirst
  refine ⟨Nat.find hexists, ⟨by rwa [hreported], hreported⟩, ?_⟩
  have hapart : ∀ a b, a < b → due (reported due time a + 1) < time a →
      reported due time a + 1 = k → reported due time b + 1 ≠ k := by
    intro a b hab hreport ha hb
    have hmono := reported_mono due time (Nat.succ_le_of_lt hab)
    rw [Nat.succ_eq_add_one, reported_succ_of_passed hreport] at hmono
    omega
  rintro j ⟨hreport, hj⟩
  rcases Nat.lt_trichotomy j (Nat.find hexists) with hlt | heq | hgt
  · exact absurd hreported (hapart _ _ hlt hreport hj)
  · exact heq
  · exact absurd hj (hapart _ _ hgt (by rwa [hreported]) hreported)

end Reports

end GrevirPeripherals.SampledSchedule
