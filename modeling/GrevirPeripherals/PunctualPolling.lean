import GrevirPeripherals.FinitePolling
import GrevirPeripherals.SampledSchedule

/-!
The pollers of `time_poller.hpp` in a loop that polls often enough. No period of the
schedule is missed or reported twice, and delays do not add up.
-/

namespace GrevirPeripherals.PunctualPolling

open GrevirPeripherals.CallRuns
open GrevirPeripherals.FinitePolling
open GrevirPeripherals.SampledSchedule
open GrevirPeripherals.TimePolling

variable {w : Nat} {seq : Sequence (BitVec w)}

/-- When the period with the given number ends; the start counts as the end of period zero. -/
def due (seq : Sequence (BitVec w)) (start k : Nat) : Nat :=
  start + periodSum seq k

/-- The clock can tell how far the loop is behind, and no period is shorter than the loop. -/
def Resolves (seq : Sequence (BitVec w)) (gap : Nat) : Prop :=
  ∀ j, gap ≤ (seq.get j).toNat ∧ (seq.get j).toNat + gap < 2 ^ w

theorem due_succ (seq : Sequence (BitVec w)) (start k : Nat) :
    due seq start (k + 1) = due seq start k + (seq.get (k % seq.count)).toNat := by
  rw [due, due, periodSum_succ, Nat.add_assoc]

theorem Resolves.spaced {gap : Nat} (h : Resolves seq gap) (start : Nat) :
    Spaced gap start (due seq start) where
  start := by simp [due, periodSum]
  step k := by
    rw [due_succ]
    exact Nat.add_le_add_left (h _).1 _

/-- The loop is never as far behind the schedule as the clock wraps around. -/
theorem lt_due_add {gap start : Nat} {time : Nat → Nat} (hresolves : Resolves seq gap)
    (htight : Tight gap start time) (i : Nat) :
    time i < due seq start (reported (due seq start) time i) + 2 ^ w := by
  have hlate := le_due_add_gap (hresolves.spaced start) htight i
  have hfits := (hresolves (reported (due seq start) time i % seq.count)).2
  rw [due_succ] at hlate
  omega

section Cyclic

variable (cyclic : CyclicInt seq.count) (start : Nat) (time : Nat → Nat)

/-- The poller before the call with the given number. -/
def pollerAt : Nat → Observed cyclic
  | 0 => .initial cyclic start
  | i + 1 => (pollerAt i).poll (time i)

/-- The call returns `true`. -/
def Expires (i : Nat) : Prop :=
  (pollerAt cyclic start time i).expires (time i) = true

/-- What a loop with short rounds sees of the schedule. -/
structure Punctual (cyclic : CyclicInt seq.count) (gap start : Nat) (time : Nat → Nat) : Prop where
  expires : ∀ i, Expires cyclic start time i ↔
    ∃ k, 1 ≤ k ∧ previous start time i ≤ due seq start k ∧ due seq start k < time i
  once : ∀ k i, 1 ≤ k → due seq start k < time i →
    ∃! j, Expires cyclic start time j ∧ (pollerAt cyclic start time j).expirations + 1 = k
  late : ∀ i, Expires cyclic start time i →
    time i ≤ due seq start ((pollerAt cyclic start time i).expirations + 1) + gap
  counted : ∀ i k, 1 ≤ k → (k ≤ (pollerAt cyclic start time i).expirations ↔
    due seq start k < previous start time i)
  state : ∀ i, (pollerAt cyclic start time i).poller.state =
    (pollerAt cyclic start time i).expirations % seq.count

variable {start time} {gap : Nat} (hresolves : Resolves seq gap)
  (htight : Tight gap start time)

include hresolves htight

/-- The calls of the loop have reported as many periods as the schedule asks for. -/
theorem reaches_pollerAt (i : Nat) :
    Reaches cyclic start (previous start time i) (pollerAt cyclic start time i) ∧
      (pollerAt cyclic start time i).expirations = reported (due seq start) time i ∧
        time i < (pollerAt cyclic start time i).schedule + 2 ^ w := by
  have hroom (i : Nat) (o : Observed cyclic) (h : Tracks start (previous start time i) o)
      (hexpirations : o.expirations = reported (due seq start) time i) :
      time i < o.schedule + 2 ^ w := by
    have hlt := lt_due_add hresolves htight i
    rwa [← hexpirations, due, ← h.schedule] at hlt
  induction i with
  | zero => exact ⟨.start, rfl, hroom 0 _ tracks_initial rfl⟩
  | succ i ih =>
      obtain ⟨hreaches, hexpirations, hlt⟩ := ih
      have hnext := hreaches.poll (time i) (htight.le i) hlt
      have htracks := hreaches.tracks.mono (htight.le i)
      have hexpires : (pollerAt cyclic start time i).expires (time i) = true ↔
          due seq start (reported (due seq start) time i + 1) < time i := by
        rw [htracks.expires_iff hlt, htracks.period, htracks.schedule, hexpirations, due_succ, due]
      have hsucc : (pollerAt cyclic start time (i + 1)).expirations =
          reported (due seq start) time (i + 1) := by
        rw [reported, ← hexpirations]
        simp only [pollerAt, Observed.poll, hexpires, hexpirations]
      exact ⟨hnext, hsucc, hroom (i + 1) _ hnext.tracks hsucc⟩

theorem expires_iff (i : Nat) :
    Expires cyclic start time i ↔ due seq start (reported (due seq start) time i + 1) < time i := by
  obtain ⟨hreaches, hexpirations, hlt⟩ := reaches_pollerAt cyclic hresolves htight i
  have htracks := hreaches.tracks.mono (htight.le i)
  rw [Expires, htracks.expires_iff hlt, htracks.period, htracks.schedule, hexpirations, due_succ,
    due]

/-- A poller in a loop whose rounds are no longer than its periods reports each of them once,
at the first call after its end, however often the clock has wrapped around. -/
theorem polls_punctual : Punctual cyclic gap start time := by
  have hspaced := hresolves.spaced start
  have hreaches := fun i => reaches_pollerAt cyclic hresolves htight i
  constructor
  case expires =>
    intro i
    rw [expires_iff cyclic hresolves htight, passed_iff hspaced htight]
  case once =>
    intro k i hk hpassed
    simp only [expires_iff cyclic hresolves htight, (hreaches _).2.1]
    exact existsUnique_report hspaced htight hk hpassed
  case late =>
    intro i _
    rw [(hreaches i).2.1]
    exact le_due_add_gap hspaced htight i
  case counted =>
    intro i k hk
    rw [(hreaches i).2.1]
    exact le_reported_iff hspaced htight hk i
  case state => exact fun i => (hreaches i).1.tracks.state

end Cyclic

section Rounds

theorem twoPeriods_resolves : Resolves twoPeriods 4 := by
  rintro (_ | j)
  · decide
  · exact ⟨by simp [twoPeriods, Sequence.get], by simp [twoPeriods, Sequence.get]⟩

/-- Rounds of four ticks, across the wraparound of the clock. -/
theorem rounds_tight : Tight 4 250 fun i => 250 + 4 * (i + 1) := by
  constructor
  · rintro (_ | i)
    · exact Nat.le_add_right _ _
    · exact Nat.add_le_add_left (by omega) _
  · rintro (_ | i)
    · exact Nat.le_refl _
    · exact (by omega : 250 + 4 * (i + 1 + 1) ≤ 250 + 4 * (i + 1) + 4)

theorem twoPeriods_punctual :
    Punctual (natCyclic twoPeriods.count) 4 250 fun i => 250 + 4 * (i + 1) :=
  polls_punctual _ twoPeriods_resolves rounds_tight

end Rounds

section Finite

variable {s : Nat} (poller : TimerSequencePoller seq s) (start : Nat) (time : Nat → Nat)

/-- The calls before the one with the given number. -/
def calls (w : Nat) (time : Nat → Nat) (i : Nat) : List (Call w) :=
  (List.range i).map fun j => .poll (BitVec.ofNat w (time j))

/-- The poller of one pass before the call with the given number, after a reset. -/
def finiteAt (i : Nat) : TimerSequencePoller seq s :=
  after finiteStep (poller.reset (BitVec.ofNat w start)) (calls w time i)

theorem calls_succ (time : Nat → Nat) (i : Nat) :
    calls w time (i + 1) = calls w time i ++ [.poll (BitVec.ofNat w (time i))] := by
  rw [calls, calls, List.range_succ, List.map_append]
  rfl

theorem finiteAt_succ (i : Nat) :
    finiteAt poller start time (i + 1) =
      ((finiteAt poller start time i).poll (BitVec.ofNat w (time i))).2 := by
  rw [finiteAt, calls_succ, after_concat]
  rfl

/-- What a loop with short rounds sees of one pass over the sequence. -/
structure PassPunctual (poller : TimerSequencePoller seq s) (start : Nat) (time : Nat → Nat) :
    Prop where
  expires : ∀ i, ((finiteAt poller start time i).poll (BitVec.ofNat w (time i))).1 = true ↔
    ∃ k, 1 ≤ k ∧ k ≤ seq.count ∧ previous start time i ≤ due seq start k ∧
      due seq start k < time i
  counted : ∀ i k, 1 ≤ k → k ≤ seq.count → (k ≤ (finiteAt poller start time i).state.toNat ↔
    due seq start k < previous start time i)
  finished : ∀ i, (finiteAt poller start time i).hasFinished = true ↔
    due seq start seq.count < previous start time i

/-- The poller stands where so many periods have been reported, or has gone through all. -/
structure PassTracks (poller : TimerSequencePoller seq s) (start count : Nat) : Prop where
  state : poller.state.toNat = min seq.count count
  fromTime : count < seq.count → poller.poller.fromTime = BitVec.ofNat w (due seq start count)

theorem one_le_count (seq : Sequence (BitVec w)) : 1 ≤ seq.count := by
  cases seq with
  | last value => exact Nat.le_refl 1
  | cons value rest => exact Nat.le_add_right 1 _

theorem passTracks_reset : PassTracks (poller.reset (BitVec.ofNat w start)) start 0 where
  state := BitVec.toNat_zero.trans (Nat.min_zero _).symm
  fromTime _ := by simp [due, periodSum, TimerSequencePoller.reset, TimePoller.reset,
    TimePoller.setNow]

variable {poller start} {count now : Nat}

theorem PassTracks.hasFinished_iff (h : PassTracks poller start count) :
    poller.hasFinished = true ↔ seq.count ≤ count := by
  rw [TimerSequencePoller.hasFinished_iff, h.state, le_min_iff]
  exact and_iff_right le_rfl

theorem PassTracks.poll (h : PassTracks poller start count) (hfits : seq.count < 2 ^ s)
    (hle : due seq start count ≤ now) (hlt : now < due seq start count + 2 ^ w) :
    ((poller.poll (BitVec.ofNat w now)).1 = true ↔
        count < seq.count ∧ due seq start (count + 1) < now) ∧
      PassTracks (poller.poll (BitVec.ofNat w now)).2 start
        (if due seq start (count + 1) < now then count + 1 else count) := by
  rcases Nat.lt_or_ge count seq.count with hunfinished | hfinished
  · have hstate : poller.state.toNat = count := by rw [h.state, min_eq_right hunfinished.le]
    have helapsed : BitVec.ofNat w now - poller.poller.fromTime > seq.get poller.state.toNat ↔
        due seq start (count + 1) < now := by
      rw [h.fromTime hunfinished, hstate, due_succ, Nat.mod_eq_of_lt hunfinished]
      exact ModularClock.lt_elapsed_iff hle hlt _
    have hstateLt : poller.state.toNat < seq.count := hstate.trans_lt hunfinished
    rw [TimerSequencePoller.poll_of_unfinished hstateLt]
    simp only [helapsed]
    split_ifs with hpassed
    · refine ⟨iff_of_true rfl ⟨hunfinished, hpassed⟩, ?_, fun _ => ?_⟩
      · change (poller.state + 1).toNat = _
        rw [toNat_succ_state hfits hstateLt, hstate, min_eq_right hunfinished]
      · change poller.poller.fromTime + seq.get poller.state.toNat = _
        rw [h.fromTime hunfinished, hstate, due_succ, Nat.mod_eq_of_lt hunfinished,
          BitVec.ofNat_add, BitVec.ofNat_toNat, BitVec.setWidth_eq]
    · exact ⟨iff_of_false (by simp) fun hboth => hpassed hboth.2, h⟩
  · rw [TimerSequencePoller.poll_of_finished (h.hasFinished_iff.mpr hfinished)]
    refine ⟨iff_of_false Bool.false_ne_true fun hboth => absurd hboth.1 hfinished.not_gt, ?_⟩
    split_ifs
    · refine ⟨?_, fun hlt => absurd hlt (by omega)⟩
      rw [h.state]
      omega
    · exact h

theorem passTracks_finiteAt {gap : Nat} {time : Nat → Nat} (hresolves : Resolves seq gap)
    (htight : Tight gap start time) (hfits : seq.count < 2 ^ s)
    (poller : TimerSequencePoller seq s) (i : Nat) :
    PassTracks (finiteAt poller start time i) start (reported (due seq start) time i) := by
  induction i with
  | zero => exact passTracks_reset poller start
  | succ i ih =>
      have hle := due_reported_le (hresolves.spaced start) htight i
      rw [finiteAt_succ]
      exact (ih.poll hfits hle (lt_due_add hresolves htight i)).2

/-- One pass over the sequence reports each of its periods once, at the first call after the
end of the period, and the poller has finished from the last of these calls on. -/
theorem pass_punctual {gap : Nat} {time : Nat → Nat} (hresolves : Resolves seq gap)
    (htight : Tight gap start time) (hfits : seq.count < 2 ^ s)
    (poller : TimerSequencePoller seq s) : PassPunctual poller start time := by
  have hspaced := hresolves.spaced start
  have htracks := passTracks_finiteAt hresolves htight hfits poller
  constructor
  case expires =>
    intro i
    have hle := due_reported_le hspaced htight i
    rw [((htracks i).poll hfits hle (lt_due_add hresolves htight i)).1]
    constructor
    · rintro ⟨hunfinished, hpassed⟩
      exact ⟨_, Nat.succ_pos _, hunfinished, (caughtUp hspaced htight i).2, hpassed⟩
    · rintro ⟨k, hk, hcount, hfirst, hpassed⟩
      obtain rfl := reported_of_first hspaced htight hk hpassed hfirst
      exact ⟨hcount, hpassed⟩
  case counted =>
    intro i k hk hcount
    rw [(htracks i).state, ← le_reported_iff hspaced htight hk, le_min_iff]
    exact and_iff_right hcount
  case finished =>
    intro i
    rw [(htracks i).hasFinished_iff]
    exact le_reported_iff hspaced htight (one_le_count seq) i

theorem twoPeriods_pass_punctual :
    PassPunctual (⟨⟨7, 0⟩⟩ : TimerSequencePoller twoPeriods 8) 250 fun i => 250 + 4 * (i + 1) :=
  pass_punctual twoPeriods_resolves rounds_tight (by decide) _

end Finite

end GrevirPeripherals.PunctualPolling
