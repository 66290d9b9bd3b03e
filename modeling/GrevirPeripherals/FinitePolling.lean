import GrevirPeripherals.CallRuns
import GrevirPeripherals.TimePolling

/-!
The poller of `time_poller.hpp` that goes through its sequence once, against the cyclic
one: the same results up to the end of the sequence, and none after it until a reset.
-/

namespace GrevirPeripherals.FinitePolling

open GrevirPeripherals.CallRuns
open GrevirPeripherals.TimePolling

section Model

variable {w s : Nat}

/-- `TimerSequencePoller<Sequence, Clock, StateType>` with a `StateType` of `s` bits. -/
structure TimerSequencePoller (seq : Sequence (BitVec w)) (s : Nat) where
  poller : TimePoller (BitVec s) w

namespace TimerSequencePoller

variable {seq : Sequence (BitVec w)}

def state (poller : TimerSequencePoller seq s) : BitVec s :=
  poller.poller.state

def hasFinished (poller : TimerSequencePoller seq s) : Bool :=
  seq.count ≤ poller.poller.state.toNat

def poll (poller : TimerSequencePoller seq s) (now : BitVec w) :
    Bool × TimerSequencePoller seq s :=
  if poller.hasFinished then (false, poller)
  else
    let result := poller.poller.poll (fun state => state + 1) (seq.get poller.state.toNat) now
    (result.1, ⟨result.2⟩)

def reset (poller : TimerSequencePoller seq s) (now : BitVec w) : TimerSequencePoller seq s where
  poller := poller.poller.reset 0 now

def init (poller : TimerSequencePoller seq s) (now : BitVec w) : TimerSequencePoller seq s where
  poller := poller.poller.setNow now

/-- What the next `poll` passes to `Sequence::get`. -/
def lookups (poller : TimerSequencePoller seq s) : List Nat :=
  if poller.hasFinished then [] else [poller.state.toNat]

theorem hasFinished_iff (poller : TimerSequencePoller seq s) :
    poller.hasFinished = true ↔ seq.count ≤ poller.state.toNat :=
  decide_eq_true_iff

theorem poll_of_finished {poller : TimerSequencePoller seq s}
    (h : poller.hasFinished = true) (now : BitVec w) : poller.poll now = (false, poller) :=
  if_pos h

theorem poll_of_unfinished {poller : TimerSequencePoller seq s}
    (h : poller.state.toNat < seq.count) (now : BitVec w) :
    poller.poll now =
      if now - poller.poller.fromTime > seq.get poller.state.toNat then
        (true, ⟨poller.state + 1, poller.poller.fromTime + seq.get poller.state.toNat⟩)
      else (false, poller) := by
  rw [poll, if_neg ((hasFinished_iff poller).not.mpr h.not_ge), TimePoller.poll]
  split_ifs <;> rfl

/-- The same poller with another sequence. -/
def withSequence (poller : TimerSequencePoller seq s) (other : Sequence (BitVec w)) :
    TimerSequencePoller other s where
  poller := poller.poller

/-- All that a call reads of the sequence is its count and the period at the lookup. -/
theorem poll_withSequence {poller : TimerSequencePoller seq s} {other : Sequence (BitVec w)}
    (hcount : other.count = seq.count)
    (hget : ∀ index ∈ poller.lookups, other.get index = seq.get index) (now : BitVec w) :
    (poller.withSequence other).poll now =
      ((poller.poll now).1, (poller.poll now).2.withSequence other) := by
  have hfinished : (poller.withSequence other).hasFinished = poller.hasFinished := by
    rw [hasFinished, hasFinished, hcount]
    rfl
  by_cases h : poller.hasFinished = true
  · rw [poll_of_finished (hfinished.trans h), poll_of_finished h]
  · rw [lookups, if_neg h] at hget
    have hperiod := hget _ (List.mem_singleton_self _)
    have hlt := not_le.mp ((hasFinished_iff poller).not.mp h)
    have hlt' : (poller.withSequence other).state.toNat < other.count := hlt.trans_eq hcount.symm
    rw [poll_of_unfinished hlt, poll_of_unfinished hlt']
    change (if now - poller.poller.fromTime > other.get poller.state.toNat then _ else _) = _
    rw [hperiod]
    split_ifs
    · rw [← hperiod]
      rfl
    · rfl

end TimerSequencePoller

/-- What an application calls between two resets, with the clock reading of the call. -/
inductive Call (w : Nat) where
  | poll (now : BitVec w)
  | init (now : BitVec w)
deriving DecidableEq

variable {seq : Sequence (BitVec w)} {cyclic : CyclicInt seq.count}

def finiteStep (poller : TimerSequencePoller seq s) :
    Call w → List Bool × TimerSequencePoller seq s
  | .poll now => ([(poller.poll now).1], (poller.poll now).2)
  | .init now => ([], poller.init now)

def cyclicStep (poller : CyclicTimeSequencePoller cyclic) :
    Call w → List Bool × CyclicTimeSequencePoller cyclic
  | .poll now => ([(poller.poll now).1], (poller.poll now).2)
  | .init now => ([], poller.init now)

/-- How many of the calls returned `true`. -/
def expirations (results : List Bool) : Nat :=
  results.count true

theorem expirations_append (results more : List Bool) :
    expirations (results ++ more) = expirations results + expirations more :=
  List.count_append

end Model

section Finished

variable {w s : Nat} {seq : Sequence (BitVec w)} {poller : TimerSequencePoller seq s}

/-- A finished poller returns `false` and keeps its state. -/
theorem finiteStep_of_finished (h : poller.hasFinished = true) (call : Call w) :
    (finiteStep poller call).2.state = poller.state ∧
      ∀ result ∈ (finiteStep poller call).1, result = false := by
  cases call with
  | poll now => simp [finiteStep, TimerSequencePoller.poll_of_finished h]
  | init now => exact ⟨rfl, by simp [finiteStep]⟩

theorem finished_of_state_eq {other : TimerSequencePoller seq s}
    (hstate : other.state = poller.state) (h : poller.hasFinished = true) :
    other.hasFinished = true := by
  rw [TimerSequencePoller.hasFinished_iff] at h ⊢
  rwa [hstate]

/-- No calls revive it. -/
theorem after_of_finished (h : poller.hasFinished = true) (calls : List (Call w)) :
    (after finiteStep poller calls).state = poller.state ∧
      ∀ result ∈ returned finiteStep poller calls, result = false := by
  refine run_induction (I := fun results (p : TimerSequencePoller seq s) =>
    p.state = poller.state ∧ ∀ result ∈ results, result = false) ⟨rfl, by simp⟩ ?_ calls
  rintro before p call ⟨hstate, hbefore⟩
  obtain ⟨hkept, hfalse⟩ := finiteStep_of_finished (finished_of_state_eq hstate h) call
  refine ⟨hkept.trans hstate, ?_⟩
  intro result hresult
  rcases List.mem_append.mp hresult with hresult | hresult
  · exact hbefore result hresult
  · exact hfalse result hresult

end Finished

section Progress

variable {w s : Nat} {seq : Sequence (BitVec w)}

/-- The state type can represent the state after the next expiration. -/
theorem toNat_succ_state (hfits : seq.count < 2 ^ s) {poller : TimerSequencePoller seq s}
    (hlt : poller.state.toNat < seq.count) :
    (poller.state + 1).toNat = poller.state.toNat + 1 := by
  change (poller.state + 1#s).toNat = _
  rw [BitVec.toNat_add, BitVec.toNat_ofNat, Nat.add_mod_mod]
  exact Nat.mod_eq_of_lt (Nat.lt_of_le_of_lt hlt hfits)

/-- The state counts the expirations and stops at the end of the sequence. -/
def Counts (results : List Bool) (poller : TimerSequencePoller seq s) : Prop :=
  poller.state.toNat = expirations results ∧ expirations results ≤ seq.count

theorem Counts.hasFinished_iff {results : List Bool} {poller : TimerSequencePoller seq s}
    (h : Counts results poller) :
    poller.hasFinished = true ↔ expirations results = seq.count := by
  rw [TimerSequencePoller.hasFinished_iff, h.1]
  exact ⟨fun hle => le_antisymm h.2 hle, fun heq => heq.ge⟩

theorem Counts.step (hfits : seq.count < 2 ^ s) {results : List Bool}
    {poller : TimerSequencePoller seq s} (h : Counts results poller) (call : Call w) :
    Counts (results ++ (finiteStep poller call).1) (finiteStep poller call).2 := by
  rw [Counts, expirations_append]
  cases call with
  | init now => exact h
  | poll now =>
      simp only [finiteStep]
      by_cases hfinished : poller.hasFinished = true
      · rw [TimerSequencePoller.poll_of_finished hfinished]
        exact h
      · have hlt : poller.state.toNat < seq.count := by
          rw [← not_le, ← TimerSequencePoller.hasFinished_iff]
          exact hfinished
        rw [TimerSequencePoller.poll_of_unfinished hlt]
        split_ifs
        · have hone : expirations [true] = 1 := rfl
          change (poller.state + 1).toNat = _ ∧ _
          rw [toNat_succ_state hfits hlt, hone, ← h.1]
          exact ⟨rfl, hlt⟩
        · exact h

theorem counts_run (hfits : seq.count < 2 ^ s) (poller : TimerSequencePoller seq s)
    (start : BitVec w) (calls : List (Call w)) :
    Counts (returned finiteStep (poller.reset start) calls)
      (after finiteStep (poller.reset start) calls) :=
  run_induction ⟨BitVec.toNat_zero, Nat.zero_le _⟩ (fun _ _ call h => h.step hfits call) calls

end Progress

section Prefix

variable {w s : Nat} {seq : Sequence (BitVec w)} {cyclic : CyclicInt seq.count}

/-- Before the end of the sequence the two pollers are at the same place of it. -/
structure Aligned (finite : TimerSequencePoller seq s)
    (cyclicPoller : CyclicTimeSequencePoller cyclic) : Prop where
  fromTime : finite.poller.fromTime = cyclicPoller.poller.fromTime
  state : finite.state.toNat = cyclicPoller.state

variable {finite : TimerSequencePoller seq s} {cyclicPoller : CyclicTimeSequencePoller cyclic}

theorem aligned_reset (finite : TimerSequencePoller seq s)
    (cyclicPoller : CyclicTimeSequencePoller cyclic) (start : BitVec w) :
    Aligned (finite.reset start) (cyclicPoller.reset start) where
  fromTime := rfl
  state := BitVec.toNat_zero.trans cyclic.get_initial.symm

/-- The call that ends the sequence still returns what the cyclic poller returns. -/
theorem Aligned.step (h : Aligned finite cyclicPoller) (hfits : seq.count < 2 ^ s)
    (hlt : finite.state.toNat < seq.count) (call : Call w) :
    (finiteStep finite call).1 = (cyclicStep cyclicPoller call).1 ∧
      ((finiteStep finite call).2.state.toNat < seq.count →
        Aligned (finiteStep finite call).2 (cyclicStep cyclicPoller call).2) := by
  cases call with
  | init now => exact ⟨rfl, fun _ => ⟨rfl, h.state⟩⟩
  | poll now =>
      have hperiod : seq.get finite.state.toNat = cyclicPoller.period := by
        rw [CyclicTimeSequencePoller.period, h.state]
      simp only [finiteStep, cyclicStep]
      rw [TimerSequencePoller.poll_of_unfinished hlt, CyclicTimeSequencePoller.poll_eq, hperiod,
        h.fromTime]
      split_ifs with hexpired
      · refine ⟨rfl, fun hnext => ⟨rfl, ?_⟩⟩
        have htoNat := toNat_succ_state hfits hlt
        change (finite.state + 1).toNat < seq.count at hnext
        change (finite.state + 1).toNat = cyclic.get (cyclic.increment cyclicPoller.poller.state)
        rw [htoNat] at hnext ⊢
        rw [cyclic.get_increment, ← CyclicTimeSequencePoller.state, ← h.state,
          Nat.mod_eq_of_lt hnext]
      · exact ⟨rfl, fun _ => h⟩

theorem aligned_run (hfits : seq.count < 2 ^ s) (finite : TimerSequencePoller seq s)
    (cyclicPoller : CyclicTimeSequencePoller cyclic) (start : BitVec w) (calls : List (Call w))
    (hlt : expirations (returned finiteStep (finite.reset start) calls) < seq.count) :
    returned finiteStep (finite.reset start) calls =
        returned cyclicStep (cyclicPoller.reset start) calls ∧
      Aligned (after finiteStep (finite.reset start) calls)
        (after cyclicStep (cyclicPoller.reset start) calls) := by
  induction calls using List.reverseRecOn with
  | nil => exact ⟨rfl, aligned_reset finite cyclicPoller start⟩
  | append_singleton calls call ih =>
      have hcounts := counts_run hfits finite start calls
      have hcounts' := counts_run hfits finite start (calls ++ [call])
      have hbefore : expirations (returned finiteStep (finite.reset start) calls) < seq.count := by
        rw [returned_concat, expirations_append] at hlt
        exact (Nat.le_add_right _ _).trans_lt hlt
      obtain ⟨hreturned, haligned⟩ := ih hbefore
      rw [← hcounts'.1, after_concat] at hlt
      obtain ⟨hresult, hnext⟩ := haligned.step hfits (hcounts.1.trans_lt hbefore) call
      rw [returned_concat, returned_concat, after_concat, after_concat, hreturned, hresult]
      exact ⟨rfl, hnext hlt⟩

theorem cyclic_state_lt (hcount : 0 < seq.count)
    (cyclicPoller : CyclicTimeSequencePoller cyclic) (start : BitVec w) (calls : List (Call w)) :
    (after cyclicStep (cyclicPoller.reset start) calls).state < seq.count := by
  refine run_induction
    (I := fun _ (p : CyclicTimeSequencePoller cyclic) => p.state < seq.count) ?_ ?_ calls
  · exact cyclic.get_initial.trans_lt hcount
  · intro before p call hlt
    cases call with
    | init now => exact hlt
    | poll now =>
        simp only [cyclicStep]
        rw [CyclicTimeSequencePoller.poll_eq]
        split_ifs
        · change cyclic.get (cyclic.increment p.poller.state) < seq.count
          rw [cyclic.get_increment]
          exact Nat.mod_lt _ hcount
        · exact hlt

/-- Where the poller of one pass stands after some calls, next to the cyclic poller. -/
structure OnePass (finite : TimerSequencePoller seq s)
    (cyclicPoller : CyclicTimeSequencePoller cyclic) (calls : List (Call w)) : Prop where
  sameResults : expirations (returned finiteStep finite calls) < seq.count → ∀ call,
    returned finiteStep finite (calls ++ [call]) =
      returned cyclicStep cyclicPoller (calls ++ [call])
  state : (after finiteStep finite calls).state.toNat =
    expirations (returned finiteStep finite calls)
  le : expirations (returned finiteStep finite calls) ≤ seq.count
  hasFinished : (after finiteStep finite calls).hasFinished = true ↔
    expirations (returned finiteStep finite calls) = seq.count
  stopped : (after finiteStep finite calls).hasFinished = true → ∀ now,
    (after finiteStep finite calls).poll now = (false, after finiteStep finite calls)
  forGood : (after finiteStep finite calls).hasFinished = true → ∀ more,
    (after finiteStep finite (calls ++ more)).hasFinished = true ∧
      (after finiteStep finite (calls ++ more)).state = (after finiteStep finite calls).state ∧
        ∀ result ∈ returned finiteStep (after finiteStep finite calls) more, result = false
  lookups : ∀ index ∈ (after finiteStep finite calls).lookups, index < seq.count
  looksUpOnly : ∀ other : Sequence (BitVec w), other.count = seq.count →
    (∀ index ∈ (after finiteStep finite calls).lookups, other.get index = seq.get index) →
      ∀ now, ((after finiteStep finite calls).withSequence other).poll now =
        (((after finiteStep finite calls).poll now).1,
          ((after finiteStep finite calls).poll now).2.withSequence other)
  cyclicLookup : (after cyclicStep cyclicPoller calls).state < seq.count

/-- Whatever is called when after a reset, the poller goes through its sequence as the
cyclic one does, and then stops until the next reset. -/
theorem finite_poller_one_pass (hcount : 1 < seq.count) (hfits : seq.count < 2 ^ s)
    (finite : TimerSequencePoller seq s) (cyclicPoller : CyclicTimeSequencePoller cyclic)
    (start : BitVec w) (calls : List (Call w)) :
    OnePass (finite.reset start) (cyclicPoller.reset start) calls := by
  have hcounts := counts_run hfits finite start calls
  constructor
  case sameResults =>
    intro hlt call
    obtain ⟨hreturned, haligned⟩ := aligned_run hfits finite cyclicPoller start calls hlt
    rw [returned_concat, returned_concat, hreturned,
      (haligned.step hfits (hcounts.1.trans_lt hlt) call).1]
  case state => exact hcounts.1
  case le => exact hcounts.2
  case hasFinished => exact hcounts.hasFinished_iff
  case stopped => exact fun h => TimerSequencePoller.poll_of_finished h
  case forGood =>
    intro h more
    obtain ⟨hstate, hfalse⟩ := after_of_finished h more
    rw [after_append]
    exact ⟨finished_of_state_eq hstate h, hstate, hfalse⟩
  case lookups =>
    intro index hindex
    rw [TimerSequencePoller.lookups] at hindex
    split_ifs at hindex with hfinished
    · contradiction
    · rw [TimerSequencePoller.hasFinished_iff, not_le] at hfinished
      rwa [List.mem_singleton.mp hindex]
  case looksUpOnly =>
    exact fun other hother hget => TimerSequencePoller.poll_withSequence hother hget
  case cyclicLookup => exact cyclic_state_lt (Nat.zero_lt_of_lt hcount) cyclicPoller start calls

/-- One pass over two periods, with the clock wrapping around and a late `init`. -/
theorem twoPeriods_one_pass :
    OnePass ((⟨⟨7, 0⟩⟩ : TimerSequencePoller twoPeriods 8).reset 250)
      ((CyclicTimeSequencePoller.initial (natCyclic twoPeriods.count) 0).reset 250)
      [.poll 5, .init 9, .poll 30, .init 40, .poll 90] :=
  finite_poller_one_pass (by decide) (by decide) _ _ 250 _

example : returned finiteStep ((⟨⟨7, 0⟩⟩ : TimerSequencePoller twoPeriods 8).reset 250)
    [.poll 5, .init 9, .poll 30, .init 40, .poll 90] = [true, true, false] := by
  decide

end Prefix

end GrevirPeripherals.FinitePolling
