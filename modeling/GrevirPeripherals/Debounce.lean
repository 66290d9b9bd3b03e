import GrevirPeripherals.ModularClock
import Mathlib.Order.Bounds.Basic

/-!
The debouncer of `gpio/debounce.hpp`: one pending flag and one wrapping timestamp
against the run lengths of the raw samples.
-/

namespace GrevirPeripherals.Debounce

open GrevirPeripherals.ModularClock

section Model

variable {w : Nat}

structure DebounceState (w : Nat) where
  lastChangeTime : BitVec w
  currentLevel : Bool
  isChanged : Bool
deriving DecidableEq

/-- `debounce` with the clock reading `now`; the result and the state it leaves. -/
def debounce (debounceTime : Nat) (state : DebounceState w) (input : Bool) (now : BitVec w) :
    Bool × DebounceState w :=
  let changedNow := input ≠ state.currentLevel
  let next :=
    if !changedNow then { state with isChanged := false }
    else if state.isChanged then
      let elapsed := now - state.lastChangeTime
      if elapsed.toNat > debounceTime then
        { state with currentLevel := input, isChanged := false }
      else state
    else { state with isChanged := true, lastChangeTime := now }
  (next.currentLevel, next)

/-- `runSetup` with the raw level and the clock reading it takes. -/
def runSetup (input : Bool) (now : BitVec w) : DebounceState w where
  lastChangeTime := now
  currentLevel := input
  isChanged := false

variable (debounceTime : Nat) (state : DebounceState w) (input : Bool) (now : BitVec w)

theorem debounce_fst :
    (debounce debounceTime state input now).1 =
      (debounce debounceTime state input now).2.currentLevel :=
  rfl

theorem debounce_of_eq (h : input = state.currentLevel) :
    (debounce debounceTime state input now).2 = { state with isChanged := false } := by
  simp [debounce, h]

theorem debounce_of_fresh (h : input ≠ state.currentLevel) (hchanged : state.isChanged = false) :
    (debounce debounceTime state input now).2 =
      { state with isChanged := true, lastChangeTime := now } := by
  simp [debounce, h, hchanged]

theorem debounce_of_pending (h : input ≠ state.currentLevel) (hchanged : state.isChanged = true) :
    (debounce debounceTime state input now).2 =
      if debounceTime < (now - state.lastChangeTime).toNat then
        { state with currentLevel := input, isChanged := false }
      else state := by
  simp [debounce, h, hchanged]

/-- Repeating a sample at the same time changes nothing. -/
theorem debounce_repeat :
    debounce debounceTime (debounce debounceTime state input now).2 input now =
      debounce debounceTime state input now := by
  rw [Prod.ext_iff, debounce_fst, debounce_fst]
  suffices h : (debounce debounceTime (debounce debounceTime state input now).2 input now).2 =
      (debounce debounceTime state input now).2 from ⟨congrArg _ h, h⟩
  by_cases heq : input = state.currentLevel
  · rw [debounce_of_eq _ state _ _ heq]
    exact debounce_of_eq _ { state with isChanged := false } _ _ heq
  · cases hchanged : state.isChanged with
    | false =>
        have hpending := debounce_of_pending debounceTime
          { state with isChanged := true, lastChangeTime := now } input now heq rfl
        rw [debounce_of_fresh _ state _ _ heq hchanged, hpending]
        simp
    | true =>
        rw [debounce_of_pending _ state _ _ heq hchanged]
        split_ifs with hexpired
        · rw [debounce_of_eq _ _ _ _ rfl]
        · rw [debounce_of_pending _ state _ _ heq hchanged, if_neg hexpired]

end Model

section Run

variable {w : Nat} (debounceTime : Nat) (setupLevel : Bool) (setupTime : BitVec w)
  (level : Nat → Bool) (time : Nat → Nat)

/-- The state after the first samples of a trace. -/
def stateAfter : Nat → DebounceState w
  | 0 => runSetup setupLevel setupTime
  | k + 1 => (debounce debounceTime (stateAfter k) (level k) (BitVec.ofNat w (time k))).2

/-- The level that `get` returns for a sample. -/
def output (k : Nat) : Bool :=
  (debounce debounceTime (stateAfter debounceTime setupLevel setupTime level time k) (level k)
    (BitVec.ofNat w (time k))).1

/-- Where the block of equal samples begins that a sample ends. -/
def blockStart : Nat → Nat
  | 0 => 0
  | k + 1 => if level (k + 1) = level k then blockStart k else k + 1

theorem blockStart_isLeast (k : Nat) :
    IsLeast {j | j ≤ k ∧ ∀ i, j ≤ i → i ≤ k → level i = level k} (blockStart level k) := by
  induction k with
  | zero => simp [blockStart, IsLeast, lowerBounds]
  | succ k ih =>
      obtain ⟨⟨hle, hsame⟩, hleast⟩ := ih
      rw [blockStart]
      split_ifs with heq
      · refine ⟨⟨hle.trans (Nat.le_succ k), ?_⟩, ?_⟩
        · intro i hi hik
          rcases Nat.le_succ_iff.mp hik with hik | rfl
          · rw [heq]
            exact hsame i hi hik
          · rfl
        · rintro j ⟨hj, hall⟩
          rcases Nat.le_succ_iff.mp hj with hj | rfl
          · apply hleast
            refine ⟨hj, fun i hi hik => ?_⟩
            rw [hall i hi (hik.trans (Nat.le_succ k)), heq]
          · exact hle.trans (Nat.le_succ k)
      · refine ⟨⟨le_rfl, fun i hi hik => by rw [le_antisymm hik hi]⟩, ?_⟩
        rintro j ⟨hj, hall⟩
        by_contra hlt
        exact heq (hall k (Nat.le_of_lt_succ (not_le.mp hlt)) (Nat.le_succ k)).symm

/-- The level by run lengths: a block that spans more than the interval is accepted. -/
def reference : Nat → Bool
  | 0 => if debounceTime < time 0 - time (blockStart level 0) then level 0 else setupLevel
  | k + 1 =>
      if debounceTime < time (k + 1) - time (blockStart level (k + 1)) then level (k + 1)
      else reference k

/-- The level returned before a sample, which at first is the one of the setup. -/
def previous : Nat → Bool
  | 0 => setupLevel
  | k + 1 => output debounceTime setupLevel setupTime level time k

/-- After a sample the state holds the level by run lengths, and a pending transition
exactly where the raw level differs from it. -/
structure Represents (k : Nat) (state : DebounceState w) : Prop where
  currentLevel : state.currentLevel = reference debounceTime setupLevel level time k
  isChanged : state.isChanged = true ↔ level k ≠ state.currentLevel
  lastChangeTime : level k ≠ state.currentLevel →
    state.lastChangeTime = BitVec.ofNat w (time (blockStart level k))
  recent : level k ≠ state.currentLevel → time k ≤ time (blockStart level k) + debounceTime

section Step

variable {debounceTime setupLevel setupTime level time} {k : Nat} {state : DebounceState w}

theorem represents_zero :
    Represents debounceTime setupLevel level time 0
      (stateAfter debounceTime setupLevel setupTime level time 1) := by
  have hreference : reference debounceTime setupLevel level time 0 = setupLevel := by
    rw [reference, blockStart, Nat.sub_self, if_neg (Nat.not_lt_zero _)]
  rw [stateAfter, stateAfter]
  by_cases heq : level 0 = setupLevel
  · rw [debounce_of_eq _ (runSetup setupLevel setupTime) _ _ heq]
    constructor <;> simp [runSetup, hreference, heq]
  · rw [debounce_of_fresh _ (runSetup setupLevel setupTime) _ _ heq rfl]
    constructor <;> simp [runSetup, hreference, heq, blockStart]

variable (h : Represents debounceTime setupLevel level time k state)

include h

theorem represents_of_eq (heq : level (k + 1) = state.currentLevel) :
    Represents debounceTime setupLevel level time (k + 1)
      (debounce debounceTime state (level (k + 1)) (BitVec.ofNat w (time (k + 1)))).2 := by
  rw [debounce_of_eq _ _ _ _ heq]
  constructor
  case currentLevel =>
    rw [reference, ← h.currentLevel, heq]
    exact (ite_self _).symm
  case isChanged => simp [heq]
  case lastChangeTime => exact fun hne => absurd heq hne
  case recent => exact fun hne => absurd heq hne

/-- A level that was not pending opens a block of its own. -/
theorem represents_of_fresh (hne : level (k + 1) ≠ state.currentLevel)
    (hchanged : state.isChanged = false) :
    Represents debounceTime setupLevel level time (k + 1)
      (debounce debounceTime state (level (k + 1)) (BitVec.ofNat w (time (k + 1)))).2 := by
  have hlevel : level k = state.currentLevel := by
    by_contra hpending
    rw [h.isChanged.mpr hpending] at hchanged
    contradiction
  have hstart : blockStart level (k + 1) = k + 1 := by
    rw [blockStart, if_neg (hlevel ▸ hne)]
  rw [debounce_of_fresh _ _ _ _ hne hchanged]
  constructor
  case currentLevel =>
    rw [reference, hstart, Nat.sub_self, if_neg (Nat.not_lt_zero _)]
    exact h.currentLevel
  case isChanged => exact iff_of_true rfl hne
  case lastChangeTime => exact fun _ => by rw [hstart]
  case recent => exact fun _ => by rw [hstart]; exact Nat.le_add_right _ _

/-- A pending level goes on with its block, whose span decides. -/
theorem represents_of_pending (hsampled : Sampled w debounceTime time (k + 1))
    (hne : level (k + 1) ≠ state.currentLevel) (hchanged : state.isChanged = true) :
    Represents debounceTime setupLevel level time (k + 1)
      (debounce debounceTime state (level (k + 1)) (BitVec.ofNat w (time (k + 1)))).2 := by
  have hlevel := h.isChanged.mp hchanged
  have hsame : level (k + 1) = level k := by
    rw [Bool.eq_not_of_ne hne, Bool.eq_not_of_ne hlevel]
  have hstart : blockStart level (k + 1) = blockStart level k := by
    rw [blockStart, if_pos hsame]
  have hle : time (blockStart level k) ≤ time (k + 1) :=
    hsampled.le ((blockStart_isLeast level k).1.1.trans (Nat.le_succ k)) le_rfl
  have hlt : time (k + 1) < time (blockStart level k) + 2 ^ w := by
    have hgap := (hsampled k (Nat.lt_succ_self k)).2
    have hrecent := h.recent hlevel
    omega
  rw [debounce_of_pending _ _ _ _ hne hchanged, h.lastChangeTime hlevel, toNat_elapsed hle hlt]
  split_ifs with hexpired
  · constructor
    case currentLevel => rw [reference, hstart, if_pos hexpired]
    case isChanged => simp
    case lastChangeTime => exact fun hne => absurd rfl hne
    case recent => exact fun hne => absurd rfl hne
  · constructor
    case currentLevel =>
      rw [reference, hstart, if_neg hexpired]
      exact h.currentLevel
    case isChanged => exact iff_of_true hchanged hne
    case lastChangeTime => exact fun _ => by rw [hstart, h.lastChangeTime hlevel]
    case recent =>
      intro _
      rw [hstart]
      omega

theorem represents_next (hsampled : Sampled w debounceTime time (k + 1)) :
    Represents debounceTime setupLevel level time (k + 1)
      (debounce debounceTime state (level (k + 1)) (BitVec.ofNat w (time (k + 1)))).2 := by
  by_cases heq : level (k + 1) = state.currentLevel
  · exact represents_of_eq h heq
  · cases hchanged : state.isChanged with
    | false => exact represents_of_fresh h heq hchanged
    | true => exact represents_of_pending h hsampled heq hchanged

end Step

theorem represents (k : Nat) (hsampled : Sampled w debounceTime time k) :
    Represents debounceTime setupLevel level time k
      (stateAfter debounceTime setupLevel setupTime level time (k + 1)) := by
  induction k with
  | zero => exact represents_zero
  | succ k ih =>
      have h := ih (hsampled.mono (Nat.le_succ k))
      rw [stateAfter]
      exact represents_next h hsampled

theorem output_eq_reference (k : Nat) (hsampled : Sampled w debounceTime time k) :
    output debounceTime setupLevel setupTime level time k =
      reference debounceTime setupLevel level time k := by
  rw [output, debounce_fst]
  exact (represents debounceTime setupLevel setupTime level time k hsampled).currentLevel

/-- The level returned for a sample, by the block of equal samples that it ends. -/
structure RunLength (k : Nat) : Prop where
  block : IsLeast {j | j ≤ k ∧ ∀ i, j ≤ i → i ≤ k → level i = level k} (blockStart level k)
  output_eq : output debounceTime setupLevel setupTime level time k =
    if debounceTime < time k - time (blockStart level k) then level k
    else previous debounceTime setupLevel setupTime level time k
  change : output debounceTime setupLevel setupTime level time k ≠
      previous debounceTime setupLevel setupTime level time k →
    output debounceTime setupLevel setupTime level time k = level k ∧
      debounceTime < time k - time (blockStart level k)
  restart : output debounceTime setupLevel setupTime level time k ≠
      previous debounceTime setupLevel setupTime level time k →
    ∀ i, i < k → level i ≠ level k → time (i + 1) + debounceTime < time k
  again : debounce debounceTime
      (stateAfter debounceTime setupLevel setupTime level time (k + 1)) (level k)
      (BitVec.ofNat w (time k)) =
    debounce debounceTime (stateAfter debounceTime setupLevel setupTime level time k) (level k)
      (BitVec.ofNat w (time k))

/-- The debouncer returns the level by run lengths, across any number of times that the
clock wraps around. -/
theorem output_run_length {k : Nat} (hsampled : Sampled w debounceTime time k) :
    RunLength debounceTime setupLevel setupTime level time k := by
  have hblock := blockStart_isLeast level k
  have houtput : output debounceTime setupLevel setupTime level time k =
      if debounceTime < time k - time (blockStart level k) then level k
      else previous debounceTime setupLevel setupTime level time k := by
    rw [output_eq_reference _ _ _ _ _ k hsampled]
    cases k with
    | zero => rfl
    | succ k =>
        rw [reference, previous,
          output_eq_reference _ _ _ _ _ k (hsampled.mono (Nat.le_succ k))]
  have hchange : output debounceTime setupLevel setupTime level time k ≠
        previous debounceTime setupLevel setupTime level time k →
      output debounceTime setupLevel setupTime level time k = level k ∧
        debounceTime < time k - time (blockStart level k) := by
    intro hne
    rw [houtput] at hne ⊢
    split_ifs at hne ⊢ with hspan
    · exact ⟨rfl, hspan⟩
    · contradiction
  refine ⟨hblock, houtput, hchange, ?_, debounce_repeat _ _ _ _⟩
  intro hne i hi hopposite
  have hspan := (hchange hne).2
  have hstart : i + 1 ≤ blockStart level k := by
    by_contra hlt
    exact hopposite (hblock.1.2 i (Nat.le_of_lt_succ (not_le.mp hlt)) hi.le)
  have hle := hsampled.le hstart hblock.1.1
  omega

/-- A pressed level at 250, 256 and 262 on an 8-bit clock. -/
theorem wrapped_run_length : RunLength 10 false 250#8 (fun _ => true) (fun k => 250 + 6 * k) 2 := by
  apply output_run_length
  intro i hi
  constructor
  · show 250 + 6 * i ≤ 250 + 6 * (i + 1)
    omega
  · show 250 + 6 * (i + 1) + 10 < 250 + 6 * i + 2 ^ 8
    omega

example : output 10 false 250#8 (fun _ => true) (fun k => 250 + 6 * k) 2 = true := by
  decide

end Run

end GrevirPeripherals.Debounce
