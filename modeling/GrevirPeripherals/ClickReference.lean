import GrevirPeripherals.ButtonEvents
import GrevirPeripherals.ModularClock
import Mathlib.Order.Bounds.Basic

/-!
The click classifier against a reference on the sample indices: which sample is the
first to end a press, a double-click window, or the wait for a release.
-/

namespace GrevirPeripherals.ClickReference

open GrevirPeripherals.ButtonEvents
open GrevirPeripherals.ModularClock

variable {w : Nat}

/-- Samples of a button, `true` for a released one, at unbounded times; the setup reads
the clock once before. -/
structure Trace (w : Nat) where
  thresholds : Thresholds w
  setupTime : BitVec w
  level : Nat → Bool
  time : Nat → Nat

/-- The time after which a press is long. -/
abbrev Trace.long (trace : Trace w) : Nat :=
  trace.thresholds.longPressTime.toNat

/-- The time in which a second press makes a double click. -/
abbrev Trace.window (trace : Trace w) : Nat :=
  trace.thresholds.doubleClickTime.toNat

section Reference

variable (trace : Trace w)

/-- The first pressed sample from `s` on. -/
def FirstPress (s i : Nat) : Prop :=
  IsLeast {k | s ≤ k ∧ trace.level k = false} i

/-- The first sample after the press `i` that is released or makes the press a long one. -/
def EndOfPress (i m : Nat) : Prop :=
  IsLeast {k | i < k ∧ (trace.level k = true ∨ trace.time i + trace.long ≤ trace.time k)} m

/-- The first sample after the release `m` that is pressed or comes after the window. -/
def EndOfWindow (m n : Nat) : Prop :=
  IsLeast {k | m < k ∧ (trace.level k = false ∨ trace.time m + trace.window ≤ trace.time k)} n

/-- The first released sample after `e`. -/
def FirstRelease (e r : Nat) : Prop :=
  IsLeast {k | e < k ∧ trace.level k = true} r

/-- The event of the gesture that follows when the classifier is idle at `s`, with the
sample that completes it. -/
inductive Gesture (s : Nat) : Nat → OutEventType → Prop
  | longClick {i m : Nat} (hi : FirstPress trace s i) (hm : EndOfPress trace i m)
      (hpressed : trace.level m = false) : Gesture s m .longClick
  | doubleClick {i m n : Nat} (hi : FirstPress trace s i) (hm : EndOfPress trace i m)
      (hreleased : trace.level m = true) (hn : EndOfWindow trace m n)
      (hpressed : trace.level n = false) : Gesture s n .doubleClick
  | click {i m n : Nat} (hi : FirstPress trace s i) (hm : EndOfPress trace i m)
      (hreleased : trace.level m = true) (hn : EndOfWindow trace m n)
      (hstill : trace.level n = true) : Gesture s n .click

/-- The sample from which on the classifier is idle, initially and after each event. -/
inductive Idle : Nat → Prop
  | setup : Idle 0
  | released {s e r : Nat} {event : OutEventType} (h : Idle s)
      (hgesture : Gesture trace s e event) (hr : FirstRelease trace e r) : Idle (r + 1)

variable {trace}

/-- A gesture completes once, with one event. -/
theorem Gesture.unique {s e e' : Nat} {event event' : OutEventType}
    (h : Gesture trace s e event) (h' : Gesture trace s e' event') :
    e = e' ∧ event = event' := by
  cases h with
  | longClick hi hm hpressed =>
      cases h' with
      | longClick hi' hm' _ =>
          obtain rfl := hi.unique hi'
          exact ⟨hm.unique hm', rfl⟩
      | doubleClick hi' hm' hreleased _ _ | click hi' hm' hreleased _ _ =>
          obtain rfl := hi.unique hi'
          obtain rfl := hm.unique hm'
          simp [hpressed] at hreleased
  | doubleClick hi hm hreleased hn hpressed =>
      cases h' with
      | longClick hi' hm' hpressed' =>
          obtain rfl := hi.unique hi'
          obtain rfl := hm.unique hm'
          simp [hreleased] at hpressed'
      | doubleClick hi' hm' _ hn' _ =>
          obtain rfl := hi.unique hi'
          obtain rfl := hm.unique hm'
          exact ⟨hn.unique hn', rfl⟩
      | click hi' hm' _ hn' hstill =>
          obtain rfl := hi.unique hi'
          obtain rfl := hm.unique hm'
          obtain rfl := hn.unique hn'
          simp [hpressed] at hstill
  | click hi hm hreleased hn hstill =>
      cases h' with
      | longClick hi' hm' hpressed' =>
          obtain rfl := hi.unique hi'
          obtain rfl := hm.unique hm'
          simp [hreleased] at hpressed'
      | doubleClick hi' hm' _ hn' hpressed =>
          obtain rfl := hi.unique hi'
          obtain rfl := hm.unique hm'
          obtain rfl := hn.unique hn'
          simp [hpressed] at hstill
      | click hi' hm' _ hn' _ =>
          obtain rfl := hi.unique hi'
          obtain rfl := hm.unique hm'
          exact ⟨hn.unique hn', rfl⟩

theorem Gesture.le {s e : Nat} {event : OutEventType}
    (h : Gesture trace s e event) : s ≤ e := by
  cases h with
  | longClick hi hm _ => exact hi.1.1.trans hm.1.1.le
  | doubleClick hi hm _ hn _ | click hi hm _ hn _ =>
      exact (hi.1.1.trans hm.1.1.le).trans hn.1.1.le

end Reference

section Run

variable (trace : Trace w)

/-- The module before a sample; every earlier one was followed by `get`. -/
def before : Nat → ButtonEventModule w
  | 0 => runSetup trace.setupTime
  | k + 1 =>
      (instanceGet (instanceLoop trace.thresholds (before k) (trace.level k)
        (BitVec.ofNat w (trace.time k)))).2

/-- What `get` returns after a sample. -/
def result (k : Nat) : OutEventType :=
  (instanceGet (instanceLoop trace.thresholds (before trace k) (trace.level k)
    (BitVec.ofNat w (trace.time k)))).1

/-- The state before a sample, with its timestamp and no event pending. -/
def Holds (k : Nat) (inState : InProcessingState) (last : BitVec w) : Prop :=
  before trace k =
    { lastPressedTime := last, inState := inState, outEvent := .none }

variable {trace} {k : Nat} {last : BitVec w}

section Off

variable (h : Holds trace k .off last)

include h

theorem off_released (hlevel : trace.level k = true) :
    result trace k = .none ∧ Holds trace (k + 1) .off last := by
  rw [Holds] at h
  constructor <;> simp [result, Holds, before, instanceLoop, instanceGet, h, hlevel]

theorem off_pressed (hlevel : trace.level k = false) :
    result trace k = .none ∧
      Holds trace (k + 1) .waitForDelay (BitVec.ofNat w (trace.time k)) := by
  rw [Holds] at h
  constructor <;> simp [result, Holds, before, instanceLoop, instanceGet, h, hlevel]

end Off

section WaitForRelease

variable (h : Holds trace k .waitForRelease last)

include h

theorem waiting_released (hlevel : trace.level k = true) :
    result trace k = .none ∧ Holds trace (k + 1) .off last := by
  rw [Holds] at h
  constructor <;> simp [result, Holds, before, instanceLoop, instanceGet, h, hlevel]

theorem waiting_pressed (hlevel : trace.level k = false) :
    result trace k = .none ∧ Holds trace (k + 1) .waitForRelease last := by
  rw [Holds] at h
  constructor <;> simp [result, Holds, before, instanceLoop, instanceGet, h, hlevel]

end WaitForRelease

section WaitForDelay

variable {i : Nat}
  (h : Holds trace k .waitForDelay (BitVec.ofNat w (trace.time i)))

include h

theorem delay_released (hlevel : trace.level k = true) :
    result trace k = .none ∧
      Holds trace (k + 1) .waitForPossibleDoubleClick (BitVec.ofNat w (trace.time k)) := by
  rw [Holds] at h
  constructor <;> simp [result, Holds, before, instanceLoop, instanceGet, h, hlevel]

variable (hle : trace.time i ≤ trace.time k) (hlt : trace.time k < trace.time i + 2 ^ w)

include hle hlt

theorem delay_expired (hlevel : trace.level k = false)
    (hlong : trace.time i + trace.long ≤ trace.time k) :
    result trace k = .longClick ∧
      Holds trace (k + 1) .waitForRelease (BitVec.ofNat w (trace.time i)) := by
  have helapsed := (le_elapsed_iff hle hlt trace.thresholds.longPressTime).mpr hlong
  rw [Holds] at h
  constructor <;> simp [result, Holds, before, instanceLoop, instanceGet, h, hlevel, helapsed]

theorem delay_open (hlevel : trace.level k = false)
    (hshort : trace.time k < trace.time i + trace.long) :
    result trace k = .none ∧
      Holds trace (k + 1) .waitForDelay (BitVec.ofNat w (trace.time i)) := by
  have helapsed := (le_elapsed_iff hle hlt trace.thresholds.longPressTime).not.mpr hshort.not_ge
  rw [Holds] at h
  constructor <;> simp [result, Holds, before, instanceLoop, instanceGet, h, hlevel, helapsed]

end WaitForDelay

section WaitForPossibleDoubleClick

variable {m : Nat}
  (h : Holds trace k .waitForPossibleDoubleClick (BitVec.ofNat w (trace.time m)))

include h

theorem window_pressed (hlevel : trace.level k = false) :
    result trace k = .doubleClick ∧
      Holds trace (k + 1) .waitForRelease (BitVec.ofNat w (trace.time m)) := by
  rw [Holds] at h
  constructor <;> simp [result, Holds, before, instanceLoop, instanceGet, h, hlevel]

variable (hle : trace.time m ≤ trace.time k) (hlt : trace.time k < trace.time m + 2 ^ w)

include hle hlt

theorem window_expired (hlevel : trace.level k = true)
    (hexpired : trace.time m + trace.window ≤ trace.time k) :
    result trace k = .click ∧
      Holds trace (k + 1) .waitForRelease (BitVec.ofNat w (trace.time m)) := by
  have helapsed := (le_elapsed_iff hle hlt trace.thresholds.doubleClickTime).mpr hexpired
  rw [Holds] at h
  constructor <;> simp [result, Holds, before, instanceLoop, instanceGet, h, hlevel, helapsed]

theorem window_open (hlevel : trace.level k = true)
    (hopen : trace.time k < trace.time m + trace.window) :
    result trace k = .none ∧
      Holds trace (k + 1) .waitForPossibleDoubleClick (BitVec.ofNat w (trace.time m)) := by
  have helapsed := (le_elapsed_iff hle hlt trace.thresholds.doubleClickTime).not.mpr hopen.not_ge
  rw [Holds] at h
  constructor <;> simp [result, Holds, before, instanceLoop, instanceGet, h, hlevel, helapsed]

end WaitForPossibleDoubleClick

/-- A state that every sample of a stretch keeps holds at its end. -/
theorem holds_until {inState : InProcessingState} {a b : Nat} (hab : a ≤ b)
    (ha : Holds trace a inState last)
    (hstep : ∀ j, a ≤ j → j < b → Holds trace j inState last → Holds trace (j + 1) inState last) :
    Holds trace b inState last := by
  induction b, hab using Nat.le_induction with
  | base => exact ha
  | succ b hab ih =>
      refine hstep b hab (Nat.lt_succ_self b) (ih ?_)
      intro j haj hjb
      exact hstep j haj (hjb.trans (Nat.lt_succ_self b))

theorem holds_press {s i : Nat} (h : Holds trace s .off last) (hi : FirstPress trace s i) :
    Holds trace (i + 1) .waitForDelay (BitVec.ofNat w (trace.time i)) := by
  refine (off_pressed (holds_until hi.1.1 h ?_) hi.1.2).2
  intro j hsj hji hj
  refine (off_released hj ?_).2
  by_contra hpressed
  exact absurd (hi.2 ⟨hsj, Bool.eq_false_of_not_eq_true hpressed⟩) (not_le.mpr hji)

theorem holds_release {e r : Nat}
    (h : Holds trace (e + 1) .waitForRelease last) (hr : FirstRelease trace e r) :
    Holds trace (r + 1) .off last := by
  refine (waiting_released (holds_until hr.1.1 h ?_) hr.1.2).2
  intro j hej hjr hj
  refine (waiting_pressed hj ?_).2
  by_contra hreleased
  exact absurd (hr.2 ⟨hej, Bool.eq_true_of_not_eq_false hreleased⟩) (not_le.mpr hjr)

section Sampled

variable (hthresholds : trace.thresholds.longPressTime ≤ trace.thresholds.doubleClickTime)

theorem press_open {i m j : Nat} (hm : EndOfPress trace i m)
    (hij : i < j) (hjm : j < m) :
    trace.level j = false ∧ trace.time j < trace.time i + trace.long := by
  have hnot : ¬(trace.level j = true ∨ trace.time i + trace.long ≤ trace.time j) :=
    fun hend => absurd (hm.2 ⟨hij, hend⟩) (not_le.mpr hjm)
  rw [not_or, not_le, Bool.not_eq_true] at hnot
  exact hnot

theorem window_still_open {m n j : Nat}
    (hn : EndOfWindow trace m n) (hmj : m < j)
    (hjn : j < n) : trace.level j = true ∧ trace.time j < trace.time m + trace.window := by
  have hnot : ¬(trace.level j = false ∨ trace.time m + trace.window ≤ trace.time j) :=
    fun hend => absurd (hn.2 ⟨hmj, hend⟩) (not_le.mpr hjn)
  rw [not_or, not_le, Bool.not_eq_false] at hnot
  exact hnot

include hthresholds in
theorem holds_delay {i m : Nat} (hsampled : Sampled w trace.window trace.time m)
    (h : Holds trace (i + 1) .waitForDelay (BitVec.ofNat w (trace.time i)))
    (hm : EndOfPress trace i m) :
    Holds trace m .waitForDelay (BitVec.ofNat w (trace.time i)) := by
  refine holds_until hm.1.1 h ?_
  intro j hij hjm hj
  have hopen := press_open hm hij hjm
  have hlt := (hsampled.mono hjm.le).lt_of_open hij (BitVec.le_def.mp hthresholds)
    fun j' hij' hj' => (press_open hm hij' (hj'.trans hjm)).2
  exact (delay_open hj (hsampled.le (Nat.le_of_succ_le hij) hjm.le) hlt hopen.1 hopen.2).2

theorem holds_window {m n : Nat} (hsampled : Sampled w trace.window trace.time n)
    (h : Holds trace (m + 1) .waitForPossibleDoubleClick (BitVec.ofNat w (trace.time m)))
    (hn : EndOfWindow trace m n) :
    Holds trace n .waitForPossibleDoubleClick (BitVec.ofNat w (trace.time m)) := by
  refine holds_until hn.1.1 h ?_
  intro j hmj hjn hj
  have hopen := window_still_open hn hmj hjn
  have hlt := (hsampled.mono hjn.le).lt_of_open hmj le_rfl
    fun j' hmj' hj' => (window_still_open hn hmj' (hj'.trans hjn)).2
  exact (window_open hj (hsampled.le (Nat.le_of_succ_le hmj) hjn.le) hlt hopen.1 hopen.2).2

include hthresholds

/-- A gesture of the reference runs through the states to its event. -/
theorem gesture_result {s e : Nat} {event : OutEventType}
    (hsampled : Sampled w trace.window trace.time e)
    (h : Holds trace s .off last) (hgesture : Gesture trace s e event) :
    result trace e = event ∧ ∃ last, Holds trace (e + 1) .waitForRelease last := by
  cases hgesture with
  | @longClick i _ hi hm hpressed =>
      have hdelay := holds_delay hthresholds hsampled (holds_press h hi) hm
      have hle := hsampled.le hm.1.1.le le_rfl
      have hlt := hsampled.lt_of_open hm.1.1 (BitVec.le_def.mp hthresholds)
        fun j hij hje => (press_open hm hij hje).2
      have hlong : trace.time i + trace.long ≤ trace.time e := by
        refine hm.1.2.resolve_left ?_
        rw [hpressed]
        exact Bool.false_ne_true
      have hevent := delay_expired hdelay hle hlt hpressed hlong
      exact ⟨hevent.1, _, hevent.2⟩
  | @doubleClick i m _ hi hm hreleased hn hpressed =>
      have hsampled' := hsampled.mono hn.1.1.le
      have hdelay := holds_delay hthresholds hsampled' (holds_press h hi) hm
      have hwindow := holds_window hsampled (delay_released hdelay hreleased).2 hn
      have hevent := window_pressed hwindow hpressed
      exact ⟨hevent.1, _, hevent.2⟩
  | @click i m _ hi hm hreleased hn hstill =>
      have hsampled' := hsampled.mono hn.1.1.le
      have hdelay := holds_delay hthresholds hsampled' (holds_press h hi) hm
      have hwindow := holds_window hsampled (delay_released hdelay hreleased).2 hn
      have hle := hsampled.le hn.1.1.le le_rfl
      have hlt := hsampled.lt_of_open hn.1.1 le_rfl
        fun j hmj hje => (window_still_open hn hmj hje).2
      have hexpired : trace.time m + trace.window ≤ trace.time e := by
        refine hn.1.2.resolve_left ?_
        rw [hstill]
        exact Bool.false_ne_true.symm
      have hevent := window_expired hwindow hle hlt hstill hexpired
      exact ⟨hevent.1, _, hevent.2⟩

/-- The classifier is off where the reference is idle. -/
theorem idle_holds {s : Nat} (hidle : Idle trace s)
    (hsampled : Sampled w trace.window trace.time s) :
    ∃ last, Holds trace s .off last := by
  induction hidle with
  | setup => exact ⟨trace.setupTime, rfl⟩
  | @released s e r event _ hgesture hr ih =>
      have her : e < r + 1 := hr.1.1.trans (Nat.lt_succ_self r)
      obtain ⟨last, hoff⟩ := ih (hsampled.mono (hgesture.le.trans her.le))
      obtain ⟨-, last', hwaiting⟩ :=
        gesture_result hthresholds (hsampled.mono her.le) hoff hgesture
      exact ⟨last', holds_release hwaiting hr⟩

end Sampled

section Phase

variable (trace)

/-- What the samples before `k` have led to, in the reference and in the module. -/
inductive Phase (k : Nat) : Prop
  | off {s : Nat} {last : BitVec w} (hidle : Idle trace s)
      (hle : s ≤ k) (hquiet : ∀ j, s ≤ j → j < k → trace.level j = true)
      (h : Holds trace k .off last)
  | delay {s i : Nat} (hidle : Idle trace s)
      (hi : FirstPress trace s i) (hlt : i < k)
      (hopen : ∀ j, i < j → j < k →
        trace.level j = false ∧ trace.time j < trace.time i + trace.long)
      (h : Holds trace k .waitForDelay (BitVec.ofNat w (trace.time i)))
  | window {s i m : Nat} (hidle : Idle trace s)
      (hi : FirstPress trace s i) (hm : EndOfPress trace i m)
      (hreleased : trace.level m = true) (hlt : m < k)
      (hopen : ∀ j, m < j → j < k →
        trace.level j = true ∧ trace.time j < trace.time m + trace.window)
      (h : Holds trace k .waitForPossibleDoubleClick (BitVec.ofNat w (trace.time m)))
  | waiting {s e : Nat} {event : OutEventType} {last : BitVec w}
      (hidle : Idle trace s) (hgesture : Gesture trace s e event)
      (hlt : e < k) (hheld : ∀ j, e < j → j < k → trace.level j = false)
      (h : Holds trace k .waitForRelease last)

/-- The event of a sample, if there is one, is one of the reference. -/
def Explained (k : Nat) : Prop :=
  result trace k ≠ .none →
    ∃ s, Idle trace s ∧ Gesture trace s k (result trace k)

variable {trace}

theorem explained_of_none (h : result trace k = .none) : Explained trace k :=
  fun hne => absurd h hne

/-- What held up to `k` and holds at `k` holds up to `k + 1`. -/
theorem extend {p : Nat → Prop} {a : Nat} (h : ∀ j, a < j → j < k → p j) (hk : p k) :
    ∀ j, a < j → j < k + 1 → p j := by
  intro j haj hjk
  rcases Nat.lt_succ_iff_lt_or_eq.mp hjk with hjk | rfl
  · exact h j haj hjk
  · exact hk

/-- The sample that ends an open stretch is the first to do so. -/
theorem isLeast_of_open {p q : Nat → Prop} {a : Nat} (hlt : a < k)
    (hopen : ∀ j, a < j → j < k → q j) (hnot : ∀ j, q j → ¬p j) (hp : p k) :
    IsLeast {j | a < j ∧ p j} k := by
  refine ⟨⟨hlt, hp⟩, ?_⟩
  rintro j ⟨haj, hj⟩
  by_contra hgt
  exact hnot j (hopen j haj (not_le.mp hgt)) hj

/-- An event of the reference leaves the classifier waiting for a release. -/
theorem phase_of_event {s : Nat} {event : OutEventType}
    (hidle : Idle trace s) (hgesture : Gesture trace s k event)
    (hevent : result trace k = event)
    (hnext : Holds trace (k + 1) .waitForRelease last) :
    Phase trace (k + 1) ∧ Explained trace k := by
  refine ⟨.waiting hidle hgesture (Nat.lt_succ_self k) ?_ hnext, ?_⟩
  · intro j hkj hjk
    omega
  · intro _
    rw [hevent]
    exact ⟨s, hidle, hgesture⟩

/-- One sample more. -/
theorem Phase.next (hthresholds : trace.thresholds.longPressTime ≤ trace.thresholds.doubleClickTime)
    (hsampled : Sampled w trace.window trace.time k) (hphase : Phase trace k) :
    Phase trace (k + 1) ∧ Explained trace k := by
  cases hphase with
  | @off s _ hidle hle hquiet h =>
      cases hlevel : trace.level k with
      | true =>
          obtain ⟨hnone, hnext⟩ := off_released h hlevel
          refine ⟨.off hidle (hle.trans (Nat.le_succ k)) ?_ hnext, explained_of_none hnone⟩
          intro j hsj hjk
          rcases Nat.lt_succ_iff_lt_or_eq.mp hjk with hjk | rfl
          · exact hquiet j hsj hjk
          · exact hlevel
      | false =>
          obtain ⟨hnone, hnext⟩ := off_pressed h hlevel
          have hpress : FirstPress trace s k := by
            refine ⟨⟨hle, hlevel⟩, ?_⟩
            rintro j ⟨hsj, hpressed⟩
            by_contra hgt
            rw [hquiet j hsj (not_le.mp hgt)] at hpressed
            contradiction
          refine ⟨.delay hidle hpress (Nat.lt_succ_self k) ?_ hnext, explained_of_none hnone⟩
          intro j hkj hjk
          omega
  | @delay s i hidle hi hlt hopen h =>
      have hle := hsampled.le hlt.le le_rfl
      have hwrap := hsampled.lt_of_open hlt (BitVec.le_def.mp hthresholds)
        fun j hij hjk => (hopen j hij hjk).2
      have hend (hp : trace.level k = true ∨ trace.time i + trace.long ≤ trace.time k) :
          EndOfPress trace i k := by
        apply isLeast_of_open hlt hopen ?_ hp
        rintro j ⟨hpressed, hshort⟩ (hreleased | hlong)
        · rw [hpressed] at hreleased
          contradiction
        · omega
      cases hlevel : trace.level k with
      | true =>
          obtain ⟨hnone, hnext⟩ := delay_released h hlevel
          refine ⟨.window hidle hi (hend (Or.inl hlevel)) hlevel (Nat.lt_succ_self k) ?_ hnext,
            explained_of_none hnone⟩
          intro j hkj hjk
          omega
      | false =>
          rcases Nat.lt_or_ge (trace.time k) (trace.time i + trace.long) with hshort | hlong
          · obtain ⟨hnone, hnext⟩ := delay_open h hle hwrap hlevel hshort
            exact ⟨.delay hidle hi (hlt.trans (Nat.lt_succ_self k)) (extend hopen ⟨hlevel, hshort⟩)
              hnext, explained_of_none hnone⟩
          · obtain ⟨hevent, hnext⟩ := delay_expired h hle hwrap hlevel hlong
            exact phase_of_event hidle (.longClick hi (hend (Or.inr hlong)) hlevel) hevent hnext
  | @window s i m hidle hi hm hreleased hlt hopen h =>
      have hle := hsampled.le hlt.le le_rfl
      have hwrap := hsampled.lt_of_open hlt le_rfl fun j hmj hjk => (hopen j hmj hjk).2
      have hend (hp : trace.level k = false ∨ trace.time m + trace.window ≤ trace.time k) :
          EndOfWindow trace m k := by
        apply isLeast_of_open hlt hopen ?_ hp
        rintro j ⟨hstill, hshort⟩ (hpressed | hlong)
        · rw [hstill] at hpressed
          contradiction
        · omega
      cases hlevel : trace.level k with
      | true =>
          rcases Nat.lt_or_ge (trace.time k) (trace.time m + trace.window) with hshort | hlong
          · obtain ⟨hnone, hnext⟩ := window_open h hle hwrap hlevel hshort
            exact ⟨.window hidle hi hm hreleased (hlt.trans (Nat.lt_succ_self k))
              (extend hopen ⟨hlevel, hshort⟩) hnext, explained_of_none hnone⟩
          · obtain ⟨hevent, hnext⟩ := window_expired h hle hwrap hlevel hlong
            exact phase_of_event hidle
              (.click hi hm hreleased (hend (Or.inr hlong)) hlevel) hevent hnext
      | false =>
          obtain ⟨hevent, hnext⟩ := window_pressed h hlevel
          exact phase_of_event hidle
            (.doubleClick hi hm hreleased (hend (Or.inl hlevel)) hlevel) hevent hnext
  | @waiting s e event last hidle hgesture hlt hheld h =>
      cases hlevel : trace.level k with
      | true =>
          obtain ⟨hnone, hnext⟩ := waiting_released h hlevel
          have hr : FirstRelease trace e k := by
            apply isLeast_of_open hlt hheld ?_ hlevel
            intro j hpressed hreleased
            rw [hpressed] at hreleased
            contradiction
          refine ⟨.off (.released hidle hgesture hr) le_rfl ?_ hnext, explained_of_none hnone⟩
          intro j hkj hjk
          omega
      | false =>
          obtain ⟨hnone, hnext⟩ := waiting_pressed h hlevel
          exact ⟨.waiting hidle hgesture (hlt.trans (Nat.lt_succ_self k)) (extend hheld hlevel)
            hnext, explained_of_none hnone⟩

theorem phase (hthresholds : trace.thresholds.longPressTime ≤ trace.thresholds.doubleClickTime)
    (k : Nat) (hsampled : Sampled w trace.window trace.time k) : Phase trace k := by
  induction k with
  | zero =>
      refine .off .setup le_rfl ?_ (rfl : Holds trace 0 .off trace.setupTime)
      intro j _ hj
      exact absurd hj (Nat.not_lt_zero j)
  | succ k ih =>
      have hsampled' := hsampled.mono (Nat.le_succ k)
      exact ((ih hsampled').next hthresholds hsampled').1

end Phase

section Classification

variable (trace)

/-- What `get` returns after a sample, against the reference. -/
structure Classified (k : Nat) : Prop where
  exact : ∀ event, event ≠ .none →
    (result trace k = event ↔ ∃ s, Idle trace s ∧ Gesture trace s k event)
  once : ∀ s e e' event event',
    Gesture trace s e event → Gesture trace s e' event' → e = e' ∧ event = event'
  pressWins : result trace k = .click → trace.level k = true
  releasedBetween : ∀ k', k' < k → result trace k' ≠ .none →
    result trace k ≠ .none → ∃ r, k' < r ∧ r < k ∧ trace.level r = true

variable {trace}
  (hthresholds : trace.thresholds.longPressTime ≤ trace.thresholds.doubleClickTime)
  (hsampled : Sampled w trace.window trace.time k)

include hthresholds hsampled

theorem result_of_gesture {s : Nat} {event : OutEventType}
    (hidle : Idle trace s) (hgesture : Gesture trace s k event) :
    result trace k = event ∧ ∃ last, Holds trace (k + 1) .waitForRelease last := by
  obtain ⟨last, hoff⟩ := idle_holds hthresholds hidle (hsampled.mono hgesture.le)
  exact gesture_result hthresholds hsampled hoff hgesture

theorem gesture_of_result (hne : result trace k ≠ .none) :
    ∃ s, Idle trace s ∧ Gesture trace s k (result trace k) :=
  ((phase hthresholds k hsampled).next hthresholds hsampled).2 hne

/-- The events are exactly those of the reference, however often the clock wraps around. -/
theorem classification_exact : Classified trace k := by
  constructor
  case exact =>
    intro event hne
    constructor
    · rintro rfl
      exact gesture_of_result hthresholds hsampled hne
    · rintro ⟨s, hidle, hgesture⟩
      exact (result_of_gesture hthresholds hsampled hidle hgesture).1
  case once => exact fun s e e' event event' h h' => h.unique h'
  case pressWins =>
    intro hclick
    obtain ⟨s, -, hgesture⟩ := gesture_of_result hthresholds hsampled (by rw [hclick]; decide)
    rw [hclick] at hgesture
    cases hgesture with
    | click _ _ _ _ hstill => exact hstill
  case releasedBetween =>
    intro k' hlt hne' hne
    have hsampled' := hsampled.mono hlt.le
    obtain ⟨s, hidle, hgesture⟩ := gesture_of_result hthresholds hsampled' hne'
    obtain ⟨-, last, hwaiting⟩ := result_of_gesture hthresholds hsampled' hidle hgesture
    by_contra hnone
    have hheld : ∀ j, k' < j → j < k → trace.level j = false := fun j hj hjk =>
      Bool.eq_false_of_not_eq_true fun hreleased => hnone ⟨j, hj, hjk, hreleased⟩
    have hstill := holds_until hlt hwaiting fun j hj hjk h =>
      (waiting_pressed h (hheld j hj hjk)).2
    cases hlevel : trace.level k with
    | true => exact hne (waiting_released hstill hlevel).1
    | false => exact hne (waiting_pressed hstill hlevel).1

end Classification

section Milliseconds

/-- Two short presses on a 32-bit millisecond clock, which wraps around before the second. -/
def wrappedPresses : Trace 32 where
  thresholds := millisecondThresholds
  setupTime := 0
  level k := k = 1
  time k := 4294967196 + 100 * k

theorem wrapped_classification : Classified wrappedPresses 2 := by
  apply classification_exact
  · decide
  · intro i _
    constructor
    · show 4294967196 + 100 * i ≤ 4294967196 + 100 * (i + 1)
      omega
    · show 4294967196 + 100 * (i + 1) + 400 < 4294967196 + 100 * i + 2 ^ 32
      omega

example : result wrappedPresses 2 = .doubleClick := by
  decide

end Milliseconds

end Run

end GrevirPeripherals.ClickReference
