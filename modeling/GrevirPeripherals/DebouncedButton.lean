import GrevirPeripherals.ClickReference
import GrevirPeripherals.Debounce
import Mathlib.Order.Lattice.Nat

/-!
A button whose pin is a debounced input: in every loop the debouncer takes a raw sample
and the classifier the level it returns. The events are those of gestures made of raw
levels that were held for longer than the debounce interval.
-/

namespace GrevirPeripherals.DebouncedButton

open GrevirPeripherals.ButtonEvents (ButtonEventModule OutEventType Thresholds instanceGet
  millisecondThresholds)
open GrevirPeripherals.Debounce (DebounceState blockStart blockStart_isLeast debounce output
  output_eq_reference reference stateAfter)
open GrevirPeripherals.ModularClock

variable {w : Nat}

section Model

/-- A button on a debounced pin, with the raw sample of each loop and the two clock
readings, first that of the debouncer and then that of the classifier. -/
structure Wiring (w : Nat) where
  debounceTime : Nat
  thresholds : Thresholds w
  setupLevel : Bool
  debounceSetup : BitVec w
  buttonSetup : BitVec w
  raw : Nat → Bool
  readTime : Nat → Nat
  loopTime : Nat → Nat

abbrev Wiring.long (wiring : Wiring w) : Nat :=
  wiring.thresholds.longPressTime.toNat

abbrev Wiring.window (wiring : Wiring w) : Nat :=
  wiring.thresholds.doubleClickTime.toNat

structure Modules (w : Nat) where
  debounceState : DebounceState w
  button : ButtonEventModule w

/-- `instanceLoop` where `InPin::get` goes through the debouncer. -/
def instanceLoop (debounceTime : Nat) (thresholds : Thresholds w) (modules : Modules w)
    (raw : Bool) (read now : BitVec w) : Modules w :=
  let sample := debounce debounceTime modules.debounceState raw read
  { debounceState := sample.2
    button := ButtonEvents.instanceLoop thresholds modules.button sample.1 now }

variable (wiring : Wiring w)

def loop (modules : Modules w) (k : Nat) : Modules w :=
  instanceLoop wiring.debounceTime wiring.thresholds modules (wiring.raw k)
    (BitVec.ofNat w (wiring.readTime k)) (BitVec.ofNat w (wiring.loopTime k))

/-- The modules before a loop; every earlier one was followed by `get`. -/
def before : Nat → Modules w
  | 0 =>
      { debounceState := Debounce.runSetup wiring.setupLevel wiring.debounceSetup
        button := ButtonEvents.runSetup wiring.buttonSetup }
  | k + 1 =>
      let modules := loop wiring (before k) k
      { modules with button := (instanceGet modules.button).2 }

/-- What `get` returns after a loop. -/
def result (k : Nat) : OutEventType :=
  (instanceGet (loop wiring (before wiring k) k).button).1

end Model

section Reference

variable (wiring : Wiring w)

/-- Up to the sample, the raw level has been the given one for longer than the interval. -/
def Held (k : Nat) (level : Bool) : Prop :=
  ∃ j, j ≤ k ∧ (∀ i, j ≤ i → i ≤ k → wiring.raw i = level) ∧
    wiring.readTime j + wiring.debounceTime < wiring.readTime k

/-- The first press held from `s` on. The level of the setup needs no holding. -/
def FirstPress (s i : Nat) : Prop :=
  IsLeast {k | s ≤ k ∧ (Held wiring k false ∨ k = 0 ∧ wiring.setupLevel = false)} i

/-- The first sample after the press `i` that has a release held or makes the press long. -/
def EndOfPress (i m : Nat) : Prop :=
  IsLeast {k | i < k ∧
    (Held wiring k true ∨ wiring.loopTime i + wiring.long ≤ wiring.loopTime k)} m

/-- The first sample after the release `m` that has a press held or comes after the window. -/
def EndOfWindow (m n : Nat) : Prop :=
  IsLeast {k | m < k ∧
    (Held wiring k false ∨ wiring.loopTime m + wiring.window ≤ wiring.loopTime k)} n

def FirstRelease (e r : Nat) : Prop :=
  IsLeast {k | e < k ∧ Held wiring k true} r

/-- The event of the raw gesture that follows when the classifier is idle at `s`, with the
sample that completes it. -/
inductive Gesture (s : Nat) : Nat → OutEventType → Prop
  | longClick {i m : Nat} (hi : FirstPress wiring s i) (hm : EndOfPress wiring i m)
      (hpressed : ¬Held wiring m true) : Gesture s m .longClick
  | doubleClick {i m n : Nat} (hi : FirstPress wiring s i) (hm : EndOfPress wiring i m)
      (hreleased : Held wiring m true) (hn : EndOfWindow wiring m n)
      (hpressed : Held wiring n false) : Gesture s n .doubleClick
  | click {i m n : Nat} (hi : FirstPress wiring s i) (hm : EndOfPress wiring i m)
      (hreleased : Held wiring m true) (hn : EndOfWindow wiring m n)
      (hstill : ¬Held wiring n false) : Gesture s n .click

/-- The sample from which on the classifier is idle. A click ends released, so the next
sample makes it idle, unless that one has a press held, which then goes by unheard. -/
inductive Idle : Nat → Prop
  | setup : Idle 0
  | released {s e r : Nat} {event : OutEventType} (h : Idle s)
      (hgesture : Gesture wiring s e event) (hpressed : event = .click → Held wiring (e + 1) false)
      (hr : FirstRelease wiring e r) : Idle (r + 1)
  | stillReleased {s e : Nat} (h : Idle s) (hgesture : Gesture wiring s e .click)
      (hstill : ¬Held wiring (e + 1) false) : Idle (e + 2)

end Reference

section Composition

variable (wiring : Wiring w)

/-- The level that the debouncer returns. -/
def accepted (k : Nat) : Bool :=
  output wiring.debounceTime wiring.setupLevel wiring.debounceSetup wiring.raw wiring.readTime k

/-- The samples of the classifier. -/
def trace : ClickReference.Trace w where
  thresholds := wiring.thresholds
  setupTime := wiring.buttonSetup
  level := accepted wiring
  time := wiring.loopTime

theorem before_eq (k : Nat) :
    before wiring k =
      { debounceState := stateAfter wiring.debounceTime wiring.setupLevel wiring.debounceSetup
          wiring.raw wiring.readTime k
        button := ClickReference.before (trace wiring) k } := by
  induction k with
  | zero => rfl
  | succ k ih =>
      rw [before, ih]
      rfl

theorem result_eq (k : Nat) : result wiring k = ClickReference.result (trace wiring) k := by
  rw [result, before_eq]
  rfl

variable {wiring} {k : Nat} {level : Bool}

theorem held_iff (hsampled : Sampled w wiring.debounceTime wiring.readTime k) :
    Held wiring k level ↔
      wiring.raw k = level ∧
        wiring.debounceTime < wiring.readTime k - wiring.readTime (blockStart wiring.raw k) := by
  obtain ⟨⟨hle, hsame⟩, hleast⟩ := blockStart_isLeast wiring.raw k
  constructor
  · rintro ⟨j, hjk, hall, hspan⟩
    have hlevel := hall k hjk le_rfl
    have hstart := hleast ⟨hjk, fun i hi hik => (hall i hi hik).trans hlevel.symm⟩
    have htime := hsampled.le hstart hjk
    exact ⟨hlevel, by omega⟩
  · rintro ⟨rfl, hspan⟩
    exact ⟨_, hle, hsame, by omega⟩

theorem accepted_zero : accepted wiring 0 = wiring.setupLevel := by
  rw [accepted, output_eq_reference _ _ _ _ _ 0 fun i hi => absurd hi (Nat.not_lt_zero i),
    reference, blockStart, Nat.sub_self, if_neg (Nat.not_lt_zero _)]

theorem accepted_of_held (hsampled : Sampled w wiring.debounceTime wiring.readTime k)
    (hheld : Held wiring k level) : accepted wiring k = level := by
  obtain ⟨hlevel, hspan⟩ := (held_iff hsampled).mp hheld
  rw [accepted, output_eq_reference _ _ _ _ _ k hsampled]
  cases k <;> rw [reference, if_pos hspan, hlevel]

/-- The accepted level stays unless the opposite one is held. -/
theorem accepted_succ (hsampled : Sampled w wiring.debounceTime wiring.readTime (k + 1))
    (hnot : ¬Held wiring (k + 1) (!accepted wiring k)) :
    accepted wiring (k + 1) = accepted wiring k := by
  have hreference (j : Nat) (hj : j ≤ k + 1) :=
    output_eq_reference wiring.debounceTime wiring.setupLevel wiring.debounceSetup wiring.raw
      wiring.readTime j (hsampled.mono hj)
  rw [held_iff hsampled] at hnot
  simp only [accepted, hreference k (Nat.le_succ k), hreference (k + 1) le_rfl] at hnot ⊢
  rw [reference]
  split_ifs with hspan
  · by_contra hne
    exact hnot ⟨Bool.eq_not_of_ne hne, hspan⟩
  · rfl

/-- The first sample at which the accepted level is another one has it held. -/
theorem held_of_first {i : Nat} (hsampled : Sampled w wiring.debounceTime wiring.readTime k)
    (hik : i < k) (hi : accepted wiring i ≠ level) (hk : accepted wiring k = level)
    (hfirst : ∀ j, i < j → j < k → accepted wiring j ≠ level) : Held wiring k level := by
  obtain ⟨k, rfl⟩ := Nat.exists_eq_add_one_of_ne_zero (Nat.ne_zero_of_lt hik)
  have hlast : accepted wiring k ≠ level := by
    rcases Nat.lt_succ_iff_lt_or_eq.mp hik with hlt | rfl
    · exact hfirst k hlt (Nat.lt_succ_self k)
    · exact hi
  by_contra hnot
  rw [Bool.eq_not_of_ne hlast.symm] at hnot
  exact hlast ((accepted_succ hsampled hnot).symm.trans hk)

end Composition

section Firsts

/-- Two sets have the same first element where the second one lies in the first one and
has its first element. -/
theorem isLeast_iff {A B : Set Nat} {m : Nat} (hsub : ∀ k ≤ m, k ∈ B → k ∈ A)
    (hfirst : ∀ k ≤ m, IsLeast A k → k ∈ B) : IsLeast A m ↔ IsLeast B m := by
  constructor
  · intro h
    refine ⟨hfirst m le_rfl h, fun k hk => ?_⟩
    by_contra hlt
    exact hlt (h.2 (hsub k (not_le.mp hlt).le hk))
  · intro h
    refine ⟨hsub m le_rfl h.1, fun k hk => ?_⟩
    by_contra hlt
    have hleast : IsLeast A (sInf A) := ⟨Nat.sInf_mem ⟨k, hk⟩, fun _ hj => Nat.sInf_le hj⟩
    have hle := hleast.2 hk
    exact absurd (h.2 (hfirst (sInf A) (by omega) hleast)) (by omega)

variable {wiring : Wiring w} {i m : Nat} {level : Bool} {P : Nat → Prop}

/-- The first sample to have a level accepted or to meet another condition, told from the
raw samples. -/
theorem isLeast_accepted_iff (hsampled : Sampled w wiring.debounceTime wiring.readTime m)
    (hi : accepted wiring i ≠ level) :
    IsLeast {k | i < k ∧ (accepted wiring k = level ∨ P k)} m ↔
      IsLeast {k | i < k ∧ (Held wiring k level ∨ P k)} m := by
  apply isLeast_iff
  · rintro k hkm ⟨hik, hheld | hP⟩
    · exact ⟨hik, Or.inl (accepted_of_held (hsampled.mono hkm) hheld)⟩
    · exact ⟨hik, Or.inr hP⟩
  · rintro k hkm ⟨⟨hik, haccepted | hP⟩, hleast⟩
    · refine ⟨hik, Or.inl (held_of_first (hsampled.mono hkm) hik hi haccepted ?_)⟩
      intro j hij hjk haccepted
      exact absurd (hleast ⟨hij, Or.inl haccepted⟩) (by omega)
    · exact ⟨hik, Or.inr hP⟩

/-- At the first such sample the level is accepted exactly if it is held there. -/
theorem held_iff_accepted (hsampled : Sampled w wiring.debounceTime wiring.readTime m)
    (hi : accepted wiring i ≠ level)
    (hm : IsLeast {k | i < k ∧ (accepted wiring k = level ∨ P k)} m) :
    Held wiring m level ↔ accepted wiring m = level := by
  constructor
  · exact accepted_of_held hsampled
  · intro haccepted
    refine held_of_first hsampled hm.1.1 hi haccepted fun j hij hjm hj => ?_
    exact absurd (hm.2 ⟨hij, Or.inl hj⟩) (not_le.mpr hjm)

end Firsts

section Gestures

variable {wiring : Wiring w} {s i m n e : Nat} {event : OutEventType}

/-- The level accepted before the classifier turned idle is that of a released button. -/
def ReleasedBefore (wiring : Wiring w) (s : Nat) : Prop :=
  ∀ r, s = r + 1 → accepted wiring r = true

theorem firstPress_iff (hsampled : Sampled w wiring.debounceTime wiring.readTime i)
    (hs : ReleasedBefore wiring s) :
    ClickReference.FirstPress (trace wiring) s i ↔ FirstPress wiring s i := by
  apply isLeast_iff
  · rintro k hki ⟨hsk, hheld | ⟨rfl, hsetup⟩⟩
    · exact ⟨hsk, accepted_of_held (hsampled.mono hki) hheld⟩
    · exact ⟨hsk, accepted_zero.trans hsetup⟩
  · rintro k hki ⟨⟨hsk, hpressed⟩, hleast⟩
    refine ⟨hsk, ?_⟩
    have hopen (j : Nat) (hsj : s ≤ j) (hjk : j < k) : accepted wiring j ≠ false := by
      intro hj
      exact absurd (hleast ⟨hsj, hj⟩) (not_le.mpr hjk)
    cases s with
    | zero =>
        rcases Nat.eq_zero_or_pos k with rfl | hpos
        · exact Or.inr ⟨rfl, accepted_zero.symm.trans hpressed⟩
        · exact Or.inl (held_of_first (hsampled.mono hki) hpos (hopen 0 le_rfl hpos) hpressed
            fun j _ => hopen j (Nat.zero_le j))
    | succ r =>
        have hr : accepted wiring r ≠ false := by simp [hs r rfl]
        exact Or.inl (held_of_first (hsampled.mono hki) hsk hr hpressed fun j hrj => hopen j hrj)

theorem endOfPress_iff (hsampled : Sampled w wiring.debounceTime wiring.readTime m)
    (hi : accepted wiring i = false) :
    ClickReference.EndOfPress (trace wiring) i m ↔ EndOfPress wiring i m :=
  isLeast_accepted_iff hsampled (by simp [hi])

theorem endOfWindow_iff (hsampled : Sampled w wiring.debounceTime wiring.readTime n)
    (hm : accepted wiring m = true) :
    ClickReference.EndOfWindow (trace wiring) m n ↔ EndOfWindow wiring m n :=
  isLeast_accepted_iff hsampled (by simp [hm])

/-- The gestures of the accepted levels are those of the raw ones. -/
theorem gesture_iff (hsampled : Sampled w wiring.debounceTime wiring.readTime e)
    (hs : ReleasedBefore wiring s) :
    ClickReference.Gesture (trace wiring) s e event ↔ Gesture wiring s e event := by
  constructor
  · intro h
    cases h with
    | @longClick i _ hi hm hpressed =>
        have hpress : accepted wiring i = false := hi.1.2
        have hheld := held_iff_accepted hsampled (by simp [hpress]) hm
        refine .longClick ((firstPress_iff (hsampled.mono hm.1.1.le) hs).mp hi)
          ((endOfPress_iff hsampled hpress).mp hm) ?_
        rw [hheld]
        exact ne_true_of_eq_false hpressed
    | @doubleClick i m _ hi hm hreleased hn hpressed =>
        have hpress : accepted wiring i = false := hi.1.2
        have hm' := hsampled.mono hn.1.1.le
        exact .doubleClick ((firstPress_iff (hm'.mono hm.1.1.le) hs).mp hi)
          ((endOfPress_iff hm' hpress).mp hm)
          ((held_iff_accepted hm' (by simp [hpress]) hm).mpr hreleased)
          ((endOfWindow_iff hsampled hreleased).mp hn)
          ((held_iff_accepted hsampled (ne_false_of_eq_true hreleased) hn).mpr hpressed)
    | @click i m _ hi hm hreleased hn hstill =>
        have hpress : accepted wiring i = false := hi.1.2
        have hm' := hsampled.mono hn.1.1.le
        have hheld := held_iff_accepted hsampled (ne_false_of_eq_true hreleased) hn
        refine .click ((firstPress_iff (hm'.mono hm.1.1.le) hs).mp hi)
          ((endOfPress_iff hm' hpress).mp hm)
          ((held_iff_accepted hm' (by simp [hpress]) hm).mpr hreleased)
          ((endOfWindow_iff hsampled hreleased).mp hn) ?_
        rw [hheld]
        exact ne_false_of_eq_true hstill
  · intro h
    cases h with
    | @longClick i _ hi hm hpressed =>
        have hi := (firstPress_iff (hsampled.mono hm.1.1.le) hs).mpr hi
        have hpress : accepted wiring i = false := hi.1.2
        have hm := (endOfPress_iff hsampled hpress).mpr hm
        rw [held_iff_accepted hsampled (by simp [hpress]) hm] at hpressed
        exact .longClick hi hm (Bool.eq_false_of_not_eq_true hpressed)
    | @doubleClick i m _ hi hm hreleased hn hpressed =>
        have hm' := hsampled.mono hn.1.1.le
        have hi := (firstPress_iff (hm'.mono hm.1.1.le) hs).mpr hi
        have hreleased := accepted_of_held hm' hreleased
        exact .doubleClick hi ((endOfPress_iff hm' hi.1.2).mpr hm) hreleased
          ((endOfWindow_iff hsampled hreleased).mpr hn) (accepted_of_held hsampled hpressed)
    | @click i m _ hi hm hreleased hn hstill =>
        have hm' := hsampled.mono hn.1.1.le
        have hi := (firstPress_iff (hm'.mono hm.1.1.le) hs).mpr hi
        have hreleased := accepted_of_held hm' hreleased
        have hn := (endOfWindow_iff hsampled hreleased).mpr hn
        rw [held_iff_accepted hsampled (ne_false_of_eq_true hreleased) hn] at hstill
        exact .click hi ((endOfPress_iff hm' hi.1.2).mpr hm) hreleased hn
          (Bool.eq_true_of_not_eq_false hstill)

/-- Only a click ends with the button released. -/
theorem accepted_of_gesture (h : ClickReference.Gesture (trace wiring) s e event) :
    accepted wiring e = true ↔ event = .click := by
  cases h with
  | longClick _ _ hpressed => exact iff_of_false (ne_true_of_eq_false hpressed) nofun
  | doubleClick _ _ _ _ hpressed => exact iff_of_false (ne_true_of_eq_false hpressed) nofun
  | click _ _ _ _ hstill => exact iff_of_true hstill rfl

theorem firstRelease_iff {r : Nat} (hsampled : Sampled w wiring.debounceTime wiring.readTime r)
    (hlow : accepted wiring e = false ∨ Held wiring (e + 1) false) :
    ClickReference.FirstRelease (trace wiring) e r ↔ FirstRelease wiring e r := by
  apply isLeast_iff
  · rintro k hkr ⟨hek, hheld⟩
    exact ⟨hek, accepted_of_held (hsampled.mono hkr) hheld⟩
  · rintro k hkr ⟨⟨hek, hreleased⟩, hleast⟩
    have hopen (j : Nat) (hej : e < j) (hjk : j < k) : accepted wiring j ≠ true := by
      intro hj
      exact absurd (hleast ⟨hej, hj⟩) (not_le.mpr hjk)
    refine ⟨hek, ?_⟩
    rcases hlow with he | hheld
    · exact held_of_first (hsampled.mono hkr) hek (by simp [he]) hreleased hopen
    · have hnext := accepted_of_held (hsampled.mono (Nat.le_trans hek hkr)) hheld
      have hlt : e + 1 < k := by
        refine lt_of_le_of_ne hek ?_
        rintro rfl
        exact Bool.false_ne_true (hnext.symm.trans hreleased)
      exact held_of_first (hsampled.mono hkr) hlt (by simp [hnext]) hreleased
        fun j hj => hopen j (Nat.lt_of_succ_lt hj)

theorem firstRelease_of_still (hsampled : Sampled w wiring.debounceTime wiring.readTime (e + 1))
    (he : accepted wiring e = true) (hstill : ¬Held wiring (e + 1) false) :
    ClickReference.FirstRelease (trace wiring) e (e + 1) := by
  have hnext : accepted wiring (e + 1) = accepted wiring e :=
    accepted_succ hsampled (by simpa [he] using hstill)
  exact ⟨⟨Nat.lt_succ_self e, hnext.trans he⟩, fun j hj => hj.1⟩

theorem releasedBefore_of_idle (h : ClickReference.Idle (trace wiring) s) :
    ReleasedBefore wiring s := by
  intro r hr
  cases h with
  | setup => contradiction
  | released _ _ hrelease =>
      obtain rfl := Nat.succ.inj hr
      exact hrelease.1.2

theorem idle_of_reference (h : ClickReference.Idle (trace wiring) s)
    (hsampled : Sampled w wiring.debounceTime wiring.readTime s) : Idle wiring s := by
  induction h with
  | setup => exact .setup
  | @released s e r event hidle hgesture hr ih =>
      have hsampled' := hsampled.mono (Nat.le_succ r)
      have hsampledE := hsampled'.mono hr.1.1.le
      have hidle' := ih (hsampledE.mono hgesture.le)
      have hraw := (gesture_iff hsampledE (releasedBefore_of_idle hidle)).mp hgesture
      have haccepted := accepted_of_gesture hgesture
      by_cases hlow : accepted wiring e = false ∨ Held wiring (e + 1) false
      · refine .released hidle' hraw (fun hclick => ?_) ((firstRelease_iff hsampled' hlow).mp hr)
        exact hlow.resolve_left (ne_false_of_eq_true (haccepted.mpr hclick))
      · rw [not_or, Bool.not_eq_false] at hlow
        obtain rfl := haccepted.mp hlow.1
        obtain rfl := hr.unique
          (firstRelease_of_still (hsampled'.mono hr.1.1) hlow.1 hlow.2)
        exact .stillReleased hidle' hraw hlow.2

theorem Gesture.le (h : Gesture wiring s e event) : s ≤ e := by
  cases h with
  | longClick hi hm _ => exact hi.1.1.trans hm.1.1.le
  | doubleClick hi hm _ hn _ | click hi hm _ hn _ =>
      exact (hi.1.1.trans hm.1.1.le).trans hn.1.1.le

theorem reference_of_idle (h : Idle wiring s)
    (hsampled : Sampled w wiring.debounceTime wiring.readTime s) :
    ClickReference.Idle (trace wiring) s := by
  induction h with
  | setup => exact .setup
  | @released s e r event _ hgesture hpressed hr ih =>
      have hsampled' := hsampled.mono (Nat.le_succ r)
      have hsampledE := hsampled'.mono hr.1.1.le
      have hidle := ih (hsampledE.mono hgesture.le)
      have hreference := (gesture_iff hsampledE (releasedBefore_of_idle hidle)).mpr hgesture
      have haccepted := accepted_of_gesture hreference
      refine .released hidle hreference ((firstRelease_iff hsampled' ?_).mpr hr)
      rcases Bool.eq_false_or_eq_true (accepted wiring e) with htrue | hfalse
      · exact Or.inr (hpressed (haccepted.mp htrue))
      · exact Or.inl hfalse
  | @stillReleased s e _ hgesture hstill ih =>
      have hsampled' := hsampled.mono (Nat.le_succ (e + 1))
      have hsampledE := hsampled'.mono (Nat.le_succ e)
      have hidle := ih (hsampledE.mono hgesture.le)
      have hreference := (gesture_iff hsampledE (releasedBefore_of_idle hidle)).mpr hgesture
      exact .released hidle hreference
        (firstRelease_of_still hsampled' ((accepted_of_gesture hreference).mpr rfl) hstill)

end Gestures

section Bounces

variable {wiring : Wiring w} {raw : Nat → Bool} {k : Nat}

def Wiring.withRaw (wiring : Wiring w) (raw : Nat → Bool) : Wiring w :=
  { wiring with raw := raw }

/-- Other raw samples that have the same levels held. -/
def SameHeld (wiring : Wiring w) (raw : Nat → Bool) (k : Nat) : Prop :=
  ∀ j ≤ k, ∀ level, Held (wiring.withRaw raw) j level ↔ Held wiring j level

theorem accepted_of_sameHeld (hsampled : Sampled w wiring.debounceTime wiring.readTime k)
    (hsame : SameHeld wiring raw k) :
    accepted (wiring.withRaw raw) k = accepted wiring k := by
  induction k with
  | zero =>
      rw [accepted_zero, accepted_zero]
      rfl
  | succ k ih =>
      have hsampled' : Sampled w (wiring.withRaw raw).debounceTime
        (wiring.withRaw raw).readTime (k + 1) := hsampled
      have ih := ih (hsampled.mono (Nat.le_succ k)) fun j hj => hsame j (hj.trans (Nat.le_succ k))
      by_cases hheld : Held wiring (k + 1) (!accepted wiring k)
      · rw [accepted_of_held hsampled hheld]
        exact accepted_of_held hsampled' ((hsame (k + 1) le_rfl _).mpr hheld)
      · rw [accepted_succ hsampled hheld, ← ih]
        apply accepted_succ hsampled'
        rwa [hsame (k + 1) le_rfl, ih]

theorem reference_before_congr {trace trace' : ClickReference.Trace w}
    (hthresholds : trace.thresholds = trace'.thresholds)
    (hsetup : trace.setupTime = trace'.setupTime) (htime : trace.time = trace'.time)
    (hlevel : ∀ j, j < k → trace.level j = trace'.level j) :
    ClickReference.before trace k = ClickReference.before trace' k := by
  induction k with
  | zero => rw [ClickReference.before, ClickReference.before, hsetup]
  | succ k ih =>
      rw [ClickReference.before, ClickReference.before, hthresholds, htime,
        hlevel k (Nat.lt_succ_self k), ih fun j hj => hlevel j (hj.trans (Nat.lt_succ_self k))]

theorem result_of_sameHeld (hsampled : Sampled w wiring.debounceTime wiring.readTime k)
    (hsame : SameHeld wiring raw k) :
    result (wiring.withRaw raw) k = result wiring k := by
  have haccepted (j : Nat) (hj : j ≤ k) :
      accepted (wiring.withRaw raw) j = accepted wiring j :=
    accepted_of_sameHeld (hsampled.mono hj) fun i hi => hsame i (hi.trans hj)
  have hbefore : ClickReference.before (trace (wiring.withRaw raw)) k =
      ClickReference.before (trace wiring) k :=
    reference_before_congr rfl rfl rfl fun j hj => haccepted j hj.le
  rw [result_eq, result_eq, ClickReference.result, ClickReference.result, hbefore]
  show (instanceGet (ButtonEvents.instanceLoop _ _ (accepted _ k) _)).1 = _
  rw [haccepted k le_rfl]
  rfl

end Bounces

section EndToEnd

/-- What `get` returns after a loop, against the raw samples. -/
structure EndToEnd (wiring : Wiring w) (k : Nat) : Prop where
  exact : ∀ event, event ≠ .none →
    (result wiring k = event ↔ ∃ s, Idle wiring s ∧ Gesture wiring s k event)
  bounces : ∀ raw, SameHeld wiring raw k → result (wiring.withRaw raw) k = result wiring k

/-- The events are exactly those of the gestures of levels held on the raw pin, and raw
samples that no level is held in make no difference. -/
theorem events_exact {wiring : Wiring w} {k : Nat}
    (hthresholds : wiring.thresholds.longPressTime ≤ wiring.thresholds.doubleClickTime)
    (hread : Sampled w wiring.debounceTime wiring.readTime k)
    (hloop : Sampled w wiring.window wiring.loopTime k) : EndToEnd wiring k := by
  refine ⟨fun event hne => ?_, fun raw => result_of_sameHeld hread⟩
  rw [result_eq]
  constructor
  · rintro rfl
    obtain ⟨s, hidle, hgesture⟩ := ClickReference.gesture_of_result hthresholds hloop hne
    exact ⟨s, idle_of_reference hidle (hread.mono hgesture.le),
      (gesture_iff hread (releasedBefore_of_idle hidle)).mp hgesture⟩
  · rintro ⟨s, hidle, hgesture⟩
    have hidle := reference_of_idle hidle (hread.mono hgesture.le)
    exact (ClickReference.result_of_gesture hthresholds hloop hidle
      ((gesture_iff hread (releasedBefore_of_idle hidle)).mpr hgesture)).1

/-- A press and a release that bounce, sampled at irregular times by a 32-bit clock. -/
def bouncingPress : Wiring 32 where
  debounceTime := 10
  thresholds := millisecondThresholds
  setupLevel := true
  debounceSetup := 0
  buttonSetup := 0
  raw k := [true, true, false, true, false, false, false, true, false, true, true, true,
    true].getD k true
  readTime k := [0, 500, 501, 505, 520, 530, 531, 550, 555, 570, 580, 581, 980].getD k (k + 969)
  loopTime k := [0, 500, 501, 505, 520, 530, 531, 550, 555, 570, 580, 581, 980].getD k (k + 969)

theorem bouncingPress_events : EndToEnd bouncingPress 13 := by
  apply events_exact
  · decide
  · unfold Sampled
    decide
  · unfold Sampled
    decide

example : result bouncingPress 13 = .click := by
  decide +kernel

end EndToEnd

end GrevirPeripherals.DebouncedButton
