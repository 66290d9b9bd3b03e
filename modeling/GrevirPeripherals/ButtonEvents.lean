import Mathlib.Data.List.Basic

/-!
The click classifier of `button_events.hpp`. Clock readings are unsigned `w`-bit
ticks, so a difference of two readings wraps; levels are those of the pin, `true`
for a released active-low button.
-/

namespace GrevirPeripherals.ButtonEvents

variable {w : Nat}

inductive InProcessingState where
  | off
  | waitForDelay
  | waitForRelease
  | waitForPossibleDoubleClick
deriving DecidableEq

inductive OutEventType where
  | none
  | click
  | doubleClick
  | longClick
deriving DecidableEq

/-- 300 ms and 400 ms in the ticks of the clock. -/
structure Thresholds (w : Nat) where
  longPressTime : BitVec w
  doubleClickTime : BitVec w

structure ButtonEventModule (w : Nat) where
  lastPressedTime : BitVec w
  inState : InProcessingState
  outEvent : OutEventType
deriving DecidableEq

/-- `runSetup` with the clock reading it takes. -/
def runSetup (now : BitVec w) : ButtonEventModule w where
  lastPressedTime := now
  inState := .off
  outEvent := .none

/-- `instanceLoop` with the level and the clock reading of the sample. -/
def instanceLoop (thresholds : Thresholds w) (button : ButtonEventModule w) (pinState : Bool)
    (now : BitVec w) : ButtonEventModule w :=
  match button.inState with
  | .off =>
      if !pinState then { button with inState := .waitForDelay, lastPressedTime := now }
      else button
  | .waitForDelay =>
      if pinState then
        { button with inState := .waitForPossibleDoubleClick, lastPressedTime := now }
      else if now - button.lastPressedTime ≥ thresholds.longPressTime then
        { button with outEvent := .longClick, inState := .waitForRelease }
      else button
  | .waitForPossibleDoubleClick =>
      if !pinState then { button with outEvent := .doubleClick, inState := .waitForRelease }
      else if now - button.lastPressedTime ≥ thresholds.doubleClickTime then
        { button with outEvent := .click, inState := .waitForRelease }
      else button
  | .waitForRelease =>
      if pinState then { button with inState := .off } else button

/-- `instanceGet`: the pending event, and the module without it. -/
def instanceGet (button : ButtonEventModule w) : OutEventType × ButtonEventModule w :=
  (button.outEvent, { button with outEvent := .none })

/-- What an application calls after setup. -/
inductive Call (w : Nat) where
  | runLoop (pinState : Bool) (now : BitVec w)
  | get
deriving DecidableEq

def step (thresholds : Thresholds w) (button : ButtonEventModule w) :
    Call w → ButtonEventModule w
  | .runLoop pinState now => instanceLoop thresholds button pinState now
  | .get => (instanceGet button).2

/-- The state after a run that starts with setup at `start`. -/
def run (thresholds : Thresholds w) (start : BitVec w) (calls : List (Call w)) :
    ButtonEventModule w :=
  calls.foldl (step thresholds) (runSetup start)

/-- A sample that reads pressed starts a press or completes a double click. -/
def Accounted (thresholds : Thresholds w) (button : ButtonEventModule w) (now : BitVec w) :
    Prop :=
  (button.inState = .off ∧
      (instanceLoop thresholds button false now).inState = .waitForDelay) ∨
    (button.inState = .waitForPossibleDoubleClick ∧
      (instanceLoop thresholds button false now).outEvent = .doubleClick)

/-- A sample that reads released ends the double-click window. -/
def Expires (thresholds : Thresholds w) (button : ButtonEventModule w) (now : BitVec w) : Prop :=
  button.inState = .waitForPossibleDoubleClick ∧
    now - button.lastPressedTime ≥ thresholds.doubleClickTime

/-- In the run a released sample at `released`, after the calls `before`, is
followed by a pressed one at `pressed`, with nothing but reads of the event between. -/
def PressEdge (calls before : List (Call w)) (released : BitVec w) (reads : Nat)
    (pressed : BitVec w) : Prop :=
  ∃ after, calls =
    before ++ .runLoop true released :: (List.replicate reads .get ++ .runLoop false pressed :: after)

/-- No press edge of the run is absorbed. -/
def EveryPressAccounted (thresholds : Thresholds w) (start : BitVec w) (calls : List (Call w)) :
    Prop :=
  ∀ before released reads pressed, PressEdge calls before released reads pressed →
    Accounted thresholds
      (run thresholds start (before ++ .runLoop true released :: List.replicate reads .get)) pressed

/-- No press edge of the run follows directly on the end of the double-click window. -/
def NoPressOnExpiry (thresholds : Thresholds w) (start : BitVec w) (calls : List (Call w)) :
    Prop :=
  ∀ before released reads pressed, PressEdge calls before released reads pressed →
    ¬Expires thresholds (run thresholds start before) released

theorem foldl_get_inState (thresholds : Thresholds w) (button : ButtonEventModule w)
    (reads : Nat) :
    ((List.replicate reads Call.get).foldl (step thresholds) button).inState =
      button.inState := by
  induction reads generalizing button with
  | zero => rfl
  | succ reads ih =>
      rw [List.replicate_succ, List.foldl_cons, ih]
      rfl

/-- A released sample leads to waiting for a release only by ending the window. -/
theorem released_inState (thresholds : Thresholds w) (button : ButtonEventModule w)
    (now : BitVec w) :
    (Expires thresholds button now →
        (instanceLoop thresholds button true now).inState = .waitForRelease) ∧
      (¬Expires thresholds button now →
        (instanceLoop thresholds button true now).inState = .off ∨
          (instanceLoop thresholds button true now).inState = .waitForPossibleDoubleClick) := by
  cases hstate : button.inState with
  | off => simp [Expires, instanceLoop, hstate]
  | waitForDelay => simp [Expires, instanceLoop, hstate]
  | waitForRelease => simp [Expires, instanceLoop, hstate]
  | waitForPossibleDoubleClick =>
      by_cases hexpired : now - button.lastPressedTime ≥ thresholds.doubleClickTime
      · simp [Expires, instanceLoop, hstate, hexpired]
      · simp [Expires, instanceLoop, hstate, hexpired]

theorem accounted_iff (thresholds : Thresholds w) (button : ButtonEventModule w)
    (now : BitVec w) :
    Accounted thresholds button now ↔
      button.inState = .off ∨ button.inState = .waitForPossibleDoubleClick := by
  cases hstate : button.inState <;> simp [Accounted, instanceLoop, hstate]

/-- Of a released and a directly following pressed sample, the second is absorbed
exactly when the first ends the double-click window. -/
theorem accounted_after_released_iff (thresholds : Thresholds w) (button : ButtonEventModule w)
    (released : BitVec w) (reads : Nat) (pressed : BitVec w) :
    Accounted thresholds
        ((List.replicate reads Call.get).foldl (step thresholds)
          (instanceLoop thresholds button true released)) pressed ↔
      ¬Expires thresholds button released := by
  rw [accounted_iff, foldl_get_inState]
  obtain ⟨hexpires, hopen⟩ := released_inState thresholds button released
  constructor
  · intro hstate hexpired
    rw [hexpires hexpired] at hstate
    simp at hstate
  · exact hopen

/-- A run accounts for all of its press edges if and only if none of them follows
directly on the end of a double-click window. -/
theorem everyPressAccounted_iff (thresholds : Thresholds w) (start : BitVec w)
    (calls : List (Call w)) :
    EveryPressAccounted thresholds start calls ↔ NoPressOnExpiry thresholds start calls := by
  have hedge (before : List (Call w)) (released : BitVec w) (reads : Nat) (pressed : BitVec w) :
      Accounted thresholds (run thresholds start
          (before ++ .runLoop true released :: List.replicate reads .get)) pressed ↔
        ¬Expires thresholds (run thresholds start before) released := by
    rw [run, List.foldl_append, List.foldl_cons]
    exact accounted_after_released_iff thresholds _ released reads pressed
  constructor
  · intro h before released reads pressed hpress
    exact (hedge before released reads pressed).mp (h before released reads pressed hpress)
  · intro h before released reads pressed hpress
    exact (hedge before released reads pressed).mpr (h before released reads pressed hpress)

/-- The thresholds of a millisecond clock. -/
def millisecondThresholds : Thresholds 32 where
  longPressTime := 300
  doubleClickTime := 400

/-- A click, the end of its window at 450 ms, and a second press 10 ms later that is held. -/
def lostPressRun : List (Call 32) :=
  [.runLoop false 0, .runLoop true 50, .runLoop true 450, .get, .runLoop false 460, .get,
    .runLoop false 860, .get]

theorem lostPressRun_not_accounted :
    ¬EveryPressAccounted millisecondThresholds 0 lostPressRun := by
  intro h
  have hedge : PressEdge lostPressRun [.runLoop false 0, .runLoop true 50] 450 1 460 :=
    ⟨[.get, .runLoop false 860, .get], rfl⟩
  have haccounted := h _ _ _ _ hedge
  rw [accounted_iff] at haccounted
  revert haccounted
  decide

end GrevirPeripherals.ButtonEvents
