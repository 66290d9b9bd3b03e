import GrevirPeripherals.ButtonEvents
import GrevirPeripherals.LatestValue

/-!
Reads of the click classifier at any times between its samples. The classification does
not depend on them; the event of a gesture waits in a slot of its own until it is read.
-/

namespace GrevirPeripherals.EventDelivery

open GrevirPeripherals.ButtonEvents
open GrevirPeripherals.CallRuns
open GrevirPeripherals.LatestValue (Action Lossless Overwrites delivered delivered_eq_iff
  delivered_sublist)

variable {w : Nat} (thresholds : Thresholds w)

/-- A call with what it returns. -/
def perform (button : ButtonEventModule w) : Call w → List OutEventType × ButtonEventModule w
  | .runLoop pinState now => ([], instanceLoop thresholds button pinState now)
  | .get => ([(instanceGet button).1], (instanceGet button).2)

/-- The events among what the reads return. -/
def events (returned : List OutEventType) : List OutEventType :=
  returned.filter fun event => event ≠ .none

/-- The same samples, each of them followed by one read. -/
def polled (calls : List (Call w)) : List (Call w) :=
  calls.flatMap fun
    | .runLoop pinState now => [.runLoop pinState now, .get]
    | .get => []

/-- Samples that find the button released are followed by a read. -/
def Attentive (calls : List (Call w)) : Prop :=
  ∀ before released next rest,
    calls = before ++ .runLoop true released :: next :: rest → next = .get

section Slot

/-- The event that waits to be read. -/
def pending (event : OutEventType) : Option OutEventType :=
  if event = .none then none else some event

def slot (button : ButtonEventModule w) : Option OutEventType :=
  pending button.outEvent

/-- The module without the event that waits to be read. -/
def cleared (button : ButtonEventModule w) : ButtonEventModule w :=
  { button with outEvent := .none }

/-- The event that a sample completes. -/
def raises (button : ButtonEventModule w) (pinState : Bool) (now : BitVec w) :
    Option OutEventType :=
  slot (instanceLoop thresholds (cleared button) pinState now)

/-- The call raises an event where another one waits to be read. -/
def Loses (button : ButtonEventModule w) (call : Call w) : Prop :=
  button.outEvent ≠ .none ∧
    ∃ pinState now, call = .runLoop pinState now ∧ (raises thresholds button pinState now).isSome

/-- A call as the slot sees it. -/
def action (button : ButtonEventModule w) : Call w → Action OutEventType
  | .runLoop pinState now => .write (raises thresholds button pinState now)
  | .get => .take

theorem events_eq_filterMap (returned : List OutEventType) :
    events returned = returned.filterMap pending := by
  induction returned with
  | nil => rfl
  | cons event returned ih => cases event <;> simpa [events, pending] using ih

theorem events_cons (event : OutEventType) (returned : List OutEventType) :
    events (event :: returned) = (pending event).toList ++ events returned := by
  cases event <;> simp [events, pending]

theorem cleared_instanceLoop (button : ButtonEventModule w) (pinState : Bool) (now : BitVec w) :
    cleared (instanceLoop thresholds button pinState now) =
      cleared (instanceLoop thresholds (cleared button) pinState now) := by
  obtain ⟨last, inState, event⟩ := button
  cases inState <;> simp only [instanceLoop, cleared] <;> split_ifs <;> simp [*]

theorem slot_instanceLoop (button : ButtonEventModule w) (pinState : Bool) (now : BitVec w) :
    slot (instanceLoop thresholds button pinState now) =
      (raises thresholds button pinState now).or (slot button) := by
  obtain ⟨last, inState, event⟩ := button
  cases inState <;> simp only [raises, instanceLoop, cleared, slot] <;> split_ifs <;>
    simp [*, pending]

/-- The slot of the module is a register for the latest event. -/
theorem slot_simulates :
    Simulates (perform thresholds) LatestValue.step slot (action thresholds) pending := by
  intro button call
  cases call with
  | runLoop pinState now =>
      rw [perform, action, LatestValue.step, slot_instanceLoop]
      rfl
  | get =>
      obtain ⟨last, inState, event⟩ := button
      cases event <;> rfl

theorem overwrites_iff (button : ButtonEventModule w) (call : Call w) :
    Overwrites (slot button) (action thresholds button call) ↔ Loses thresholds button call := by
  cases call with
  | get => simp [Overwrites, Loses, action, Action.written]
  | runLoop pinState now =>
      show (pending button.outEvent).isSome = true ∧
        (raises thresholds button pinState now).toList ≠ [] ↔ _
      cases hevent : button.outEvent <;> simp [Loses, pending, hevent, Option.isSome_iff_ne_none]

end Slot

section Polling

/-- Reading after every sample leads to the same classification, and the reads return
what every sample raised. -/
theorem polled_run (button : ButtonEventModule w) (calls : List (Call w)) :
    after (perform thresholds) (cleared button) (polled calls) =
        cleared (after (perform thresholds) button calls) ∧
      events (returned (perform thresholds) (cleared button) (polled calls)) =
        (labels (perform thresholds) (action thresholds) button calls).flatMap
          Action.written := by
  induction calls generalizing button with
  | nil => exact ⟨rfl, rfl⟩
  | cons call calls ih =>
      cases call with
      | get => exact ih (instanceGet button).2
      | runLoop pinState now =>
          obtain ⟨hafter, hevents⟩ := ih (instanceLoop thresholds button pinState now)
          rw [cleared_instanceLoop] at hafter hevents
          refine ⟨hafter, ?_⟩
          show events (_ :: returned (perform thresholds) _ (polled calls)) = _ ++ _
          rw [events_cons]
          exact congrArg _ hevents

end Polling

section Attention

/-- An event that waits to be read does so while the button is still pressed. -/
def Settled (button : ButtonEventModule w) : Prop :=
  button.outEvent ≠ .none → button.inState = .waitForRelease

theorem Settled.not_loses {button : ButtonEventModule w} (h : Settled button) (call : Call w) :
    ¬Loses thresholds button call := by
  rintro ⟨hpending, pinState, now, rfl, hraises⟩
  have hstate := h hpending
  cases pinState <;> simp [raises, instanceLoop, cleared, slot, pending, hstate] at hraises

theorem Settled.pressed {button : ButtonEventModule w} (h : Settled button) (now : BitVec w) :
    Settled (instanceLoop thresholds button false now) := by
  intro hpending
  rcases eq_or_ne button.outEvent .none with hnone | hwaits
  · revert hpending
    rw [instanceLoop]
    cases button.inState <;> simp only <;> split_ifs <;> simp [hnone]
  · simp [instanceLoop, h hwaits]

/-- Between a released sample and the read that follows it an event may be left over from
the press before; at every other point of an attentive run none is. -/
theorem settled_or_released {calls : List (Call w)} (hattentive : Attentive calls)
    (start : BitVec w) (before rest : List (Call w)) (hsplit : calls = before ++ rest) :
    Settled (after (perform thresholds) (runSetup start) before) ∨
      ∃ earlier released, before = earlier ++ [.runLoop true released] := by
  induction before using List.reverseRecOn generalizing rest with
  | nil => exact Or.inl fun h => absurd rfl h
  | append_singleton before call ih =>
      cases call with
      | get =>
          left
          rw [after_concat]
          exact fun h => absurd rfl h
      | runLoop pinState now =>
          cases pinState with
          | true => exact Or.inr ⟨before, now, rfl⟩
          | false =>
              left
              rw [after_concat]
              rcases ih (.runLoop false now :: rest) (by simpa using hsplit) with
                hsettled | ⟨earlier, released, rfl⟩
              · exact hsettled.pressed thresholds now
              · have hget := hattentive earlier released (.runLoop false now) rest
                  (by simpa using hsplit)
                contradiction

theorem not_loses_of_attentive {calls : List (Call w)} (hattentive : Attentive calls)
    (start : BitVec w) :
    AtEachCall (perform thresholds) (fun button call => ¬Loses thresholds button call)
      (runSetup start) calls := by
  intro before call rest hsplit
  rcases settled_or_released thresholds hattentive start before (call :: rest) hsplit with
    hsettled | ⟨earlier, released, rfl⟩
  · exact hsettled.not_loses thresholds call
  · obtain rfl := hattentive earlier released call rest (by simpa using hsplit)
    rintro ⟨-, pinState, now, hcall, -⟩
    contradiction

end Attention

section Delivery

variable (start : BitVec w) (calls : List (Call w))

/-- The events that a run has returned, and last the one that still waits. -/
def received : List OutEventType :=
  events (returned (perform thresholds) (runSetup start) calls) ++
    (slot (after (perform thresholds) (runSetup start) calls)).toList

/-- What the reads of a run return, against reading after every sample. -/
structure Delivers : Prop where
  classified : after (perform thresholds) (runSetup start) (polled calls) =
    cleared (after (perform thresholds) (runSetup start) calls)
  subsequence : (received thresholds start calls).Sublist (received thresholds start (polled calls))
  lossless : received thresholds start calls = received thresholds start (polled calls) ↔
    AtEachCall (perform thresholds) (fun button call => ¬Loses thresholds button call)
      (runSetup start) calls
  attentive : Attentive calls →
    received thresholds start calls = received thresholds start (polled calls)

theorem received_eq_delivered :
    received thresholds start calls =
      delivered none (labels (perform thresholds) (action thresholds) (runSetup start) calls) := by
  have hslot := (slot_simulates thresholds).after (runSetup start) calls
  have hreturned := (slot_simulates thresholds).returned (runSetup start) calls
  rw [received, delivered, events_eq_filterMap, ← hslot, ← hreturned]
  rfl

theorem received_polled :
    received thresholds start (polled calls) =
      (labels (perform thresholds) (action thresholds) (runSetup start) calls).flatMap
        Action.written := by
  obtain ⟨hafter, hevents⟩ := polled_run thresholds (runSetup start) calls
  change after (perform thresholds) (runSetup start) (polled calls) = _ at hafter
  change events (returned (perform thresholds) (runSetup start) (polled calls)) = _ at hevents
  rw [received, hafter, hevents]
  exact List.append_nil _

/-- Whenever the reads come, the samples are classified alike, and the reads return a
subsequence of the events that reading after every sample returns. It is all of them,
each once and in order, exactly when no event is raised while another one waits, and so
whenever samples that find the button released are followed by a read. -/
theorem reads_deliver : Delivers thresholds start calls := by
  have hlossless : received thresholds start calls = received thresholds start (polled calls) ↔
      AtEachCall (perform thresholds) (fun button call => ¬Loses thresholds button call)
        (runSetup start) calls := by
    rw [received_eq_delivered, received_polled]
    refine (delivered_eq_iff none _).trans ?_
    refine ((slot_simulates thresholds).atEachCall_iff (s := runSetup start)).trans ?_
    simp only [overwrites_iff]
  refine ⟨(polled_run thresholds (runSetup start) calls).1, ?_, hlossless, ?_⟩
  · rw [received_eq_delivered, received_polled]
    exact delivered_sublist none _
  · intro hattentive
    exact hlossless.mpr (not_loses_of_attentive thresholds hattentive start)

/-- A long press that nobody reads, and the double click that takes its place. -/
example :
    events (returned (perform millisecondThresholds) (runSetup 0)
      [.runLoop false 0, .runLoop false 300, .runLoop true 310, .runLoop false 320,
        .runLoop true 330, .runLoop false 340, .get, .get]) = [.doubleClick] := by
  decide

end Delivery

end GrevirPeripherals.EventDelivery
