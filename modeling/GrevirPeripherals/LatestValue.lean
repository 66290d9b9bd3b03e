import GrevirPeripherals.CallRuns

/-!
A slot that holds the latest value written to it until it is taken. What is taken is a
subsequence of what was written, and all of it exactly when nothing is overwritten.
-/

namespace GrevirPeripherals.LatestValue

open GrevirPeripherals.CallRuns

variable {V : Type}

/-- A write that may have no value to write, or taking what is there. -/
inductive Action (V : Type) where
  | write (value : Option V)
  | take

/-- What an action hands out and what it leaves in the slot. -/
def step (slot : Option V) : Action V → List V × Option V
  | .write value => ([], value.or slot)
  | .take => (slot.toList, none)

def Action.written : Action V → List V
  | .write value => value.toList
  | .take => []

/-- The action replaces a value that has not been taken. -/
def Overwrites (slot : Option V) (action : Action V) : Prop :=
  slot.isSome ∧ action.written ≠ []

/-- No value is replaced before it is taken. -/
def Lossless (slot : Option V) (actions : List (Action V)) : Prop :=
  AtEachCall step (fun slot action => ¬Overwrites slot action) slot actions

theorem lossless_cons_iff {slot : Option V} {action : Action V} {actions : List (Action V)} :
    Lossless slot (action :: actions) ↔
      ¬Overwrites slot action ∧ Lossless (step slot action).2 actions :=
  atEachCall_cons_iff

/-- What a run has handed out, followed by what it leaves in the slot. -/
def delivered (slot : Option V) (actions : List (Action V)) : List V :=
  returned step slot actions ++ (after step slot actions).toList

theorem delivered_cons (slot : Option V) (action : Action V) (actions : List (Action V)) :
    delivered slot (action :: actions) =
      (step slot action).1 ++ delivered (step slot action).2 actions := by
  rw [delivered, returned, List.append_assoc]
  rfl

theorem delivered_sublist (slot : Option V) (actions : List (Action V)) :
    (delivered slot actions).Sublist (slot.toList ++ actions.flatMap Action.written) := by
  induction actions generalizing slot with
  | nil => simp [delivered, returned, after]
  | cons action actions ih =>
      rw [delivered_cons, List.flatMap_cons]
      cases action with
      | take => exact (ih none).append_left slot.toList
      | write value =>
          cases value with
          | none => exact ih slot
          | some value =>
              have hwritten := ih (some value)
              exact hwritten.trans (List.sublist_append_right slot.toList _)

/-- Everything comes out in order exactly when nothing is overwritten. -/
theorem delivered_eq_iff (slot : Option V) (actions : List (Action V)) :
    delivered slot actions = slot.toList ++ actions.flatMap Action.written ↔
      Lossless slot actions := by
  induction actions generalizing slot with
  | nil => simp [delivered, returned, after, Lossless, AtEachCall]
  | cons action actions ih =>
      rw [delivered_cons, List.flatMap_cons, lossless_cons_iff]
      cases action with
      | take =>
          rw [← ih]
          simp [step, Overwrites, Action.written]
      | write value =>
          rw [← ih]
          cases slot with
          | none => cases value <;> simp [step, Overwrites, Action.written]
          | some held =>
              cases value with
              | none => simp [step, Overwrites, Action.written]
              | some value =>
                  have hlength := (delivered_sublist (some value) actions).length_le
                  refine iff_of_false (fun h => ?_) fun h => h.1 ⟨rfl, by simp [Action.written]⟩
                  have hsame := congrArg List.length h
                  simp [step, Action.written] at hsame hlength
                  omega

end GrevirPeripherals.LatestValue
