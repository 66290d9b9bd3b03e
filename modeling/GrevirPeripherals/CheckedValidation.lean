import GrevirPeripherals.CheckedExecution
import GrevirPeripherals.OrderedChecks

/-!
The validation loops of `OrderedChecks` over the positions of an array, with every array
access checked.
-/

namespace GrevirPeripherals.CheckedValidation

open GrevirPeripherals.CheckedExecution
open GrevirPeripherals.OrderedChecks

variable {α ε : Type}

section InOrder

/-- Validation of the entries from `i` on. -/
def checkFrom (check : List α → Nat → Checked (Except ε Unit)) (l : List α) :
    Nat → Nat → Checked (Except ε Unit)
  | _, 0 => .ok (.ok ())
  | i, remaining + 1 => do
      match ← check l i with
      | .error error => return .error error
      | .ok () => checkFrom check l (i + 1) remaining

/-- A check that goes by the entries to the left is the one of the unchecked loop. -/
theorem checkFrom_eq {check : List α → Nat → Checked (Except ε Unit)}
    {checkPlaced : List α → α → Except ε Unit}
    (hcheck : ∀ before x after, check (before ++ x :: after) before.length =
      .ok (checkPlaced before x)) (before after : List α) :
    checkFrom check (before ++ after) before.length after.length =
      .ok ((checkInOrder checkPlaced before after).map fun _ => ()) := by
  induction after generalizing before with
  | nil => rfl
  | cons x after ih =>
      have hnext := ih (before ++ [x])
      rw [List.length_append, List.length_singleton, List.append_assoc,
        List.singleton_append] at hnext
      rw [List.length_cons, checkFrom, hcheck, ok_bind, checkInOrder]
      cases checkPlaced before x with
      | error error => rfl
      | ok _ => exact hnext

end InOrder

section Each

/-- The loop in which each entry passes a check of its own and is then compared with the
entries before it. -/
def checkEachFrom (own : α → Checked Bool) (clash : α → α → Bool) (l : List α) :
    Nat → Nat → Checked Bool
  | _, 0 => .ok true
  | i, remaining + 1 => do
      let x ← readAt l i
      if !(← own x) then return false
      else if ← anyBelow l i fun earlier => .ok (clash x earlier) then return false
      else checkEachFrom own clash l (i + 1) remaining

variable {own : α → Checked Bool} {own' : α → Bool}

theorem checkEachFrom_eq (hown : ∀ x, own x = .ok (own' x)) (clash : α → α → Bool)
    (before l after : List α) :
    checkEachFrom own clash (before ++ (l ++ after)) before.length l.length =
      .ok (checkEach own' clash before l) := by
  induction l generalizing before with
  | nil => rfl
  | cons x l ih =>
      have hnext := ih (before ++ [x])
      have hany : anyBelow (before ++ x :: (l ++ after)) before.length
          (fun earlier => .ok (clash x earlier)) =
            .ok (((before ++ x :: (l ++ after)).take before.length).any (clash x)) :=
        anyBelow_eq_ok (by simp) fun _ _ => rfl
      rw [List.take_left] at hany
      rw [List.length_append, List.length_singleton, List.append_assoc,
        List.singleton_append] at hnext
      rw [List.length_cons, List.cons_append, checkEachFrom, readAt_length, ok_bind, hown,
        ok_bind, hany, ok_bind, hnext, checkEach]
      cases own' x <;> cases before.any (clash x) <;> rfl

/-- The loop over the first `count` entries. -/
def checkEachBelow (own : α → Checked Bool) (clash : α → α → Bool) (l : List α) (count : Nat) :
    Checked Bool :=
  checkEachFrom own clash l 0 count

theorem checkEachBelow_eq (hown : ∀ x, own x = .ok (own' x)) (clash : α → α → Bool) {l : List α}
    {count : Nat} (h : count ≤ l.length) :
    checkEachBelow own clash l count = .ok (checkEach own' clash [] (l.take count)) := by
  have hloop := checkEachFrom_eq hown clash [] (l.take count) (l.drop count)
  rw [List.nil_append, List.take_append_drop, List.length_nil, List.length_take,
    Nat.min_eq_left h] at hloop
  exact hloop

end Each

end GrevirPeripherals.CheckedValidation
