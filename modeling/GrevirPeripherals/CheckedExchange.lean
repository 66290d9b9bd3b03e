import GrevirPeripherals.CheckedExecution
import GrevirPeripherals.ExchangeSort

/-!
The exchange sort on an array whose every access is checked, and a loop that reads the
first entries of one.
-/

namespace GrevirPeripherals.CheckedExchange

open GrevirPeripherals.CheckedExecution
open GrevirPeripherals.ExchangeSort

variable {α ε : Type}

section Exchange

/-- The inner loop from the position `j` on; a value that precedes the one at `i` changes
places with it. -/
def exchangeFrom (lt : α → α → Bool) (i : Nat) : Nat → Nat → List α → Checked (List α)
  | _, 0, l => .ok l
  | j, remaining + 1, l => do
      let y ← readAt l j
      let x ← readAt l i
      if lt y x then
        let l ← writeAt l i y
        let l ← writeAt l j x
        exchangeFrom lt i (j + 1) remaining l
      else exchangeFrom lt i (j + 1) remaining l

/-- The outer loop from the position `i` on, which checks the value that got there. -/
def exchangeCheckFrom (lt : α → α → Bool) (check : List α → Nat → Checked (Except ε Unit)) :
    Nat → Nat → List α → Checked (Except ε (List α))
  | _, 0, l => .ok (.ok l)
  | i, remaining + 1, l => do
      let l ← exchangeFrom lt i (i + 1) remaining l
      match ← check l i with
      | .error error => return .error error
      | .ok () => exchangeCheckFrom lt check (i + 1) remaining l

theorem readAt_append_cons (before : List α) (x : α) (between : List α) (y : α)
    (after : List α) :
    readAt (before ++ x :: (between ++ y :: after)) (before.length + 1 + between.length) =
      .ok y := by
  have hread := readAt_length (before ++ x :: between) y after
  simpa [Nat.add_right_comm, ← Nat.add_assoc] using hread

theorem writeAt_append_cons (before : List α) (x : α) (between : List α) (y z : α)
    (after : List α) :
    writeAt (before ++ x :: (between ++ y :: after)) (before.length + 1 + between.length) z =
      .ok (before ++ x :: (between ++ z :: after)) := by
  have hwrite := writeAt_length (before ++ x :: between) y z after
  simpa [Nat.add_right_comm, ← Nat.add_assoc] using hwrite

theorem exchangeFrom_eq (lt : α → α → Bool) (before : List α) (x : α) (between after : List α) :
    exchangeFrom lt before.length (before.length + 1 + between.length) after.length
        (before ++ x :: (between ++ after)) =
      .ok (before ++ (exchangePass lt x after).1 ::
        (between ++ (exchangePass lt x after).2)) := by
  induction after generalizing x between with
  | nil => rfl
  | cons y after ih =>
      rw [List.length_cons, exchangeFrom, readAt_append_cons, ok_bind, readAt_length, ok_bind,
        exchangePass]
      have hnext (x z : α) := ih x (between ++ [z])
      simp only [List.append_assoc, List.singleton_append, List.length_append,
        List.length_singleton, ← Nat.add_assoc] at hnext
      split_ifs
      · rw [writeAt_length, ok_bind, writeAt_append_cons, ok_bind, hnext]
      · rw [hnext]

/-- The loops on the array are those on its parts. -/
theorem exchangeCheckFrom_eq {lt : α → α → Bool} {check : List α → Nat → Checked (Except ε Unit)}
    {checkPlaced : List α → α → Except ε Unit}
    (hcheck : ∀ before x after, check (before ++ x :: after) before.length =
      .ok (checkPlaced before x)) (before after : List α) :
    exchangeCheckFrom lt check before.length after.length (before ++ after) =
      .ok (exchangeCheck lt checkPlaced before after) := by
  induction h : after.length generalizing before after with
  | zero =>
      obtain rfl := List.length_eq_zero_iff.mp h
      rw [exchangeCheckFrom, exchangeCheck, List.append_nil]
  | succ size ih =>
      obtain ⟨x, after, rfl⟩ := List.exists_cons_of_length_eq_add_one h
      have hsize : after.length = size := Nat.succ.inj h
      have hpass := exchangeFrom_eq lt before x [] after
      have hnext := ih (before ++ [(exchangePass lt x after).1]) (exchangePass lt x after).2
        (by simpa using hsize)
      simp only [List.length_nil, Nat.add_zero, List.nil_append, hsize] at hpass
      simp only [List.append_assoc, List.singleton_append, List.length_append,
        List.length_singleton] at hnext
      rw [exchangeCheckFrom, hpass, ok_bind, hcheck, ok_bind, exchangeCheck]
      cases checkPlaced before (exchangePass lt x after).1 with
      | error error => rfl
      | ok _ => exact hnext

end Exchange

section Reading

/-- A loop that reads the entries from `i` on. -/
def readRun (l : List α) : Nat → Nat → Checked (List α)
  | _, 0 => .ok []
  | i, remaining + 1 => do
      let x ← readAt l i
      let xs ← readRun l (i + 1) remaining
      return x :: xs

theorem readRun_eq_ok {l : List α} {i remaining : Nat} (h : i + remaining ≤ l.length) :
    readRun l i remaining = .ok ((l.drop i).take remaining) := by
  induction remaining generalizing i with
  | zero => rfl
  | succ remaining ih =>
      have hi : i < l.length := by omega
      rw [readRun, readAt_eq_ok hi, ok_bind, ih (by omega), List.drop_eq_getElem_cons hi]
      rfl

theorem readRun_eq_error {l : List α} {i remaining : Nat} (hi : i ≤ l.length)
    (h : l.length < i + remaining) : readRun l i remaining = .error .outOfRange := by
  induction remaining generalizing i with
  | zero => omega
  | succ remaining ih =>
      rcases Nat.lt_or_eq_of_le hi with hlt | rfl
      · rw [readRun, readAt_eq_ok hlt, ok_bind, ih hlt (by omega)]
        rfl
      · rw [readRun, readAt, List.getElem?_eq_none le_rfl]
        rfl

end Reading

end GrevirPeripherals.CheckedExchange
