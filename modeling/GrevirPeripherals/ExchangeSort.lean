import GrevirPeripherals.OrderedChecks
import GrevirPeripherals.StandardSort

/-!
The in-place exchange sort whose outer loop validates each value as soon as it
has reached its final position. Later passes never touch the placed prefix, so
sorting first and validating in order afterwards gives the same answer.
-/

namespace GrevirPeripherals.ExchangeSort

open GrevirPeripherals.OrderedChecks
open GrevirPeripherals.StandardSort

variable {α ε κ : Type}

/-- The inner loop: `x` sits at the current position, and each later value that
precedes the one sitting there changes places with it. -/
def exchangePass (lt : α → α → Bool) (x : α) : List α → α × List α
  | [] => (x, [])
  | y :: ys =>
      if lt y x then
        ((exchangePass lt y ys).1, x :: (exchangePass lt y ys).2)
      else
        ((exchangePass lt x ys).1, y :: (exchangePass lt x ys).2)

theorem exchangePass_perm (lt : α → α → Bool) (x : α) (l : List α) :
    ((exchangePass lt x l).1 :: (exchangePass lt x l).2).Perm (x :: l) := by
  induction l generalizing x with
  | nil => exact List.Perm.refl _
  | cons y ys ih =>
      rw [exchangePass]
      split
      · exact (List.Perm.swap x _ _).trans ((ih y).cons x)
      · exact ((List.Perm.swap y _ _).trans ((ih x).cons y)).trans (List.Perm.swap x y ys)

@[simp]
theorem exchangePass_length (lt : α → α → Bool) (x : α) (l : List α) :
    (exchangePass lt x l).2.length = l.length := by
  simpa using (exchangePass_perm lt x l).length_eq

/-- The exchange sort without validation. -/
def exchangeSort (lt : α → α → Bool) : List α → List α
  | [] => []
  | x :: xs => (exchangePass lt x xs).1 :: exchangeSort lt (exchangePass lt x xs).2
termination_by l => l.length
decreasing_by simp

theorem exchangeSort_perm (lt : α → α → Bool) (l : List α) : (exchangeSort lt l).Perm l := by
  induction l using exchangeSort.induct lt with
  | case1 => simp [exchangeSort]
  | case2 x xs ih =>
      rw [exchangeSort]
      exact (ih.cons _).trans (exchangePass_perm lt x xs)

section KeyOrder

variable [LinearOrder κ] (key : α → κ)

theorem exchangePass_least (x : α) (l : List α) :
    key (exchangePass (byKey key) x l).1 ≤ key x ∧
      ∀ y ∈ (exchangePass (byKey key) x l).2, key (exchangePass (byKey key) x l).1 ≤ key y := by
  induction l generalizing x with
  | nil => simp [exchangePass]
  | cons y ys ih =>
      rw [exchangePass]
      split
      next hyx =>
        rw [byKey_eq_true_iff] at hyx
        obtain ⟨hle, hrest⟩ := ih y
        refine ⟨hle.trans hyx.le, ?_⟩
        intro z hz
        rcases List.mem_cons.mp hz with rfl | hz
        · exact hle.trans hyx.le
        · exact hrest z hz
      next hyx =>
        rw [Bool.not_eq_true, byKey_eq_false_iff] at hyx
        obtain ⟨hle, hrest⟩ := ih x
        refine ⟨hle, ?_⟩
        intro z hz
        rcases List.mem_cons.mp hz with rfl | hz
        · exact hle.trans hyx
        · exact hrest z hz

theorem exchangeSort_ascending (l : List α) :
    (exchangeSort (byKey key) l).Pairwise fun a b => key a ≤ key b := by
  induction l using exchangeSort.induct (byKey key) with
  | case1 => simp [exchangeSort]
  | case2 x xs ih =>
      rw [exchangeSort, List.pairwise_cons]
      refine ⟨?_, ih⟩
      intro y hy
      exact (exchangePass_least key x xs).2 y ((exchangeSort_perm _ _).mem_iff.mp hy)

/-- An ascending list sees no exchange. -/
theorem exchangeSort_of_ascending {l : List α}
    (hascending : l.Pairwise fun a b => key a ≤ key b) : exchangeSort (byKey key) l = l := by
  induction l with
  | nil => simp [exchangeSort]
  | cons x xs ih =>
      rw [List.pairwise_cons] at hascending
      have hpass : ∀ ys : List α, (∀ y ∈ ys, key x ≤ key y) →
          exchangePass (byKey key) x ys = (x, ys) := by
        intro ys
        induction ys with
        | nil => exact fun _ => rfl
        | cons y ys ih =>
            intro hle
            rw [List.forall_mem_cons] at hle
            have hyx : ¬byKey key y x = true := by
              rw [byKey_eq_true_iff]
              exact hle.1.not_gt
            rw [exchangePass, if_neg hyx, ih hle.2]
      rw [exchangeSort, hpass xs hascending.1, ih hascending.2]

theorem exchangeSort_congr {l₁ l₂ : List α} (hperm : l₁.Perm l₂)
    (hinj : ∀ a ∈ l₁, ∀ b ∈ l₁, key a = key b → a = b) :
    exchangeSort (byKey key) l₁ = exchangeSort (byKey key) l₂ := by
  have hsorted : (exchangeSort (byKey key) l₁).Perm (exchangeSort (byKey key) l₂) :=
    (exchangeSort_perm _ l₁).trans (hperm.trans (exchangeSort_perm _ l₂).symm)
  apply eq_of_perm_of_ascending hsorted (exchangeSort_ascending key l₁)
    (exchangeSort_ascending key l₂)
  intro a ha b hb
  exact hinj a ((exchangeSort_perm _ l₁).mem_iff.mp ha) b ((exchangeSort_perm _ l₁).mem_iff.mp hb)

end KeyOrder

/-- The whole loop: after each pass the value that has reached its position is
validated against the values placed before it. -/
def exchangeCheck (lt : α → α → Bool) (check : List α → α → Except ε Unit)
    (placed : List α) : List α → Except ε (List α)
  | [] => .ok placed
  | x :: xs =>
      match check placed (exchangePass lt x xs).1 with
      | .error error => .error error
      | .ok () =>
          exchangeCheck lt check (placed ++ [(exchangePass lt x xs).1]) (exchangePass lt x xs).2
termination_by l => l.length
decreasing_by simp

theorem exchangeCheck_eq (lt : α → α → Bool) (check : List α → α → Except ε Unit)
    (placed l : List α) :
    exchangeCheck lt check placed l = checkInOrder check placed (exchangeSort lt l) := by
  induction l using exchangeSort.induct lt generalizing placed with
  | case1 => simp [exchangeCheck, exchangeSort, checkInOrder]
  | case2 x xs ih =>
      rw [exchangeCheck, exchangeSort, checkInOrder]
      split <;> simp_all

end GrevirPeripherals.ExchangeSort
