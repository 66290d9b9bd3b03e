import Mathlib.Data.Finset.Card
import Mathlib.Data.Finset.Range

/-!
Walks along a relation. A walk that visits a vertex twice can be cut short there, so
a shortest walk is no longer than the number of vertices it can leave.
-/

namespace GrevirPeripherals.ShortWalks

variable {α : Type} {R : α → α → Prop} {a b : α} {k : Nat} {x : Nat → α}

/-- `x 0, …, x k` leads from `a` to `b`. -/
structure IsWalk (R : α → α → Prop) (a b : α) (k : Nat) (x : Nat → α) : Prop where
  start : x 0 = a
  finish : x k = b
  step : ∀ i, i < k → R (x i) (x (i + 1))

theorem IsWalk.refl (a : α) : IsWalk R a a 0 (fun _ => a) where
  start := rfl
  finish := rfl
  step i hi := absurd hi (Nat.not_lt_zero i)

theorem IsWalk.cons {a' : α} (hstep : R a' a) (h : IsWalk R a b k x) :
    IsWalk R a' b (k + 1) (fun i => Nat.casesOn i a' x) where
  start := rfl
  finish := h.finish
  step i hi := by
    cases i with
    | zero =>
        change R a' (x 0)
        rw [h.start]
        exact hstep
    | succ i => exact h.step i (Nat.lt_of_succ_lt_succ hi)

theorem IsWalk.tail (h : IsWalk R a b (k + 1) x) :
    R a (x 1) ∧ IsWalk R (x 1) b k (fun i => x (i + 1)) := by
  refine ⟨?_, rfl, h.finish, ?_⟩
  · have hstep := h.step 0 (Nat.succ_pos k)
    rw [h.start] at hstep
    exact hstep
  · intro i hi
    exact h.step (i + 1) (Nat.succ_lt_succ hi)

/-- Between two visits of one vertex a walk can be cut. -/
theorem IsWalk.cut (h : IsWalk R a b k x) {i j : Nat} (hij : i < j) (hjk : j ≤ k)
    (heq : x i = x j) :
    IsWalk R a b (k - (j - i)) (fun m => if m ≤ i then x m else x (m + (j - i))) where
  start := by
    simp only [Nat.zero_le, if_true]
    exact h.start
  finish := by
    by_cases hlast : j = k
    · subst hlast
      have hle : j - (j - i) ≤ i := by omega
      have hback : j - (j - i) = i := by omega
      simp only [hle, if_true]
      rw [hback, heq]
      exact h.finish
    · have hgt : ¬k - (j - i) ≤ i := by omega
      have hback : k - (j - i) + (j - i) = k := by omega
      simp only [hgt, if_false]
      rw [hback]
      exact h.finish
  step m hm := by
    rcases Nat.lt_trichotomy m i with hlt | rfl | hgt
    · have hle : m + 1 ≤ i := hlt
      simp only [hlt.le, hle, if_true]
      exact h.step m (by omega)
    · -- The step that leaves the vertex is the one after its second visit.
      have hnext : ¬m + 1 ≤ m := by omega
      have hback : m + 1 + (j - m) = j + 1 := by omega
      simp only [le_refl, if_true, hnext, if_false]
      rw [hback, heq]
      exact h.step j (by omega)
    · have hle : ¬m ≤ i := by omega
      have hle' : ¬m + 1 ≤ i := by omega
      have hback : m + 1 + (j - i) = m + (j - i) + 1 := by omega
      simp only [hle, hle', if_false]
      rw [hback]
      exact h.step (m + (j - i)) (by omega)

/-- A walk can be replaced by one that is no longer than the number of vertices that
have a successor. -/
theorem IsWalk.exists_short (h : IsWalk R a b k x) (s : Finset α)
    (hs : ∀ c d, R c d → c ∈ s) : ∃ k' x', k' ≤ s.card ∧ IsWalk R a b k' x' := by
  induction k using Nat.strong_induction_on generalizing x with
  | h k ih =>
      rcases Nat.lt_or_ge s.card k with hlong | hshort
      · have hcard : s.card < (Finset.range k).card := by rwa [Finset.card_range]
        have hmaps : Set.MapsTo x (Finset.range k) s := by
          intro i hi
          exact hs _ _ (h.step i (by simpa using hi))
        obtain ⟨i, hi, j, hj, hne, heq⟩ :=
          Finset.exists_ne_map_eq_of_card_lt_of_maps_to hcard hmaps
        rw [Finset.mem_range] at hi hj
        rcases Nat.lt_or_gt_of_ne hne with hij | hji
        · exact ih _ (by omega) (h.cut hij hj.le heq)
        · exact ih _ (by omega) (h.cut hji hi.le heq.symm)
      · exact ⟨k, x, hshort, h⟩

end GrevirPeripherals.ShortWalks
