import GrevirPeripherals.BacktrackingSearch
import Mathlib.Algebra.BigOperators.Ring.Finset
import Mathlib.Algebra.Order.Ring.Nat

/-!
How many columns a backtracking search visits. It is at most the number of nodes of the tree
of all choices, and a row without columns at the end of admissible ones makes it visit all.
-/

namespace GrevirPeripherals.SearchEffort

open GrevirPeripherals.BacktrackingSearch

variable {α : Type} {admits : α → α → Bool}

/-- The nodes below the root of a tree that branches as the numbers say, level by level. -/
def treeSize : List Nat → Nat
  | [] => 0
  | n :: ns => n * (treeSize ns + 1)

section Size

theorem treeSize_mono {ns ms : List Nat} (h : List.Forall₂ (· ≤ ·) ns ms) :
    treeSize ns ≤ treeSize ms := by
  induction h with
  | nil => exact Nat.le_refl 0
  | cons hle _ ih => exact Nat.mul_le_mul hle (Nat.succ_le_succ ih)

/-- A tree whose nodes have the same number of children is a geometric sum. -/
theorem treeSize_replicate (k depth : Nat) :
    treeSize (List.replicate depth k) = ∑ i ∈ Finset.range depth, k ^ (i + 1) := by
  induction depth with
  | zero => rfl
  | succ depth ih =>
      rw [List.replicate_succ, treeSize, ih, Finset.sum_range_succ', Nat.mul_add, Finset.mul_sum]
      simp only [pow_succ', Nat.mul_one, pow_zero]

theorem treeSize_le_sum {k : Nat} {ns : List Nat} (h : ∀ n ∈ ns, n ≤ k) :
    treeSize ns ≤ ∑ i ∈ Finset.range ns.length, k ^ (i + 1) := by
  rw [← treeSize_replicate]
  apply treeSize_mono
  rw [List.forall₂_iff_get]
  refine ⟨by simp, fun i hi hi' => ?_⟩
  simpa using h _ (List.getElem_mem hi)

end Size

section Cost

variable {chosen : List α} {next : α → Option (List α) × Nat} {bound : Nat}

theorem exploreColumns_cost_le (hnext : ∀ column, (next column).2 ≤ bound) (columns : List α) :
    (exploreColumns admits chosen next columns).2 ≤ columns.length * (bound + 1) := by
  induction columns with
  | nil => exact Nat.zero_le _
  | cons column columns ih =>
      have hcolumn := hnext column
      rw [exploreColumns, List.length_cons, Nat.add_mul, Nat.one_mul]
      split
      · cases (next column).1 with
        | some tail => exact (Nat.succ_le_succ hcolumn).trans (Nat.le_add_left _ _)
        | none =>
            change (next column).2 + _ + 1 ≤ _
            omega
      · change _ + 1 ≤ _
        omega

theorem explore_cost_le (rows : List (List α)) (chosen : List α) :
    (explore admits rows chosen).2 ≤ treeSize (rows.map List.length) := by
  induction rows generalizing chosen with
  | nil => exact Nat.le_refl 0
  | cons row rows ih => exact exploreColumns_cost_le (fun column => ih _) row

/-- Where every column of a row is tried in vain, each of them costs what lies below it. -/
theorem exploreColumns_cost_eq {columns : List α}
    (hadmits : ∀ column ∈ columns, chosen.all (admits · column) = true)
    (hnext : ∀ column ∈ columns, next column = (none, bound)) :
    exploreColumns admits chosen next columns = (none, columns.length * (bound + 1)) := by
  induction columns with
  | nil => simp [exploreColumns]
  | cons column columns ih =>
      rw [List.forall_mem_cons] at hadmits hnext
      rw [exploreColumns, if_pos hadmits.1, hnext.1, ih hadmits.2 hnext.2, List.length_cons,
        Nat.add_mul, Nat.one_mul]
      exact congrArg (Prod.mk none) (by omega)

/-- The search visits every node of the tree before it gives up at an empty row. -/
theorem explore_cost_eq {rows : List (List α)}
    (hadmits : rows.Pairwise fun row row' => ∀ a ∈ row, ∀ b ∈ row', admits a b = true)
    (hempty : [] ∈ rows) {chosen : List α}
    (hchosen : ∀ a ∈ chosen, ∀ row ∈ rows, ∀ b ∈ row, admits a b = true) :
    explore admits rows chosen = (none, treeSize (rows.map List.length)) := by
  induction rows generalizing chosen with
  | nil => contradiction
  | cons row rows ih =>
      rw [List.pairwise_cons] at hadmits
      rw [explore]
      rcases List.mem_cons.mp hempty with rfl | hempty
      · simp [exploreColumns, treeSize]
      · apply exploreColumns_cost_eq
        · intro column hcolumn
          rw [List.all_eq_true]
          exact fun a ha => hchosen a ha row List.mem_cons_self column hcolumn
        · intro column hcolumn
          apply ih hadmits.2 hempty
          intro a ha row' hrow' b hb
          rcases List.mem_append.mp ha with ha | ha
          · exact hchosen a ha row' (List.mem_cons_of_mem row hrow') b hb
          · obtain rfl := List.mem_singleton.mp ha
            exact hadmits.1 row' hrow' a hcolumn b hb

end Cost

end GrevirPeripherals.SearchEffort
