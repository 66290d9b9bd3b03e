import Mathlib.Data.List.GetD
import Mathlib.Order.Nat
import Mathlib.Tactic.Choose

/-!
Numbering the groups of equal labels in an array. Entry `i` of `unit` is the
number of the group of label `i`, and entry `u` of `first` the place where group
`u` begins.
-/

namespace GrevirPeripherals.UnitGrouping

/-- The two arrays; the length of `first` is the number of groups. -/
structure Units where
  unit : List Nat
  first : List Nat
deriving DecidableEq

variable {γ : Type}

structure Grouping (labels : List γ) (unit first : List Nat) : Prop where
  length : unit.length = labels.length
  unit_lt : ∀ i, i < labels.length → unit.getD i 0 < first.length
  first_lt : ∀ u, u < first.length → first.getD u 0 < labels.length
  unit_first : ∀ u, u < first.length → unit.getD (first.getD u 0) 0 = u
  first_le : ∀ i, i < labels.length → first.getD (unit.getD i 0) 0 ≤ i
  unit_eq_iff : ∀ i j, i < labels.length → j < labels.length →
    (unit.getD i 0 = unit.getD j 0 ↔ labels[i]? = labels[j]?)
  first_strict : ∀ u v, u < v → v < first.length → first.getD u 0 < first.getD v 0

section Concat

variable {α : Type}

theorem getD_concat_of_lt (l : List Nat) (x : Nat) {i : Nat} (hi : i < l.length) :
    (l ++ [x]).getD i 0 = l.getD i 0 :=
  List.getD_append _ _ _ _ hi

theorem getD_concat_length (l : List Nat) (x : Nat) {i : Nat} (hi : i = l.length) :
    (l ++ [x]).getD i 0 = x := by
  rw [hi, List.getD_append_right _ _ _ _ le_rfl]
  simp

theorem lt_or_eq_of_lt_concat {l : List α} {x : α} {i : Nat} (hi : i < (l ++ [x]).length) :
    i < l.length ∨ i = l.length := by
  rw [List.length_append, List.length_singleton] at hi
  exact Nat.lt_succ_iff_lt_or_eq.mp hi

end Concat

theorem grouping_nil : Grouping ([] : List γ) [] [] := by
  constructor <;> simp

/-- The next label belongs to the group of an earlier one. -/
theorem Grouping.known {labels : List γ} {unit first : List Nat} (h : Grouping labels unit first)
    {x : γ} {j : Nat} (hx : labels[j]? = some x) :
    Grouping (labels ++ [x]) (unit ++ [unit.getD j 0]) first := by
  have hj : j < labels.length := (List.getElem?_eq_some_iff.mp hx).1
  have hlength := h.length
  have hold : ∀ i, i < labels.length → (unit ++ [unit.getD j 0]).getD i 0 = unit.getD i 0 :=
    fun i hi => getD_concat_of_lt _ _ (hlength ▸ hi)
  have hnew := getD_concat_length unit (unit.getD j 0) hlength.symm
  have hnewLabel : (labels ++ [x])[labels.length]? = labels[j]? := by
    simp [hx]
  -- The new entry behaves like entry `j` in every respect.
  have hcases : ∀ i, i < (labels ++ [x]).length → ∃ k, k < labels.length ∧ k ≤ i ∧
      (unit ++ [unit.getD j 0]).getD i 0 = unit.getD k 0 ∧ (labels ++ [x])[i]? = labels[k]? := by
    intro i hi
    rcases lt_or_eq_of_lt_concat hi with hlt | rfl
    · exact ⟨i, hlt, le_rfl, hold i hlt, List.getElem?_append_left hlt⟩
    · exact ⟨j, hj, hj.le, hnew, hnewLabel⟩
  constructor
  · simp [hlength]
  · intro i hi
    obtain ⟨k, hk, -, hunit, -⟩ := hcases i hi
    rw [hunit]
    exact h.unit_lt k hk
  · intro u hu
    have := h.first_lt u hu
    rw [List.length_append, List.length_singleton]
    omega
  · intro u hu
    rw [hold _ (h.first_lt u hu)]
    exact h.unit_first u hu
  · intro i hi
    obtain ⟨k, hk, hki, hunit, -⟩ := hcases i hi
    rw [hunit]
    exact (h.first_le k hk).trans hki
  · intro i i' hi hi'
    obtain ⟨k, hk, -, hunit, hlabel⟩ := hcases i hi
    obtain ⟨k', hk', -, hunit', hlabel'⟩ := hcases i' hi'
    rw [hunit, hunit', hlabel, hlabel']
    exact h.unit_eq_iff k k' hk hk'
  · exact h.first_strict

/-- The next label opens a group of its own. -/
theorem Grouping.fresh {labels : List γ} {unit first : List Nat} (h : Grouping labels unit first)
    {x : γ} (hx : x ∉ labels) :
    Grouping (labels ++ [x]) (unit ++ [first.length]) (first ++ [labels.length]) := by
  have hlength := h.length
  have hold : ∀ i, i < labels.length → (unit ++ [first.length]).getD i 0 = unit.getD i 0 :=
    fun i hi => getD_concat_of_lt _ _ (hlength ▸ hi)
  have hnew := getD_concat_length unit first.length hlength.symm
  have holdFirst : ∀ u, u < first.length →
      (first ++ [labels.length]).getD u 0 = first.getD u 0 :=
    fun u hu => getD_concat_of_lt _ _ hu
  have hnewFirst := getD_concat_length first labels.length rfl
  have holdLabel : ∀ i, i < labels.length → (labels ++ [x])[i]? = labels[i]? := by
    intro i hi
    exact List.getElem?_append_left hi
  have hnewLabel : (labels ++ [x])[labels.length]? = some x := by
    simp
  have hne : ∀ i, i < labels.length → labels[i]? ≠ some x := by
    intro i _ heq
    exact hx (List.mem_of_getElem? heq)
  constructor
  · simp [hlength]
  · intro i hi
    rw [List.length_append, List.length_singleton]
    rcases lt_or_eq_of_lt_concat hi with hlt | rfl
    · rw [hold i hlt]
      have := h.unit_lt i hlt
      omega
    · rw [hnew]
      omega
  · intro u hu
    rw [List.length_append, List.length_singleton]
    rcases lt_or_eq_of_lt_concat hu with hlt | rfl
    · rw [holdFirst u hlt]
      have := h.first_lt u hlt
      omega
    · rw [hnewFirst]
      omega
  · intro u hu
    rcases lt_or_eq_of_lt_concat hu with hlt | rfl
    · rw [holdFirst u hlt, hold _ (h.first_lt u hlt)]
      exact h.unit_first u hlt
    · rw [hnewFirst, hnew]
  · intro i hi
    rcases lt_or_eq_of_lt_concat hi with hlt | rfl
    · rw [hold i hlt, holdFirst _ (h.unit_lt i hlt)]
      exact h.first_le i hlt
    · rw [hnew, hnewFirst]
  · intro i j hi hj
    rcases lt_or_eq_of_lt_concat hi with hlt | rfl <;>
      rcases lt_or_eq_of_lt_concat hj with hlt' | rfl
    · rw [hold i hlt, hold j hlt', holdLabel i hlt, holdLabel j hlt']
      exact h.unit_eq_iff i j hlt hlt'
    · rw [hold i hlt, hnew, holdLabel i hlt, hnewLabel]
      exact iff_of_false (h.unit_lt i hlt).ne (hne i hlt)
    · rw [hold j hlt', hnew, holdLabel j hlt', hnewLabel]
      exact iff_of_false (h.unit_lt j hlt').ne' (hne j hlt').symm
    · exact iff_of_true rfl rfl
  · intro u v huv hv
    rcases lt_or_eq_of_lt_concat hv with hlt | rfl
    · rw [holdFirst u (huv.trans hlt), holdFirst v hlt]
      exact h.first_strict u v huv hlt
    · rw [holdFirst u huv, hnewFirst]
      exact h.first_lt u huv

namespace Grouping

variable {labels : List γ} {unit first : List Nat} (h : Grouping labels unit first)

include h

/-- A group carries the label of its first entry. -/
theorem label_first_unit {i : Nat} (hi : i < labels.length) :
    labels[first.getD (unit.getD i 0) 0]? = labels[i]? := by
  have hunit := h.unit_lt i hi
  rw [← h.unit_eq_iff _ _ (h.first_lt _ hunit) hi]
  exact h.unit_first _ hunit

/-- Every entry of a group, and of the groups after it, comes no earlier than its first. -/
theorem first_le_of_unit_le {u i : Nat} (hi : i < labels.length) (hle : u ≤ unit.getD i 0) :
    first.getD u 0 ≤ i := by
  apply le_trans _ (h.first_le i hi)
  rcases Nat.eq_or_lt_of_le hle with heq | hlt
  · rw [heq]
  · exact (h.first_strict _ _ hlt (h.unit_lt i hi)).le

theorem exists_unit {x : γ} (hx : x ∈ labels) :
    ∃ u, u < first.length ∧ labels[first.getD u 0]? = some x := by
  obtain ⟨i, hi, hxi⟩ := List.getElem_of_mem hx
  refine ⟨unit.getD i 0, h.unit_lt i hi, ?_⟩
  rw [h.label_first_unit hi, List.getElem?_eq_getElem hi, hxi]

theorem label_ne {u v : Nat} (hu : u < first.length) (hv : v < first.length) (huv : u ≠ v) :
    labels[first.getD u 0]? ≠ labels[first.getD v 0]? := by
  intro heq
  have hunit := (h.unit_eq_iff _ _ (h.first_lt u hu) (h.first_lt v hv)).mpr heq
  rw [h.unit_first u hu, h.unit_first v hv] at hunit
  exact huv hunit

/-- Data kept for each group is data kept for each label. -/
theorem exists_byLabel {α : Type} [Nonempty α] (f : Nat → α) :
    ∃ g : γ → α, (∀ u, u < first.length → ∀ x, labels[first.getD u 0]? = some x → g x = f u) ∧
      unit.map f = labels.map g := by
  have hvalue : ∀ x, ∃ value, ∀ u, u < first.length →
      labels[first.getD u 0]? = some x → value = f u := by
    intro x
    by_cases hx : ∃ u, u < first.length ∧ labels[first.getD u 0]? = some x
    · obtain ⟨u, hu, hux⟩ := hx
      refine ⟨f u, ?_⟩
      intro v hv hvx
      by_contra hne
      apply h.label_ne hu hv _ (hux.trans hvx.symm)
      rintro rfl
      exact hne rfl
    · refine ⟨Classical.arbitrary α, ?_⟩
      intro u hu hux
      exact absurd ⟨u, hu, hux⟩ hx
  choose g hg using hvalue
  refine ⟨g, fun u hu x hux => hg x u hu hux, ?_⟩
  apply List.ext_getElem
  · simp [h.length]
  · intro i hi hi'
    have hlt : i < labels.length := by simpa using hi'
    have hlt' : i < unit.length := by simpa using hi
    have hunit : unit[i] = unit.getD i 0 := (List.getD_eq_getElem _ _ hlt').symm
    rw [List.getElem_map, List.getElem_map, hunit]
    apply (hg _ _ (h.unit_lt i hlt) _).symm
    rw [h.label_first_unit hlt, List.getElem?_eq_getElem hlt]

end Grouping

/-- There are no more groups than labels. -/
theorem Grouping.length_first_le {labels : List γ} {unit first : List Nat}
    (h : Grouping labels unit first) : first.length ≤ labels.length := by
  have hle : ∀ u, u < first.length → u ≤ first.getD u 0 := by
    intro u
    induction u with
    | zero => exact fun _ => Nat.zero_le _
    | succ u ih =>
        intro hu
        have hstrict := h.first_strict u (u + 1) (Nat.lt_succ_self u) hu
        exact (ih (Nat.lt_of_succ_lt hu)).trans_lt hstrict
  by_contra hlt
  have hlast : labels.length < first.length := Nat.lt_of_not_le hlt
  exact absurd (hle _ hlast) (Nat.not_le.mpr (h.first_lt _ hlast))

end GrevirPeripherals.UnitGrouping
