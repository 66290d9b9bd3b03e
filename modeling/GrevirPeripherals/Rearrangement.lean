import GrevirPeripherals.StandardSort
import Mathlib.Data.List.Perm.Basic

/-!
Lists that agree entry by entry up to a relation, once one of them is rearranged.
-/

namespace GrevirPeripherals.Rearrangement

open GrevirPeripherals.StandardSort

variable {α β γ : Type} {R : α → β → Prop} {a : List α} {b : List β}

/-- The second list is a permutation of one that the relation pairs with the first. -/
def Rearranged (R : α → β → Prop) (a : List α) (b : List β) : Prop :=
  ∃ l, List.Forall₂ R a l ∧ l.Perm b

theorem Rearranged.swap (h : Rearranged R a b) : Rearranged (flip R) b a := by
  obtain ⟨l, hpairs, hperm⟩ := h
  exact List.perm_comp_forall₂ hperm.symm hpairs.flip

theorem Rearranged.exists_left (h : Rearranged R a b) {y : β} (hy : y ∈ b) :
    ∃ x ∈ a, R x y := by
  obtain ⟨l, hpairs, hperm⟩ := h
  obtain ⟨i, hi, rfl⟩ := List.getElem_of_mem (hperm.mem_iff.mpr hy)
  obtain ⟨hlength, hall⟩ := List.forall₂_iff_get.mp hpairs
  have hi' : i < a.length := hlength ▸ hi
  exact ⟨a[i], List.getElem_mem hi', hall i hi' hi⟩

theorem map_eq_of_forall₂ {l : List β} (hpairs : List.Forall₂ R a l) {f : α → γ} {g : β → γ}
    (hfg : ∀ x ∈ a, ∀ y ∈ l, R x y → f x = g y) : a.map f = l.map g := by
  obtain ⟨hlength, hall⟩ := List.forall₂_iff_get.mp hpairs
  apply List.ext_getElem (by simpa using hlength)
  intro i hi hi'
  rw [List.length_map] at hi hi'
  rw [List.getElem_map, List.getElem_map]
  exact hfg _ (List.getElem_mem hi) _ (List.getElem_mem hi') (hall i hi hi')

/-- Functions that agree on paired entries have the same values, rearranged. -/
theorem Rearranged.map_perm (h : Rearranged R a b) {f : α → γ} {g : β → γ}
    (hfg : ∀ x ∈ a, ∀ y ∈ b, R x y → f x = g y) : (a.map f).Perm (b.map g) := by
  obtain ⟨l, hpairs, hperm⟩ := h
  rw [map_eq_of_forall₂ hpairs fun x hx y hy => hfg x hx y (hperm.mem_iff.mp hy)]
  exact hperm.map g

theorem Rearranged.mono {S : α → β → Prop} (h : Rearranged R a b)
    (himp : ∀ x y, R x y → S x y) : Rearranged S a b := by
  obtain ⟨l, hpairs, hperm⟩ := h
  exact ⟨l, hpairs.imp himp, hperm⟩

theorem Rearranged.perm {a' : List α} {b' : List β} (h : Rearranged R a b) (ha : a'.Perm a)
    (hb : b.Perm b') : Rearranged R a' b' := by
  obtain ⟨l, hpairs, hperm⟩ := h
  obtain ⟨l', hpairs', hperm'⟩ := List.perm_comp_forall₂ ha hpairs
  exact ⟨l', hpairs', hperm'.trans (hperm.trans hb)⟩

/-- Once both lists are ascending by a key on which related entries agree, and which
tells the entries apart, they agree entry by entry. -/
theorem Rearranged.forall₂_of_ascending {κ : Type} [LinearOrder κ] {key : α → κ} {key' : β → κ}
    (h : Rearranged R a b) (hkey : ∀ x y, R x y → key x = key' y)
    (ha : a.Pairwise fun x y => key x ≤ key y) (hb : b.Pairwise fun x y => key' x ≤ key' y)
    (hinj : ∀ x ∈ b, ∀ y ∈ b, key' x = key' y → x = y) : List.Forall₂ R a b := by
  obtain ⟨l, hpairs, hperm⟩ := h
  have hkeys : a.map key = l.map key' :=
    map_eq_of_forall₂ hpairs fun x _ y _ => hkey x y
  have hascending : l.Pairwise fun x y => key' x ≤ key' y := by
    have hsorted : (a.map key).Pairwise (· ≤ ·) := List.pairwise_map.mpr ha
    rw [hkeys] at hsorted
    exact List.pairwise_map.mp hsorted
  have heq : l = b := by
    apply eq_of_perm_of_ascending hperm hascending hb
    intro x hx y hy
    exact hinj x (hperm.mem_iff.mp hx) y (hperm.mem_iff.mp hy)
  rw [← heq]
  exact hpairs

end GrevirPeripherals.Rearrangement
