import Mathlib.Data.List.Forall2
import Mathlib.Data.List.Sort
import Mathlib.Data.Prod.Lex
import Mathlib.Order.Basic

/-!
The contract of an unstable comparison sort. Nothing is assumed about the order
in which elements that compare equal come out, so results about a program that
sorts hold for every conforming implementation.
-/

namespace GrevirPeripherals.StandardSort

/-- The comparator is a strict weak ordering of the values being sorted. -/
structure StrictWeakOn {α : Type} (lt : α → α → Bool) (l : List α) : Prop where
  irrefl : ∀ a ∈ l, lt a a = false
  trans : ∀ a ∈ l, ∀ b ∈ l, ∀ c ∈ l, lt a b = true → lt b c = true → lt a c = true
  incomparableTrans : ∀ a ∈ l, ∀ b ∈ l, ∀ c ∈ l,
    lt a b = false → lt b a = false → lt b c = false → lt c b = false → lt a c = false

/-- A comparison sort: on every input its comparator orders, the result is a
permutation in which no element comes after one that it precedes. -/
structure Sorter where
  sort : {α : Type} → (α → α → Bool) → List α → List α
  perm : ∀ {α : Type} (lt : α → α → Bool) (l : List α),
    StrictWeakOn lt l → (sort lt l).Perm l
  sorted : ∀ {α : Type} (lt : α → α → Bool) (l : List α),
    StrictWeakOn lt l → (sort lt l).Pairwise fun a b => lt b a = false

section KeyOrder

variable {α κ : Type} [LinearOrder κ]

/-- Comparison of two values by a key in a linear order. -/
def byKey (key : α → κ) (a b : α) : Bool :=
  decide (key a < key b)

@[simp]
theorem byKey_eq_true_iff (key : α → κ) (a b : α) : byKey key a b = true ↔ key a < key b := by
  simp [byKey]

@[simp]
theorem byKey_eq_false_iff (key : α → κ) (a b : α) : byKey key a b = false ↔ key b ≤ key a := by
  simp [byKey]

theorem strictWeakOn_byKey (key : α → κ) (l : List α) : StrictWeakOn (byKey key) l where
  irrefl := by
    intro a _
    simp
  trans := by
    intro a _ b _ c _ hab hbc
    rw [byKey_eq_true_iff] at *
    exact hab.trans hbc
  incomparableTrans := by
    intro a _ b _ c _ hba _ hcb _
    rw [byKey_eq_false_iff] at *
    exact hcb.trans hba

theorem strictWeakOn_of_byKey {lt : α → α → Bool} {l : List α} (key : α → κ)
    (h : ∀ a ∈ l, ∀ b ∈ l, lt a b = byKey key a b) : StrictWeakOn lt l := by
  have hkey := strictWeakOn_byKey key l
  constructor
  · intro a ha
    rw [h a ha a ha]
    exact hkey.irrefl a ha
  · intro a ha b hb c hc
    rw [h a ha b hb, h b hb c hc, h a ha c hc]
    exact hkey.trans a ha b hb c hc
  · intro a ha b hb c hc
    rw [h a ha b hb, h b hb a ha, h b hb c hc, h c hc b hb, h a ha c hc]
    exact hkey.incomparableTrans a ha b hb c hc

/-- Two arrangements of the same values, both ascending by a key that tells the
values apart, are the same list. -/
theorem eq_of_perm_of_ascending {key : α → κ} {l₁ l₂ : List α} (hperm : l₁.Perm l₂)
    (h₁ : l₁.Pairwise fun a b => key a ≤ key b) (h₂ : l₂.Pairwise fun a b => key a ≤ key b)
    (hinj : ∀ a ∈ l₁, ∀ b ∈ l₁, key a = key b → a = b) : l₁ = l₂ := by
  apply hperm.eq_of_pairwise _ h₁ h₂
  intro a b ha hb hab hba
  exact hinj a ha b (hperm.mem_iff.mpr hb) (le_antisymm hab hba)

/-- The keys of two ascending arrangements agree even where the values do not. -/
theorem map_key_eq_of_perm_of_ascending {key : α → κ} {l₁ l₂ : List α} (hperm : l₁.Perm l₂)
    (h₁ : l₁.Pairwise fun a b => key a ≤ key b) (h₂ : l₂.Pairwise fun a b => key a ≤ key b) :
    l₁.map key = l₂.map key := by
  have h₁' : (l₁.map key).Pairwise (· ≤ ·) := List.pairwise_map.mpr h₁
  have h₂' : (l₂.map key).Pairwise (· ≤ ·) := List.pairwise_map.mpr h₂
  apply (hperm.map key).eq_of_pairwise _ h₁' h₂'
  intro a b _ _ hab hba
  exact le_antisymm hab hba

/-- In an ascending arrangement equal keys are adjacent, so comparing each value
with its predecessor alone finds every duplicate. -/
theorem pairwise_ne_of_adjacent {key : α → κ} {l : List α}
    (hascending : l.Pairwise fun a b => key a ≤ key b)
    (hadjacent : ∀ placed x rest, l = placed ++ x :: rest →
      ∀ previous, placed.getLast? = some previous → key previous ≠ key x) :
    l.Pairwise fun a b => key a ≠ key b := by
  rw [List.pairwise_iff_getElem] at hascending ⊢
  intro i j hi hj hij
  have hsplit : l = l.take j ++ l[j] :: l.drop (j + 1) := by
    rw [List.getElem_cons_drop, List.take_append_drop]
  have hlast : (l.take j).getLast? = some l[j - 1] := by
    rw [List.getLast?_take, if_neg (by omega), List.getElem?_eq_getElem (by omega)]
    rfl
  have hprevious := hadjacent _ _ _ hsplit _ hlast
  have hlt : key l[j - 1] < key l[j] :=
    lt_of_le_of_ne (hascending (j - 1) j (by omega) hj (by omega)) hprevious
  rcases Nat.lt_or_ge i (j - 1) with hearlier | hadjacent
  · exact ((hascending i (j - 1) hi (by omega) hearlier).trans_lt hlt).ne
  · obtain rfl : i = j - 1 := by omega
    exact hprevious

/-- In an ascending arrangement whatever stands between two equal values equals them. -/
theorem eq_of_between {key : α → κ} {l : List α}
    (hascending : l.Pairwise fun a b => key a ≤ key b)
    (hinj : ∀ a ∈ l, ∀ b ∈ l, key a = key b → a = b) {i j k : Nat} (hij : i ≤ j) (hjk : j ≤ k)
    {c : α} (hic : l[i]? = some c) (hkc : l[k]? = some c) : l[j]? = some c := by
  obtain ⟨hi, rfl⟩ := List.getElem?_eq_some_iff.mp hic
  obtain ⟨hk, hc⟩ := List.getElem?_eq_some_iff.mp hkc
  have hj : j < l.length := hjk.trans_lt hk
  have hle : ∀ m n (hm : m < l.length) (hn : n < l.length), m ≤ n → key l[m] ≤ key l[n] := by
    intro m n hm hn hmn
    rcases Nat.eq_or_lt_of_le hmn with rfl | hlt
    · exact le_rfl
    · exact List.pairwise_iff_getElem.mp hascending m n hm hn hlt
  have hback : key l[j] ≤ key l[i] := by
    rw [← hc]
    exact hle j k hj hk hjk
  have heq := hinj _ (List.getElem_mem hj) _ (List.getElem_mem hi)
    (le_antisymm hback (hle i j hi hj hij))
  rw [List.getElem?_eq_getElem hj, heq]

/-- Two strictly ascending arrangements match by position if and only if they have
the same keys and match at every key. -/
theorem forall₂_iff_of_ascending {β : Type} {key : α → κ} {key' : β → κ} {R : α → β → Prop}
    {l : List α} {m : List β} (hl : l.Pairwise fun a b => key a < key b)
    (hm : m.Pairwise fun a b => key' a < key' b) :
    List.Forall₂ (fun a b => key a = key' b ∧ R a b) l m ↔
      (∀ k, k ∈ l.map key ↔ k ∈ m.map key') ∧ ∀ a ∈ l, ∀ b ∈ m, key a = key' b → R a b := by
  have hl' : (l.map key).Pairwise (· < ·) := List.pairwise_map.mpr hl
  have hm' : (m.map key').Pairwise (· < ·) := List.pairwise_map.mpr hm
  have hnodup : (l.map key).Nodup := hl'.imp ne_of_lt
  rw [List.forall₂_iff_get]
  simp only [List.get_eq_getElem]
  constructor
  · rintro ⟨hlength, hall⟩
    have hkeys : l.map key = m.map key' := by
      apply List.ext_getElem (by simpa using hlength)
      intro i hi hi'
      rw [List.length_map] at hi hi'
      rw [List.getElem_map, List.getElem_map]
      exact (hall i hi hi').1
    refine ⟨fun k => by rw [hkeys], ?_⟩
    intro a ha b hb hkey
    obtain ⟨j, hj, rfl⟩ := List.getElem_of_mem hb
    have hj' : j < l.length := hlength ▸ hj
    obtain ⟨hkey', hR⟩ := hall j hj' hj
    obtain rfl := List.inj_on_of_nodup_map hnodup ha (List.getElem_mem hj')
      (hkey.trans hkey'.symm)
    exact hR
  · rintro ⟨hmem, hall⟩
    have hperm : (l.map key).Perm (m.map key') :=
      (List.perm_ext_iff_of_nodup hnodup (hm'.imp ne_of_lt)).mpr hmem
    have hkeys : l.map key = m.map key' :=
      hperm.eq_of_pairwise (fun a b _ _ hab hba => absurd hba hab.asymm) hl' hm'
    have hlength : l.length = m.length := by simpa using congrArg List.length hkeys
    refine ⟨hlength, ?_⟩
    intro i hi hi'
    have hkey := List.getElem_of_eq hkeys (by simpa using hi)
    rw [List.getElem_map, List.getElem_map] at hkey
    exact ⟨hkey, hall _ (List.getElem_mem hi) _ (List.getElem_mem hi') hkey⟩

end KeyOrder

namespace Sorter

variable {α κ : Type} [LinearOrder κ] (S : Sorter)

section Members

variable {lt : α → α → Bool} (key : α → κ) {l : List α}

theorem perm_of_byKey (h : ∀ a ∈ l, ∀ b ∈ l, lt a b = byKey key a b) :
    (S.sort lt l).Perm l :=
  S.perm lt l (strictWeakOn_of_byKey key h)

theorem ascending_of_byKey (h : ∀ a ∈ l, ∀ b ∈ l, lt a b = byKey key a b) :
    (S.sort lt l).Pairwise fun a b => key a ≤ key b := by
  have hperm := S.perm_of_byKey key h
  apply (S.sorted lt l (strictWeakOn_of_byKey key h)).imp_of_mem
  intro a b ha hb hba
  rw [h b (hperm.mem_iff.mp hb) a (hperm.mem_iff.mp ha), byKey_eq_false_iff] at hba
  exact hba

/-- A sort by a key that tells the values apart does not depend on the order in
which the values are presented. -/
theorem sort_congr_of_byKey {l' : List α} (h : ∀ a ∈ l, ∀ b ∈ l, lt a b = byKey key a b)
    (hperm : l.Perm l') (hinj : ∀ a ∈ l, ∀ b ∈ l, key a = key b → a = b) :
    S.sort lt l = S.sort lt l' := by
  have h' : ∀ a ∈ l', ∀ b ∈ l', lt a b = byKey key a b := by
    intro a ha b hb
    exact h a (hperm.mem_iff.mpr ha) b (hperm.mem_iff.mpr hb)
  have hsort := S.perm_of_byKey key h
  apply eq_of_perm_of_ascending (hsort.trans (hperm.trans (S.perm_of_byKey key h').symm))
    (S.ascending_of_byKey key h) (S.ascending_of_byKey key h')
  intro a ha b hb
  exact hinj a (hsort.mem_iff.mp ha) b (hsort.mem_iff.mp hb)

end Members

theorem perm_byKey (key : α → κ) (l : List α) : (S.sort (byKey key) l).Perm l :=
  S.perm_of_byKey key fun _ _ _ _ => rfl

theorem ascending_byKey (key : α → κ) (l : List α) :
    (S.sort (byKey key) l).Pairwise fun a b => key a ≤ key b :=
  S.ascending_of_byKey key fun _ _ _ _ => rfl

@[simp]
theorem length_byKey (key : α → κ) (l : List α) : (S.sort (byKey key) l).length = l.length :=
  (S.perm_byKey key l).length_eq

theorem sort_byKey_congr {key : α → κ} {l₁ l₂ : List α} (hperm : l₁.Perm l₂)
    (hinj : ∀ a ∈ l₁, ∀ b ∈ l₁, key a = key b → a = b) :
    S.sort (byKey key) l₁ = S.sort (byKey key) l₂ :=
  S.sort_congr_of_byKey key (fun _ _ _ _ => rfl) hperm hinj

theorem map_sort_byKey_congr (key : α → κ) {l₁ l₂ : List α} (hperm : l₁.Perm l₂) :
    (S.sort (byKey key) l₁).map key = (S.sort (byKey key) l₂).map key :=
  map_key_eq_of_perm_of_ascending
    ((S.perm_byKey key l₁).trans (hperm.trans (S.perm_byKey key l₂).symm))
    (S.ascending_byKey key l₁) (S.ascending_byKey key l₂)

end Sorter

section Insertion

variable {α : Type}

/-- Put a value before the first one that does not precede it. -/
def insertBy (lt : α → α → Bool) (x : α) : List α → List α
  | [] => [x]
  | y :: ys => if lt y x then y :: insertBy lt x ys else x :: y :: ys

/-- Insertion sort, the reference implementation of the contract. -/
def insertionSort (lt : α → α → Bool) : List α → List α
  | [] => []
  | x :: xs => insertBy lt x (insertionSort lt xs)

theorem insertBy_perm (lt : α → α → Bool) (x : α) (l : List α) :
    (insertBy lt x l).Perm (x :: l) := by
  induction l with
  | nil => exact List.Perm.refl _
  | cons y ys ih =>
      rw [insertBy]
      split
      · exact (ih.cons y).trans (List.Perm.swap x y ys)
      · exact List.Perm.refl _

theorem insertionSort_perm (lt : α → α → Bool) (l : List α) :
    (insertionSort lt l).Perm l := by
  induction l with
  | nil => exact List.Perm.refl _
  | cons x xs ih => exact (insertBy_perm lt x _).trans (ih.cons x)

theorem StrictWeakOn.asymm {lt : α → α → Bool} {l : List α} (h : StrictWeakOn lt l)
    {a b : α} (ha : a ∈ l) (hb : b ∈ l) (hab : lt a b = true) : lt b a = false := by
  apply Bool.eq_false_iff.mpr
  intro hba
  have haa := h.trans a ha b hb a ha hab hba
  rw [h.irrefl a ha] at haa
  contradiction

/-- What does not precede a value does not precede anything that follows it. -/
theorem StrictWeakOn.notLt_of_lt_of_notLt {lt : α → α → Bool} {l : List α}
    (h : StrictWeakOn lt l) {a b c : α} (ha : a ∈ l) (hb : b ∈ l) (hc : c ∈ l)
    (hab : lt a b = false) (hbc : lt b c = false) : lt a c = false := by
  apply Bool.eq_false_iff.mpr
  intro hac
  cases hba : lt b a with
  | true =>
      rw [h.trans b hb a ha c hc hba hac] at hbc
      contradiction
  | false =>
      cases hcb : lt c b with
      | true =>
          rw [h.trans a ha c hc b hb hac hcb] at hab
          contradiction
      | false =>
          rw [h.incomparableTrans a ha b hb c hc hab hba hbc hcb] at hac
          contradiction

theorem StrictWeakOn.mono {lt : α → α → Bool} {l l' : List α} (h : StrictWeakOn lt l)
    (hsub : l' ⊆ l) : StrictWeakOn lt l' where
  irrefl a ha := h.irrefl a (hsub ha)
  trans a ha b hb c hc := h.trans a (hsub ha) b (hsub hb) c (hsub hc)
  incomparableTrans a ha b hb c hc :=
    h.incomparableTrans a (hsub ha) b (hsub hb) c (hsub hc)

theorem insertBy_sorted {lt : α → α → Bool} {x : α} {l : List α}
    (h : StrictWeakOn lt (x :: l)) (hl : l.Pairwise fun a b => lt b a = false) :
    (insertBy lt x l).Pairwise fun a b => lt b a = false := by
  induction l with
  | nil => simp [insertBy]
  | cons y ys ih =>
      rw [List.pairwise_cons] at hl
      obtain ⟨hy, hys⟩ := hl
      rw [insertBy]
      split
      next hyx =>
        rw [List.pairwise_cons]
        constructor
        · intro z hz
          have hz' := (insertBy_perm lt x ys).mem_iff.mp hz
          rcases List.mem_cons.mp hz' with rfl | hz'
          · exact h.asymm (by simp) (by simp) hyx
          · exact hy z hz'
        · have hsub : x :: ys ⊆ x :: y :: ys :=
            List.cons_subset_cons x (List.subset_cons_self y ys)
          exact ih (h.mono hsub) hys
      next hyx =>
        have hyx' : lt y x = false := by simpa using hyx
        rw [List.pairwise_cons]
        refine ⟨?_, List.pairwise_cons.mpr ⟨hy, hys⟩⟩
        intro z hz
        rcases List.mem_cons.mp hz with rfl | hz
        · exact hyx'
        · exact h.notLt_of_lt_of_notLt (by simp [hz]) (by simp) (by simp) (hy z hz) hyx'

theorem insertionSort_sorted {lt : α → α → Bool} {l : List α} (h : StrictWeakOn lt l) :
    (insertionSort lt l).Pairwise fun a b => lt b a = false := by
  induction l with
  | nil => exact List.Pairwise.nil
  | cons x xs ih =>
      apply insertBy_sorted
      · apply h.mono
        intro a ha
        rcases List.mem_cons.mp ha with rfl | ha
        · simp
        · exact List.mem_cons_of_mem x ((insertionSort_perm lt xs).mem_iff.mp ha)
      · exact ih (h.mono (List.subset_cons_self x xs))

/-- Insertion sort meets the contract. -/
def insertionSorter : Sorter where
  sort := insertionSort
  perm lt l _ := insertionSort_perm lt l
  sorted _ _ h := insertionSort_sorted h

end Insertion

end GrevirPeripherals.StandardSort
