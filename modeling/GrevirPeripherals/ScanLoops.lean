import Mathlib.Data.List.GetD
import Mathlib.Data.Set.Insert
import Mathlib.Order.Bounds.Basic
import Mathlib.Order.Nat

/-!
Loops over an array. One keeps the least value it has met, with zero for none at all,
one skips each value that equals its predecessor, and one fills the array.
-/

namespace GrevirPeripherals.ScanLoops

section Minimum

/-- One step of the running minimum. -/
def lower (lowest x : Nat) : Nat :=
  if lowest = 0 || x < lowest then x else lowest

/-- Zero for the empty set, and the least member of any other. -/
def Lowest (values : Set Nat) (lowest : Nat) : Prop :=
  (lowest = 0 ∧ values = ∅) ∨ (lowest ≠ 0 ∧ IsLeast values lowest)

theorem lowest_empty : Lowest ∅ 0 :=
  Or.inl ⟨rfl, rfl⟩

theorem Lowest.insert {values : Set Nat} {lowest x : Nat} (h : Lowest values lowest)
    (hx : x ≠ 0) : Lowest (Insert.insert x values) (lower lowest x) := by
  rcases h with ⟨rfl, rfl⟩ | ⟨hlowest, hmem, hle⟩
  · have hlower : lower 0 x = x := by simp [lower]
    rw [hlower]
    exact Or.inr ⟨hx, by simp⟩
  · rw [lower]
    split_ifs with hlt
    · have hlt : x < lowest := by simpa [hlowest] using hlt
      refine Or.inr ⟨hx, Set.mem_insert x values, ?_⟩
      rintro y (rfl | hy)
      · exact le_rfl
      · exact hlt.le.trans (hle hy)
    · have hge : lowest ≤ x := by simpa [hlowest] using hlt
      refine Or.inr ⟨hlowest, Set.mem_insert_of_mem x hmem, ?_⟩
      rintro y (rfl | hy)
      · exact hge
      · exact hle hy

theorem Lowest.foldl {values : Set Nat} {lowest : Nat} (h : Lowest values lowest) {l : List Nat}
    (hl : ∀ x ∈ l, x ≠ 0) :
    Lowest {x | x ∈ values ∨ x ∈ l} (l.foldl lower lowest) := by
  induction l generalizing values lowest with
  | nil => simpa using h
  | cons x rest ih =>
      rw [List.forall_mem_cons] at hl
      have hrest := ih (h.insert hl.1) hl.2
      have hset : {y | y ∈ Insert.insert x values ∨ y ∈ rest} =
          {y | y ∈ values ∨ y ∈ x :: rest} := by
        ext y
        simp only [Set.mem_ofPred_eq, Set.mem_insert_iff, List.mem_cons]
        tauto
      rw [hset] at hrest
      exact hrest

theorem lowest_foldl {l : List Nat} (hl : ∀ x ∈ l, x ≠ 0) :
    Lowest {x | x ∈ l} (l.foldl lower 0) := by
  simpa using lowest_empty.foldl hl

theorem Lowest.unique {values : Set Nat} {lowest lowest' : Nat} (h : Lowest values lowest)
    (h' : Lowest values lowest') : lowest = lowest' := by
  rcases h with ⟨rfl, hempty⟩ | ⟨-, hleast⟩
  · rcases h' with ⟨rfl, -⟩ | ⟨-, hmem, -⟩
    · rfl
    · simp [hempty] at hmem
  · rcases h' with ⟨-, hempty⟩ | ⟨-, hleast'⟩
    · exact absurd hleast.1 (by simp [hempty])
    · exact hleast.unique hleast'

theorem Lowest.eq_zero_iff {values : Set Nat} {lowest : Nat} (h : Lowest values lowest) :
    lowest = 0 ↔ values = ∅ := by
  rcases h with ⟨hzero, hempty⟩ | ⟨hne, hmem, -⟩
  · exact iff_of_true hzero hempty
  · exact iff_of_false hne (Set.nonempty_of_mem hmem).ne_empty

theorem Lowest.isLeast {values : Set Nat} {lowest : Nat} (h : Lowest values lowest)
    (hne : lowest ≠ 0) : IsLeast values lowest := by
  rcases h with ⟨hzero, -⟩ | ⟨-, hleast⟩
  · exact absurd hzero hne
  · exact hleast

end Minimum

section Repeats

variable {α : Type} [DecidableEq α]

/-- The values that differ from their predecessor. -/
def leaders (previous : Option α) : List α → List α
  | [] => []
  | x :: rest =>
      if previous = some x then leaders (some x) rest else x :: leaders (some x) rest

/-- The test of each value, with `false` in place of a skipped one. -/
def leaderRow (test : α → Bool) (previous : Option α) : List α → List Bool
  | [] => []
  | x :: rest => (decide (previous ≠ some x) && test x) :: leaderRow test (some x) rest

@[simp]
theorem leaderRow_length (test : α → Bool) (previous : Option α) (l : List α) :
    (leaderRow test previous l).length = l.length := by
  induction l generalizing previous with
  | nil => rfl
  | cons x rest ih => rw [leaderRow, List.length_cons, ih, List.length_cons]

theorem mem_of_mem_leaders {previous : Option α} {l : List α} {x : α}
    (h : x ∈ leaders previous l) : x ∈ l := by
  induction l generalizing previous with
  | nil => simp [leaders] at h
  | cons y rest ih =>
      rw [leaders] at h
      split_ifs at h with hrepeat
      · exact List.mem_cons_of_mem y (ih h)
      · rcases List.mem_cons.mp h with rfl | h
        · exact List.mem_cons_self
        · exact List.mem_cons_of_mem y (ih h)

/-- Skipping repetitions loses no value, since the first of a run is kept. -/
theorem mem_leaders_or {previous : Option α} {l : List α} {x : α} (h : x ∈ l) :
    x ∈ leaders previous l ∨ previous = some x := by
  induction l generalizing previous with
  | nil => contradiction
  | cons y rest ih =>
      rw [leaders]
      split_ifs with hrepeat
      · rcases List.mem_cons.mp h with rfl | h
        · exact Or.inr hrepeat
        · rcases ih h with hrest | heq
          · exact Or.inl hrest
          · exact Or.inr (hrepeat.trans heq)
      · rcases List.mem_cons.mp h with rfl | h
        · exact Or.inl List.mem_cons_self
        · rcases @ih (some y) h with hrest | heq
          · exact Or.inl (List.mem_cons_of_mem y hrest)
          · rw [Option.some.inj heq]
            exact Or.inl List.mem_cons_self

theorem mem_leaders_iff (l : List α) (x : α) : x ∈ leaders none l ↔ x ∈ l := by
  constructor
  · exact mem_of_mem_leaders
  · intro h
    exact (mem_leaders_or h).resolve_right (by simp)

/-- A marked position holds a value that passes the test. -/
theorem leaderRow_sound {test : α → Bool} {previous : Option α} {l : List α} {c : Nat}
    (h : (leaderRow test previous l).getD c false = true) :
    ∃ hc : c < l.length, test l[c] = true := by
  induction l generalizing previous c with
  | nil => simp [leaderRow] at h
  | cons y rest ih =>
      cases c with
      | zero =>
          rw [leaderRow, List.getD_cons_zero, Bool.and_eq_true] at h
          exact ⟨by simp, h.2⟩
      | succ c =>
          rw [leaderRow, List.getD_cons_succ] at h
          obtain ⟨hc, htest⟩ := ih h
          exact ⟨by simpa using hc, htest⟩

/-- Every value that passes the test and is kept has a marked position. -/
theorem leaderRow_complete {test : α → Bool} {previous : Option α} {l : List α} {x : α}
    (hx : x ∈ leaders previous l) (htest : test x = true) :
    ∃ c, ∃ hc : c < l.length, l[c] = x ∧ (leaderRow test previous l).getD c false = true := by
  induction l generalizing previous with
  | nil => simp [leaders] at hx
  | cons y rest ih =>
      have hlater : x ∈ leaders (some y) rest → ∃ c, ∃ hc : c < (y :: rest).length,
          (y :: rest)[c] = x ∧ (leaderRow test previous (y :: rest)).getD c false = true := by
        intro hrest
        obtain ⟨c, hc, hvalue, hmark⟩ := ih hrest
        refine ⟨c + 1, by simpa using hc, hvalue, ?_⟩
        rw [leaderRow, List.getD_cons_succ]
        exact hmark
      rw [leaders] at hx
      split_ifs at hx with hrepeat
      · exact hlater hx
      · rcases List.mem_cons.mp hx with rfl | hx
        · refine ⟨0, by simp, rfl, ?_⟩
          simp [leaderRow, hrepeat, htest]
        · exact hlater hx

end Repeats

section Filling

variable {α β : Type}

/-- One step of the loop that fills an array. -/
def put (f : α → β) (cursor : List β × Nat) (x : α) : List β × Nat :=
  (cursor.1.set cursor.2 (f x), cursor.2 + 1)

/-- The loop replaces as many slots as it has values, in their order. -/
theorem foldl_put (f : α → β) (xs : List α) (filled slots : List β)
    (h : slots.length = xs.length) :
    xs.foldl (put f) (filled ++ slots, filled.length) =
      (filled ++ xs.map f, filled.length + xs.length) := by
  induction xs generalizing filled slots with
  | nil =>
      rw [List.length_eq_zero_iff.mp h]
      rfl
  | cons x xs ih =>
      cases slots with
      | nil => contradiction
      | cons slot slots =>
          have hset : (filled ++ slot :: slots).set filled.length (f x) =
              filled ++ [f x] ++ slots := by
            rw [List.set_append_right _ _ (Nat.le_refl _), Nat.sub_self, List.append_assoc]
            rfl
          have hnext := ih (filled ++ [f x]) slots (Nat.succ.inj h)
          rw [List.length_append, List.length_singleton] at hnext
          rw [List.foldl_cons, put, hset]
          refine hnext.trans ?_
          rw [List.append_assoc, List.length_cons, Nat.add_assoc, Nat.add_comm 1]
          rfl

end Filling

end GrevirPeripherals.ScanLoops
