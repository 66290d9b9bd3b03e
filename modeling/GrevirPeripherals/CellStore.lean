import Mathlib.Data.List.Nodup
import Mathlib.Logic.Function.Basic

/-!
A store of cells behind an adapter with any state of its own, and what a sequence of
reads or updates does to the cells it names and to the others.
-/

namespace GrevirPeripherals.CellStore

/-- The adapter answers for the addresses below its capacity only. -/
structure Store (A B σ : Type) [LT A] where
  capacity : A
  contents : σ → A → B
  read : A → σ → B × σ
  update : A → B → σ → σ
  read_fst : ∀ {a}, a < capacity → ∀ s, (read a s).1 = contents s a
  contents_read : ∀ {a}, a < capacity → ∀ s {b}, b < capacity →
    contents (read a s).2 b = contents s b
  contents_update_self : ∀ {a}, a < capacity → ∀ x s, contents (update a x s) a = x
  contents_update_of_ne : ∀ {a}, a < capacity → ∀ x s {b}, b < capacity → b ≠ a →
    contents (update a x s) b = contents s b

namespace Store

/-- Cells without an adapter between. -/
def ofFunction {A B : Type} [LT A] [DecidableEq A] (capacity : A) : Store A B (A → B) where
  capacity := capacity
  contents cells := cells
  read a cells := (cells a, cells)
  update a x cells := Function.update cells a x
  read_fst _ _ := rfl
  contents_read _ _ _ _ := rfl
  contents_update_self _ _ _ := Function.update_self _ _ _
  contents_update_of_ne _ _ _ _ _ hne := Function.update_of_ne hne _ _

variable {A B σ : Type} [LT A] (store : Store A B σ)

def readAll : List A → σ → List B × σ
  | [], s => ([], s)
  | a :: addresses, s =>
      let result := store.read a s
      let rest := readAll addresses result.2
      (result.1 :: rest.1, rest.2)

def updateAll : List (A × B) → σ → σ
  | [], s => s
  | (a, x) :: writes, s => updateAll writes (store.update a x s)

section Cells

variable {store} {addresses : List A}

theorem contents_readAll (hvalid : ∀ a ∈ addresses, a < store.capacity) (s : σ) {b : A}
    (hb : b < store.capacity) :
    store.contents (store.readAll addresses s).2 b = store.contents s b := by
  induction addresses generalizing s with
  | nil => rfl
  | cons a addresses ih =>
      rw [List.forall_mem_cons] at hvalid
      rw [readAll, ih hvalid.2]
      exact store.contents_read hvalid.1 s hb

theorem readAll_fst (hvalid : ∀ a ∈ addresses, a < store.capacity) (s : σ) :
    (store.readAll addresses s).1 = addresses.map (store.contents s) := by
  induction addresses generalizing s with
  | nil => rfl
  | cons a addresses ih =>
      rw [List.forall_mem_cons] at hvalid
      have hrest : addresses.map (store.contents (store.read a s).2) =
          addresses.map (store.contents s) := by
        apply List.map_congr_left
        intro b hb
        exact store.contents_read hvalid.1 s (hvalid.2 b hb)
      rw [readAll, ih hvalid.2, hrest, store.read_fst hvalid.1, List.map_cons]

/-- The cells that are not written keep what they hold. -/
theorem contents_updateAll_of_notMem {values : List B}
    (hvalid : ∀ a ∈ addresses, a < store.capacity) (s : σ) {b : A} (hb : b < store.capacity)
    (hnot : b ∉ addresses) :
    store.contents (store.updateAll (addresses.zip values) s) b = store.contents s b := by
  induction addresses generalizing values s with
  | nil => rfl
  | cons a addresses ih =>
      rw [List.forall_mem_cons] at hvalid
      rw [List.mem_cons, not_or] at hnot
      cases values with
      | nil => rfl
      | cons x values =>
          rw [List.zip_cons_cons, updateAll, ih hvalid.2 _ hnot.2]
          exact store.contents_update_of_ne hvalid.1 x s hb hnot.1

/-- Different cells hold what was written to them. -/
theorem map_contents_updateAll {values : List B} (hnodup : addresses.Nodup)
    (hvalid : ∀ a ∈ addresses, a < store.capacity) (hlength : values.length = addresses.length)
    (s : σ) :
    addresses.map (store.contents (store.updateAll (addresses.zip values) s)) = values := by
  induction addresses generalizing values s with
  | nil => exact (List.length_eq_zero_iff.mp hlength).symm
  | cons a addresses ih =>
      rw [List.nodup_cons] at hnodup
      rw [List.forall_mem_cons] at hvalid
      cases values with
      | nil => contradiction
      | cons x values =>
          rw [List.zip_cons_cons, updateAll, List.map_cons,
            ih hnodup.2 hvalid.2 (Nat.succ.inj hlength),
            contents_updateAll_of_notMem hvalid.2 _ hvalid.1 hnodup.1,
            store.contents_update_self hvalid.1]

end Cells

section Log

/-- The store whose adapter also writes down every address it is called with. -/
def logged : Store A B (σ × List A) where
  capacity := store.capacity
  contents s := store.contents s.1
  read a s := ((store.read a s.1).1, (store.read a s.1).2, s.2 ++ [a])
  update a x s := (store.update a x s.1, s.2 ++ [a])
  read_fst h s := store.read_fst h s.1
  contents_read h s := store.contents_read h s.1
  contents_update_self h x s := store.contents_update_self h x s.1
  contents_update_of_ne h x s := store.contents_update_of_ne h x s.1

theorem readAll_logged (addresses : List A) (s : σ) (log : List A) :
    store.logged.readAll addresses (s, log) =
      ((store.readAll addresses s).1, (store.readAll addresses s).2, log ++ addresses) := by
  induction addresses generalizing s log with
  | nil => simp [readAll]
  | cons a addresses ih =>
      rw [readAll, readAll]
      simp only [logged] at ih ⊢
      rw [ih, List.append_assoc]
      rfl

theorem updateAll_logged (writes : List (A × B)) (s : σ) (log : List A) :
    store.logged.updateAll writes (s, log) =
      (store.updateAll writes s, log ++ writes.map Prod.fst) := by
  induction writes generalizing s log with
  | nil => simp [updateAll]
  | cons write writes ih =>
      rw [updateAll, updateAll]
      simp only [logged] at ih ⊢
      rw [ih, List.append_assoc]
      rfl

end Log

end Store

end GrevirPeripherals.CellStore
