import GrevirPeripherals.StandardSort
import Mathlib.Algebra.Group.Nat.Defs
import Mathlib.Data.List.GetD

/-!
Evaluation in which every operation with a precondition checks it. A program that
never faults computes what its unchecked version computes.
-/

namespace GrevirPeripherals.CheckedExecution

open GrevirPeripherals.StandardSort

/-- What an evaluation must not do. -/
inductive Fault where
  | divisionByZero
  | productOverflow
  | outOfRange
  | unorderedSort
deriving DecidableEq

abbrev Checked := Except Fault

variable {α β : Type}

@[simp]
theorem ok_bind (x : α) (f : α → Checked β) : (Except.ok x >>= f) = f x :=
  rfl

@[simp]
theorem pure_eq_ok (x : α) : (pure x : Checked α) = .ok x :=
  rfl

section Arithmetic

def divide (a b : UInt64) : Checked UInt64 :=
  if b = 0 then .error .divisionByZero else .ok (a / b)

def remainder (a b : UInt64) : Checked UInt64 :=
  if b = 0 then .error .divisionByZero else .ok (a % b)

def divide32 (a b : UInt32) : Checked UInt32 :=
  if b = 0 then .error .divisionByZero else .ok (a / b)

def multiply (a b : UInt64) : Checked UInt64 :=
  if 2 ^ 64 ≤ a.toNat * b.toNat then .error .productOverflow else .ok (a * b)

theorem divide_eq_ok {a b : UInt64} (h : b ≠ 0) : divide a b = .ok (a / b) :=
  if_neg h

theorem remainder_eq_ok {a b : UInt64} (h : b ≠ 0) : remainder a b = .ok (a % b) :=
  if_neg h

theorem divide32_eq_ok {a b : UInt32} (h : b ≠ 0) : divide32 a b = .ok (a / b) :=
  if_neg h

theorem multiply_eq_ok {a b : UInt64} (h : a.toNat * b.toNat < 2 ^ 64) :
    multiply a b = .ok (a * b) :=
  if_neg (Nat.not_le.mpr h)

/-- Two 32-bit factors have a 64-bit product. -/
theorem multiply_toUInt64 (a b : UInt32) :
    multiply a.toUInt64 b.toUInt64 = .ok (a.toUInt64 * b.toUInt64) := by
  apply multiply_eq_ok
  rw [UInt32.toNat_toUInt64, UInt32.toNat_toUInt64]
  have hlt : a.toNat * b.toNat < 2 ^ 32 * 2 ^ 32 := Nat.mul_lt_mul'' a.toNat_lt b.toNat_lt
  exact hlt

end Arithmetic

section Arrays

def readAt (l : List α) (i : Nat) : Checked α :=
  match l[i]? with
  | some x => .ok x
  | none => .error .outOfRange

def writeAt (l : List α) (i : Nat) (x : α) : Checked (List α) :=
  if i < l.length then .ok (l.set i x) else .error .outOfRange

theorem readAt_eq_ok {l : List α} {i : Nat} (h : i < l.length) : readAt l i = .ok l[i] := by
  rw [readAt, List.getElem?_eq_getElem h]

theorem readAt_eq_getD {l : List α} {i : Nat} (h : i < l.length) (d : α) :
    readAt l i = .ok (l.getD i d) := by
  rw [readAt_eq_ok h, List.getD_eq_getElem _ _ h]

theorem writeAt_eq_ok {l : List α} {i : Nat} (h : i < l.length) (x : α) :
    writeAt l i x = .ok (l.set i x) :=
  if_pos h

theorem readAt_length (before : List α) (x : α) (after : List α) :
    readAt (before ++ x :: after) before.length = .ok x := by
  rw [readAt, List.getElem?_append_right le_rfl, Nat.sub_self]
  rfl

/-- An array of the given size whose first entries are in use. -/
def padded (size : Nat) (d : α) (used : List α) : List α :=
  used ++ List.replicate (size - used.length) d

section Padded

variable {size : Nat} {d : α} {used : List α}

theorem padded_nil (size : Nat) (d : α) : padded size d [] = List.replicate size d :=
  rfl

theorem padded_of_length_eq (h : used.length = size) : padded size d used = used := by
  rw [padded, h, Nat.sub_self, List.replicate_zero, List.append_nil]

theorem padded_eq_cons (h : used.length < size) :
    padded size d used = used ++ d :: List.replicate (size - (used.length + 1)) d := by
  have hsize : size - used.length = size - (used.length + 1) + 1 := by omega
  rw [padded, hsize, List.replicate_succ]

theorem padded_concat (x : α) :
    padded size d (used ++ [x]) =
      used ++ x :: List.replicate (size - (used.length + 1)) d := by
  rw [padded, List.length_append, List.length_singleton, List.append_assoc]
  rfl

/-- The next free entry has the value it will have if nothing is written to it. -/
theorem padded_concat_default (h : used.length < size) :
    padded size d (used ++ [d]) = padded size d used := by
  rw [padded_concat, padded_eq_cons h]

theorem readAt_padded {i : Nat} (h : i < used.length) (e : α) :
    readAt (padded size d used) i = .ok (used.getD i e) := by
  have hi : i < (padded size d used).length := by
    rw [padded, List.length_append]
    exact Nat.lt_add_right _ h
  rw [readAt_eq_getD hi e, padded, List.getD_append _ _ _ _ h]

theorem readAt_padded_length (x : α) :
    readAt (padded size d (used ++ [x])) used.length = .ok x := by
  rw [padded_concat, readAt_length]

theorem set_length (before : List α) (x y : α) (after : List α) :
    (before ++ x :: after).set before.length y = before ++ y :: after := by
  rw [List.set_append_right _ _ le_rfl, Nat.sub_self, List.set_cons_zero]

theorem writeAt_length (before : List α) (x y : α) (after : List α) :
    writeAt (before ++ x :: after) before.length y = .ok (before ++ y :: after) := by
  have hlt : before.length < (before ++ x :: after).length := by
    rw [List.length_append, List.length_cons]
    omega
  rw [writeAt_eq_ok hlt, set_length]

theorem writeAt_padded (h : used.length < size) (x : α) :
    writeAt (padded size d used) used.length x = .ok (padded size d (used ++ [x])) := by
  rw [padded_eq_cons h, writeAt_length, padded_concat]

theorem writeAt_padded_length (x y : α) :
    writeAt (padded size d (used ++ [x])) used.length y =
      .ok (padded size d (used ++ [y])) := by
  rw [padded_concat, padded_concat, writeAt_length]

end Padded

end Arrays

section Loops

/-- A loop over the positions of an array from `i` on, which reads one entry in each
round and stops at the first for which `f` holds. -/
def anyFrom (l : List α) (f : α → Checked Bool) : Nat → Nat → Checked Bool
  | _, 0 => .ok false
  | i, remaining + 1 => do
      let x ← readAt l i
      if ← f x then return true else anyFrom l f (i + 1) remaining

theorem anyFrom_eq_ok {f : α → Checked Bool} {g : α → Bool} {l : List α} {i remaining : Nat}
    (hle : i + remaining ≤ l.length) (h : ∀ x ∈ (l.drop i).take remaining, f x = .ok (g x)) :
    anyFrom l f i remaining = .ok (((l.drop i).take remaining).any g) := by
  induction remaining generalizing i with
  | zero => simp [anyFrom]
  | succ remaining ih =>
      have hi : i < l.length := by omega
      rw [List.drop_eq_getElem_cons hi, List.take_succ_cons] at h ⊢
      rw [List.forall_mem_cons] at h
      rw [anyFrom, readAt_eq_ok hi, ok_bind, h.1, ok_bind, ih (by omega) h.2, List.any_cons]
      cases g l[i] <;> rfl

/-- A loop over the first `count` entries of an array. -/
def anyBelow (l : List α) (count : Nat) (f : α → Checked Bool) : Checked Bool :=
  anyFrom l f 0 count

theorem anyBelow_eq_ok {f : α → Checked Bool} {g : α → Bool} {l : List α} {count : Nat}
    (hle : count ≤ l.length) (h : ∀ x ∈ l.take count, f x = .ok (g x)) :
    anyBelow l count f = .ok ((l.take count).any g) := by
  rw [anyBelow, anyFrom_eq_ok (by omega) (by simpa using h), List.drop_zero]

/-- A loop that fills an array of the given size in the order of its entries. -/
def fillFrom (f : Nat → Checked α) : Nat → Nat → List α → Checked (List α)
  | _, 0, out => .ok out
  | i, remaining + 1, out => do
      let x ← f i
      let out ← writeAt out i x
      fillFrom f (i + 1) remaining out

def fill (size : Nat) (d : α) (f : Nat → Checked α) : Checked (List α) :=
  fillFrom f 0 size (List.replicate size d)

theorem fillFrom_eq_ok {f : Nat → Checked α} {g : Nat → α} {size remaining : Nat} {d : α}
    (used : List α) (hsize : used.length + remaining = size)
    (h : ∀ i, i < size → f i = .ok (g i)) :
    fillFrom f used.length remaining (padded size d used) =
      .ok (used ++ (List.range' used.length remaining).map g) := by
  induction remaining generalizing used with
  | zero =>
      rw [fillFrom, padded_of_length_eq hsize, List.range'_zero, List.map_nil, List.append_nil]
  | succ remaining ih =>
      have hlt : used.length < size := by omega
      have hrest := ih (used ++ [g used.length]) (by simp; omega)
      rw [List.length_append, List.length_singleton] at hrest
      rw [fillFrom, h _ hlt, ok_bind, writeAt_padded hlt, ok_bind, hrest, List.range'_succ,
        List.map_cons, List.append_assoc]
      rfl

theorem fill_eq_ok {f : Nat → Checked α} {g : Nat → α} {size : Nat} (d : α)
    (h : ∀ i, i < size → f i = .ok (g i)) : fill size d f = .ok ((List.range size).map g) := by
  have hfill := fillFrom_eq_ok (d := d) [] (Nat.zero_add size) h
  rw [padded_nil, List.length_nil, List.nil_append, ← List.range_eq_range'] at hfill
  exact hfill

/-- A loop over the values of an array that gives up with `none`. -/
def collect (f : α → Checked (Option β)) : List α → Checked (Option (List β))
  | [] => .ok (some [])
  | x :: xs => do
      match ← f x with
      | none => return none
      | some y =>
          match ← collect f xs with
          | none => return none
          | some ys => return some (y :: ys)

theorem collect_eq_ok {f : α → Checked (Option β)} {g : α → Option β} {l : List α}
    (h : ∀ x ∈ l, f x = .ok (g x)) : collect f l = .ok (l.mapM g) := by
  induction l with
  | nil => rfl
  | cons x xs ih =>
      rw [List.forall_mem_cons] at h
      rw [collect, h.1, ok_bind, ih h.2, List.mapM_cons]
      cases hx : g x with
      | none => rfl
      | some y => cases xs.mapM g <;> rfl

/-- A validation loop that stops at the first entry to be refused. -/
def checkAll {ε : Type} (f : α → Checked (Except ε β)) : List α → Checked (Except ε (List β))
  | [] => .ok (.ok [])
  | x :: xs => do
      match ← f x with
      | .error error => return .error error
      | .ok y =>
          match ← checkAll f xs with
          | .error error => return .error error
          | .ok ys => return .ok (y :: ys)

theorem checkAll_eq_ok {ε : Type} {f : α → Checked (Except ε β)} {g : α → Except ε β}
    {l : List α} (h : ∀ x ∈ l, f x = .ok (g x)) : checkAll f l = .ok (l.mapM g) := by
  induction l with
  | nil => rfl
  | cons x xs ih =>
      rw [List.forall_mem_cons] at h
      rw [checkAll, h.1, ok_bind, ih h.2, List.mapM_cons]
      cases hx : g x with
      | error error => rfl
      | ok y => cases xs.mapM g <;> rfl

end Loops

section Sorting

instance {lt : α → α → Bool} {l : List α} : Decidable (StrictWeakOn lt l) :=
  decidable_of_iff
    ((∀ a ∈ l, lt a a = false) ∧
      (∀ a ∈ l, ∀ b ∈ l, ∀ c ∈ l, lt a b = true → lt b c = true → lt a c = true) ∧
        ∀ a ∈ l, ∀ b ∈ l, ∀ c ∈ l,
          lt a b = false → lt b a = false → lt b c = false → lt c b = false → lt a c = false)
    ⟨fun h => ⟨h.1, h.2.1, h.2.2⟩, fun h => ⟨h.irrefl, h.trans, h.incomparableTrans⟩⟩

/-- A sort that first tries every comparison of two values of the array, and whether
the comparator orders them. -/
def sortBy (sorter : Sorter) (lt : α → α → Checked Bool) (l : List α) : Checked (List α) := do
  let _ ← l.mapM fun a => l.mapM fun b => lt a b
  let compare a b := (lt a b).toOption.getD false
  if StrictWeakOn compare l then return sorter.sort compare l else .error .unorderedSort

theorem mapM_eq_ok {f : α → Checked β} {g : α → β} {l : List α}
    (h : ∀ x ∈ l, f x = .ok (g x)) : l.mapM f = .ok (l.map g) := by
  induction l with
  | nil => rfl
  | cons x xs ih =>
      rw [List.forall_mem_cons] at h
      rw [List.mapM_cons, h.1, ok_bind, ih h.2]
      rfl

variable {κ : Type} [LinearOrder κ]

/-- A comparator that goes by a key orders any array. -/
theorem sortBy_byKey (sorter : Sorter) (key : α → κ) (l : List α) :
    sortBy sorter (fun a b => .ok (byKey key a b)) l = .ok (sorter.sort (byKey key) l) := by
  rw [sortBy, mapM_eq_ok fun a _ => mapM_eq_ok fun b _ => rfl, ok_bind]
  exact if_pos (strictWeakOn_byKey key l)

/-- Where the key tells the values of the array apart, nothing depends on how the
comparator treats other values. -/
theorem sortBy_eq_ok (sorter : Sorter) {lt : α → α → Checked Bool} {pure : α → α → Bool}
    (key : α → κ) {l : List α} (hlt : ∀ a ∈ l, ∀ b ∈ l, lt a b = .ok (pure a b))
    (hkey : ∀ a ∈ l, ∀ b ∈ l, pure a b = byKey key a b)
    (hinj : ∀ a ∈ l, ∀ b ∈ l, key a = key b → a = b) :
    sortBy sorter lt l = .ok (sorter.sort pure l) := by
  have hcompare : ∀ a ∈ l, ∀ b ∈ l, (lt a b).toOption.getD false = byKey key a b := by
    intro a ha b hb
    rw [hlt a ha b hb, ← hkey a ha b hb]
    rfl
  have hsort : sorter.sort (fun a b => (lt a b).toOption.getD false) l = sorter.sort pure l := by
    have hperm := sorter.perm_of_byKey key hcompare
    apply eq_of_perm_of_ascending (hperm.trans (sorter.perm_of_byKey key hkey).symm)
      (sorter.ascending_of_byKey key hcompare) (sorter.ascending_of_byKey key hkey)
    intro a ha b hb
    exact hinj a (hperm.mem_iff.mp ha) b (hperm.mem_iff.mp hb)
  rw [sortBy, mapM_eq_ok fun a ha => mapM_eq_ok (hlt a ha), ok_bind,
    if_pos (strictWeakOn_of_byKey key hcompare), hsort]
  rfl

/-- A sort of the first `count` entries, which have to be entries of the array. -/
def sortPrefix (sorter : Sorter) (lt : α → α → Checked Bool) (count : Nat) (l : List α) :
    Checked (List α) := do
  if count ≤ l.length then
    let sorted ← sortBy sorter lt (l.take count)
    return sorted ++ l.drop count
  else .error .outOfRange

theorem sortPrefix_byKey (sorter : Sorter) (key : α → κ) {count : Nat} {l : List α}
    (h : count ≤ l.length) :
    sortPrefix sorter (fun a b => .ok (byKey key a b)) count l =
      .ok (sorter.sort (byKey key) (l.take count) ++ l.drop count) := by
  rw [sortPrefix, if_pos h, sortBy_byKey, ok_bind]
  rfl

end Sorting

end GrevirPeripherals.CheckedExecution
