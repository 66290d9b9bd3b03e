import Mathlib.Data.List.Forall2
import Mathlib.Data.List.GetD

/-!
Validation loops that go through an array once and stop at the first offender.
-/

namespace GrevirPeripherals.OrderedChecks

variable {α β ε : Type}

/-- Validation of an arranged list from left to right. -/
def checkInOrder (check : List α → α → Except ε Unit) (placed : List α) :
    List α → Except ε (List α)
  | [] => .ok placed
  | x :: xs =>
      match check placed x with
      | .error error => .error error
      | .ok () => checkInOrder check (placed ++ [x]) xs

theorem checkInOrder_eq_ok_iff (check : List α → α → Except ε Unit) (placed l r : List α) :
    checkInOrder check placed l = .ok r ↔
      r = placed ++ l ∧ ∀ a x b, l = a ++ x :: b → check (placed ++ a) x = .ok () := by
  induction l generalizing placed with
  | nil => simp [checkInOrder, eq_comm]
  | cons y ys ih =>
      rw [checkInOrder]
      cases hy : check placed y with
      | error error =>
          simp only [reduceCtorEq, false_iff, not_and]
          intro _ hall
          have := hall [] y ys rfl
          simp [hy] at this
      | ok _ =>
          rw [ih]
          simp only [List.append_assoc, List.singleton_append]
          constructor
          · rintro ⟨hr, hall⟩
            refine ⟨hr, ?_⟩
            intro a x b hsplit
            cases a with
            | nil =>
                obtain ⟨rfl, rfl⟩ := List.cons.inj hsplit
                simpa using hy
            | cons z a =>
                obtain ⟨rfl, htail⟩ := List.cons.inj hsplit
                exact hall a x b htail
          · rintro ⟨hr, hall⟩
            refine ⟨hr, ?_⟩
            intro a x b hsplit
            exact hall (y :: a) x b (by rw [hsplit, List.cons_append])

/-- The error is the one of the first value, in final order, that fails. -/
theorem checkInOrder_eq_error_iff (check : List α → α → Except ε Unit) (placed l : List α)
    (error : ε) :
    checkInOrder check placed l = .error error ↔
      ∃ a x b, l = a ++ x :: b ∧ check (placed ++ a) x = .error error ∧
        ∀ a' x' b', a = a' ++ x' :: b' → check (placed ++ a') x' = .ok () := by
  induction l generalizing placed with
  | nil => simp [checkInOrder]
  | cons y ys ih =>
      rw [checkInOrder]
      cases hy : check placed y with
      | error error' =>
          simp only [Except.error.injEq]
          constructor
          · rintro rfl
            exact ⟨[], y, ys, rfl, by simpa using hy, by simp⟩
          · rintro ⟨a, x, b, hsplit, herror, hok⟩
            cases a with
            | nil =>
                obtain ⟨rfl, rfl⟩ := List.cons.inj hsplit
                simpa [hy] using herror
            | cons z a =>
                obtain ⟨rfl, hsplit⟩ := List.cons.inj hsplit
                have := hok [] y a rfl
                simp [hy] at this
      | ok _ =>
          rw [ih]
          simp only [List.append_assoc, List.singleton_append]
          constructor
          · rintro ⟨a, x, b, rfl, herror, hok⟩
            refine ⟨y :: a, x, b, rfl, herror, ?_⟩
            intro a' x' b' hsplit
            cases a' with
            | nil =>
                obtain ⟨rfl, rfl⟩ := List.cons.inj hsplit
                simpa using hy
            | cons z a' =>
                obtain ⟨rfl, htail⟩ := List.cons.inj hsplit
                exact hok a' x' b' htail
          · rintro ⟨a, x, b, hsplit, herror, hok⟩
            cases a with
            | nil =>
                obtain ⟨rfl, rfl⟩ := List.cons.inj hsplit
                simp [hy] at herror
            | cons z a =>
                obtain ⟨rfl, htail⟩ := List.cons.inj hsplit
                refine ⟨a, x, b, htail, herror, ?_⟩
                intro a' x' b' hsplit'
                exact hok (y :: a') x' b' (by rw [hsplit', List.cons_append])

/-- The loop in which every value passes a check of its own and is then compared
with each of its predecessors. -/
def checkEach (own : α → Bool) (clash : α → α → Bool) (placed : List α) : List α → Bool
  | [] => true
  | x :: xs =>
      own x && !placed.any (clash x) && checkEach own clash (placed ++ [x]) xs

theorem checkEach_placed_iff (own : α → Bool) (clash : α → α → Bool) (placed l : List α) :
    checkEach own clash placed l = true ↔
      (∀ x ∈ l, own x = true) ∧ (∀ y ∈ placed, ∀ x ∈ l, clash x y = false) ∧
        l.Pairwise fun y x => clash x y = false := by
  induction l generalizing placed with
  | nil => simp [checkEach]
  | cons x xs ih =>
      rw [checkEach, Bool.and_eq_true, Bool.and_eq_true, ih, Bool.not_eq_true',
        List.any_eq_false, List.pairwise_cons]
      simp only [List.forall_mem_cons, List.mem_append, List.mem_singleton, Bool.not_eq_true]
      constructor
      · rintro ⟨⟨hown, hplaced⟩, hrest, hclash, hpairwise⟩
        refine ⟨⟨hown, hrest⟩, ?_, fun y hy => hclash x (Or.inr rfl) y hy, hpairwise⟩
        intro y hy
        exact ⟨hplaced y hy, hclash y (Or.inl hy)⟩
      · rintro ⟨⟨hown, hrest⟩, hplaced, hx, hpairwise⟩
        refine ⟨⟨hown, fun y hy => (hplaced y hy).1⟩, hrest, ?_, hpairwise⟩
        rintro y (hy | rfl)
        · exact (hplaced y hy).2
        · exact hx

theorem checkEach_iff (own : α → Bool) (clash : α → α → Bool) (l : List α) :
    checkEach own clash [] l = true ↔
      (∀ x ∈ l, own x = true) ∧ l.Pairwise fun y x => clash x y = false := by
  simp [checkEach_placed_iff]

theorem mapM_eq_ok_iff (f : α → Except ε β) (l : List α) (r : List β) :
    l.mapM f = .ok r ↔ List.Forall₂ (fun x y => f x = .ok y) l r := by
  induction l generalizing r with
  | nil => simp [pure, Except.pure, eq_comm]
  | cons x xs ih =>
      rw [List.mapM_cons, List.forall₂_cons_left_iff]
      cases hx : f x with
      | error error => simp [bind, Except.bind]
      | ok y =>
          cases hxs : xs.mapM f with
          | error error =>
              rw [hxs] at ih
              simp only [bind, Except.bind, reduceCtorEq, false_iff, Except.ok.injEq]
              rintro ⟨_, ys, _, hys, _⟩
              exact nomatch (ih ys).mpr hys
          | ok ys =>
              rw [hxs] at ih
              simp only [bind, Except.bind, pure, Except.pure, Except.ok.injEq] at ih ⊢
              constructor
              · rintro rfl
                exact ⟨y, ys, rfl, (ih ys).mp rfl, rfl⟩
              · rintro ⟨_, ys', rfl, hys', rfl⟩
                rw [(ih ys').mpr hys']

/-- A failing traversal reports the failure of the first value that fails. -/
theorem mapM_eq_error_iff (f : α → Except ε β) (l : List α) (error : ε) :
    l.mapM f = .error error ↔
      ∃ a x b, l = a ++ x :: b ∧ f x = .error error ∧ ∀ x' ∈ a, ∃ y, f x' = .ok y := by
  induction l with
  | nil => simp [pure, Except.pure]
  | cons x xs ih =>
      rw [List.mapM_cons]
      cases hx : f x with
      | error error' =>
          simp only [bind, Except.bind, Except.error.injEq]
          constructor
          · rintro rfl
            exact ⟨[], x, xs, rfl, hx, by simp⟩
          · rintro ⟨a, x', b, hsplit, herror, hok⟩
            cases a with
            | nil =>
                obtain ⟨rfl, rfl⟩ := List.cons.inj hsplit
                simpa [hx] using herror
            | cons z a =>
                obtain ⟨rfl, hsplit⟩ := List.cons.inj hsplit
                obtain ⟨y, hy⟩ := hok x (by simp)
                simp [hx] at hy
      | ok y =>
          have hhead : (do
                let bs ← xs.mapM f
                pure (y :: bs) : Except ε (List β)) = .error error ↔
              xs.mapM f = .error error := by
            cases xs.mapM f <;> simp [bind, Except.bind, pure, Except.pure]
          change (do
                let bs ← xs.mapM f
                pure (y :: bs) : Except ε (List β)) = .error error ↔ _
          rw [hhead, ih]
          constructor
          · rintro ⟨a, x', b, rfl, herror, hok⟩
            refine ⟨x :: a, x', b, rfl, herror, ?_⟩
            rw [List.forall_mem_cons]
            exact ⟨⟨y, hx⟩, hok⟩
          · rintro ⟨a, x', b, hsplit, herror, hok⟩
            cases a with
            | nil =>
                obtain ⟨rfl, rfl⟩ := List.cons.inj hsplit
                simp [hx] at herror
            | cons z a =>
                obtain ⟨rfl, htail⟩ := List.cons.inj hsplit
                exact ⟨a, x', b, htail, herror, fun x' hx' => hok x' (by simp [hx'])⟩

theorem bind_eq_ok_iff {x : Except ε α} {f : α → Except ε β} {b : β} :
    x >>= f = .ok b ↔ ∃ a, x = .ok a ∧ f a = .ok b := by
  cases x <;> simp [bind, Except.bind]

theorem bind_eq_error_iff {x : Except ε α} {f : α → Except ε β} {error : ε} :
    x >>= f = .error error ↔ x = .error error ∨ ∃ a, x = .ok a ∧ f a = .error error := by
  cases x <;> simp [bind, Except.bind]

/-- A traversal that only checks succeeds when every check does. -/
theorem mapM_check_iff (check : α → Except ε Unit) (l : List α) :
    (∃ r, l.mapM check = .ok r) ↔ ∀ x ∈ l, check x = .ok () := by
  constructor
  · rintro ⟨r, h⟩ x hx
    obtain ⟨i, hi, rfl⟩ := List.getElem_of_mem hx
    rw [mapM_eq_ok_iff, List.forall₂_iff_get] at h
    exact h.2 i hi (h.1 ▸ hi)
  · intro h
    cases hmap : l.mapM check with
    | ok r => exact ⟨r, rfl⟩
    | error error =>
        obtain ⟨a, x, b, rfl, herror, -⟩ := (mapM_eq_error_iff check l error).mp hmap
        rw [h x (by simp)] at herror
        contradiction

/-- Normalising an array entry by entry, when an entry is accepted under `P` and
then replaced through `g`. -/
theorem mapM_eq_some_iff {f : α → Option β} {P : α → Prop} {g : α → β}
    (h : ∀ x y, f x = some y ↔ P x ∧ y = g x) (l : List α) (r : List β) :
    l.mapM f = some r ↔ (∀ x ∈ l, P x) ∧ r = l.map g := by
  induction l generalizing r with
  | nil => simp [eq_comm]
  | cons x xs ih =>
      rw [List.mapM_cons, List.forall_mem_cons, List.map_cons]
      cases hx : f x with
      | none =>
          simp only [Option.bind_eq_bind, Option.bind_none, reduceCtorEq, false_iff]
          rintro ⟨⟨hP, -⟩, -⟩
          rw [(h x (g x)).mpr ⟨hP, rfl⟩] at hx
          contradiction
      | some y =>
          obtain ⟨hP, rfl⟩ := (h x y).mp hx
          simp only [Option.bind_eq_bind, Option.bind_some, Option.bind_eq_some_iff, ih,
            Option.pure_def, Option.some.injEq]
          constructor
          · rintro ⟨ys, ⟨hxs, rfl⟩, rfl⟩
            exact ⟨⟨hP, hxs⟩, rfl⟩
          · rintro ⟨⟨-, hxs⟩, rfl⟩
            exact ⟨_, ⟨hxs, rfl⟩, rfl⟩

theorem mapM_range_eq_ok_iff [Inhabited β] (f : Nat → Except ε β) (n : Nat) (r : List β) :
    (List.range n).mapM f = .ok r ↔
      r.length = n ∧ ∀ u, u < n → f u = .ok (r.getD u default) := by
  rw [mapM_eq_ok_iff, List.forall₂_iff_get]
  simp only [List.length_range, List.get_eq_getElem, List.getElem_range]
  constructor
  · rintro ⟨hlength, hall⟩
    refine ⟨hlength.symm, ?_⟩
    intro u hu
    rw [List.getD_eq_getElem _ _ (hlength ▸ hu)]
    exact hall u hu (hlength ▸ hu)
  · rintro ⟨hlength, hall⟩
    refine ⟨hlength.symm, ?_⟩
    intro u hu hu'
    rw [hall u hu, List.getD_eq_getElem _ _ hu']

theorem mapM_range_eq_error_iff (f : Nat → Except ε β) (n : Nat) (error : ε) :
    (List.range n).mapM f = .error error ↔
      ∃ u, u < n ∧ f u = .error error ∧ ∀ v, v < u → ∃ y, f v = .ok y := by
  rw [mapM_eq_error_iff]
  constructor
  · rintro ⟨a, u, b, hsplit, herror, hok⟩
    have hlength : a.length < n := by
      have := congrArg List.length hsplit
      simp only [List.length_range, List.length_append, List.length_cons] at this
      omega
    have hu : u = a.length := by
      have := congrArg (fun l => l[a.length]?) hsplit
      simpa [hlength, eq_comm] using this
    have ha : a = List.range a.length := by
      have := congrArg (List.take a.length) hsplit
      rw [List.take_range, Nat.min_eq_left (Nat.le_of_lt hlength)] at this
      simpa using this.symm
    subst hu
    refine ⟨a.length, hlength, herror, ?_⟩
    intro v hv
    apply hok v
    rw [ha, List.mem_range]
    exact hv
  · rintro ⟨u, hu, herror, hok⟩
    have hsplit : List.range n = List.range u ++ u :: (List.range n).drop (u + 1) := by
      calc List.range n = (List.range n).take u ++ (List.range n).drop u :=
            (List.take_append_drop u _).symm
        _ = List.range u ++ u :: (List.range n).drop (u + 1) := by
            rw [List.take_range, Nat.min_eq_left (Nat.le_of_lt hu),
              List.drop_eq_getElem_cons (by simpa using hu), List.getElem_range]
    refine ⟨_, u, _, hsplit, herror, ?_⟩
    intro v hv
    exact hok v (List.mem_range.mp hv)

end GrevirPeripherals.OrderedChecks
