import Mathlib.Data.List.Forall2
import Mathlib.Data.List.Lex

/-!
Depth-first search for one column per row, pairwise admitted by a predicate,
under a limit on the number of columns visited. The limited search is compared
with an unlimited one that also counts its visits.
-/

namespace GrevirPeripherals.BacktrackingSearch

variable {α : Type} (admits : α → α → Bool)

/-- One column for each row, every pair admitted in row order, all of them
admitted by the columns chosen before. -/
structure IsSelection (rows : List (List α)) (chosen selection : List α) : Prop where
  mem : List.Forall₂ (fun column row => column ∈ row) selection rows
  cross : ∀ a ∈ chosen, ∀ b ∈ selection, admits a b = true
  pairwise : selection.Pairwise fun a b => admits a b = true

theorem isSelection_nil_iff {chosen selection : List α} :
    IsSelection admits [] chosen selection ↔ selection = [] := by
  constructor
  · intro h
    simpa using h.mem
  · rintro rfl
    exact ⟨List.Forall₂.nil, by simp, List.Pairwise.nil⟩

theorem isSelection_cons_iff {row : List α} {rows : List (List α)} {chosen selection : List α} :
    IsSelection admits (row :: rows) chosen selection ↔
      ∃ column tail, selection = column :: tail ∧ column ∈ row ∧
        chosen.all (admits · column) = true ∧
          IsSelection admits rows (chosen ++ [column]) tail := by
  constructor
  · rintro ⟨hmem, hcross, hpairwise⟩
    obtain ⟨column, tail, hcolumn, htail, rfl⟩ := List.forall₂_cons_right_iff.mp hmem
    rw [List.pairwise_cons] at hpairwise
    refine ⟨column, tail, rfl, hcolumn, ?_, htail, ?_, hpairwise.2⟩
    · rw [List.all_eq_true]
      intro a ha
      exact hcross a ha column (by simp)
    · intro a ha b hb
      rcases List.mem_append.mp ha with ha | ha
      · exact hcross a ha b (by simp [hb])
      · rw [List.mem_singleton.mp ha]
        exact hpairwise.1 b hb
  · rintro ⟨column, tail, rfl, hcolumn, hchosen, hmem, hcross, hpairwise⟩
    rw [List.all_eq_true] at hchosen
    refine ⟨List.Forall₂.cons hcolumn hmem, ?_, ?_⟩
    · intro a ha b hb
      rcases List.mem_cons.mp hb with rfl | hb
      · exact hchosen a ha
      · exact hcross a (by simp [ha]) b hb
    · rw [List.pairwise_cons]
      exact ⟨fun b hb => hcross column (by simp) b hb, hpairwise⟩

/-- Try the columns of one row in order. `next` completes the later rows; with
the selection it found, or without one, it says how many columns it visited. -/
def exploreColumns (chosen : List α) (next : α → Option (List α) × Nat) :
    List α → Option (List α) × Nat
  | [] => (none, 0)
  | column :: columns =>
      let others := exploreColumns chosen next columns
      if chosen.all (admits · column) then
        match (next column).1 with
        | some tail => (some (column :: tail), (next column).2 + 1)
        | none => (others.1, (next column).2 + others.2 + 1)
      else (others.1, others.2 + 1)

/-- The unlimited search. -/
def explore : List (List α) → List α → Option (List α) × Nat
  | [], _ => (some [], 0)
  | row :: rows, chosen =>
      exploreColumns admits chosen (fun column => explore rows (chosen ++ [column])) row

inductive Outcome (α : Type) where
  | found (selection : List α)
  | failed
  | exhausted
deriving DecidableEq

/-- The limited search of one row, with the running number of visits. -/
def searchColumns (budget : Nat) (chosen : List α) (next : α → Nat → Outcome α × Nat) :
    List α → Nat → Outcome α × Nat
  | [], visited => (.failed, visited)
  | column :: columns, visited =>
      if visited = budget then (.exhausted, visited)
      else if chosen.all (admits · column) then
        match next column (visited + 1) with
        | (.failed, visited') => searchColumns budget chosen next columns visited'
        | outcome => outcome
      else searchColumns budget chosen next columns (visited + 1)

/-- The limited search. -/
def search (budget : Nat) : List (List α) → List α → Nat → Outcome α × Nat
  | [], chosen, visited => (.found chosen, visited)
  | row :: rows, chosen, visited =>
      searchColumns admits budget chosen
        (fun column visited => search budget rows (chosen ++ [column]) visited) row visited

/-- The answer of a limited search that needs `cost` more visits. -/
def limited (budget visited cost : Nat) (chosen : List α) (answer : Option (List α)) :
    Outcome α × Nat :=
  if visited + cost ≤ budget then
    (match answer with
      | some selection => .found (chosen ++ selection)
      | none => .failed, visited + cost)
  else (.exhausted, budget)

theorem searchColumns_eq (budget : Nat) (chosen : List α)
    (next : α → Nat → Outcome α × Nat) (answer : α → Option (List α) × Nat)
    (hnext : ∀ column visited, visited ≤ budget →
      next column visited =
        limited budget visited (answer column).2 (chosen ++ [column]) (answer column).1)
    (row : List α) (visited : Nat) (hvisited : visited ≤ budget) :
    searchColumns admits budget chosen next row visited =
      limited budget visited (exploreColumns admits chosen answer row).2 chosen
        (exploreColumns admits chosen answer row).1 := by
  induction row generalizing visited with
  | nil => simp [searchColumns, exploreColumns, limited, hvisited]
  | cons column columns ih =>
      rw [searchColumns, exploreColumns]
      by_cases hlimit : visited = budget
      · -- Every remaining column costs at least one visit.
        subst hlimit
        simp only [if_true, limited]
        split
        · split <;> simp
        · simp
      · have hlt : visited + 1 ≤ budget := by omega
        simp only [hlimit, if_false]
        split
        · rw [hnext column (visited + 1) hlt]
          cases hanswer : (answer column).1 with
          | some tail =>
              simp only [limited]
              rw [show visited + ((answer column).2 + 1) = visited + 1 + (answer column).2 by omega]
              by_cases hcost : visited + 1 + (answer column).2 ≤ budget <;> simp [hcost]
          | none =>
              by_cases hcost : visited + 1 + (answer column).2 ≤ budget
              · simp only [limited, hcost, if_true]
                rw [ih _ hcost]
                simp only [limited]
                rw [show visited + 1 + (answer column).2 +
                    (exploreColumns admits chosen answer columns).2 =
                  visited + ((answer column).2 +
                    (exploreColumns admits chosen answer columns).2 + 1) by omega]
              · have hall : ¬visited + ((answer column).2 +
                    (exploreColumns admits chosen answer columns).2 + 1) ≤ budget := by omega
                simp [limited, hcost, hall]
        · rw [ih _ hlt]
          simp only [limited]
          rw [show visited + 1 + (exploreColumns admits chosen answer columns).2 =
            visited + ((exploreColumns admits chosen answer columns).2 + 1) by omega]

/-- The limit cuts the search off exactly when the unlimited one needs more visits. -/
theorem search_eq (budget : Nat) (rows : List (List α)) (chosen : List α) (visited : Nat)
    (hvisited : visited ≤ budget) :
    search admits budget rows chosen visited =
      limited budget visited (explore admits rows chosen).2 chosen
        (explore admits rows chosen).1 := by
  induction rows generalizing chosen visited with
  | nil => simp [search, explore, limited, hvisited]
  | cons row rows ih =>
      rw [search, explore]
      apply searchColumns_eq
      · intro column visited hvisited
        exact ih (chosen ++ [column]) visited hvisited
      · exact hvisited

theorem exploreColumns_sound (chosen : List α) (next : α → Option (List α) × Nat)
    (row selection : List α) (h : (exploreColumns admits chosen next row).1 = some selection) :
    ∃ column tail, selection = column :: tail ∧ column ∈ row ∧
      chosen.all (admits · column) = true ∧ (next column).1 = some tail := by
  induction row with
  | nil => simp [exploreColumns] at h
  | cons column columns ih =>
      rw [exploreColumns] at h
      have hothers : (exploreColumns admits chosen next columns).1 = some selection →
          ∃ column' tail, selection = column' :: tail ∧ column' ∈ column :: columns ∧
            chosen.all (admits · column') = true ∧ (next column').1 = some tail := by
        intro h'
        obtain ⟨column', tail, hsel, hmem, hrest⟩ := ih h'
        exact ⟨column', tail, hsel, List.mem_cons_of_mem column hmem, hrest⟩
      split at h
      next hadmits =>
        split at h
        next tail htail =>
          rw [Option.some.injEq] at h
          exact ⟨column, tail, h.symm, by simp, hadmits, htail⟩
        next => exact hothers h
      next => exact hothers h

/-- What the unlimited search finds is a selection. -/
theorem explore_sound {rows : List (List α)} {chosen selection : List α}
    (h : (explore admits rows chosen).1 = some selection) :
    IsSelection admits rows chosen selection := by
  induction rows generalizing chosen selection with
  | nil =>
      rw [isSelection_nil_iff]
      simpa [explore, eq_comm] using h
  | cons row rows ih =>
      rw [explore] at h
      obtain ⟨column, tail, hsel, hmem, hadmits, hnext⟩ := exploreColumns_sound admits _ _ _ _ h
      exact (isSelection_cons_iff admits).mpr ⟨column, tail, hsel, hmem, hadmits, ih hnext⟩

theorem exploreColumns_least (lt : α → α → Prop) (chosen : List α)
    (next : α → Option (List α) × Nat) (row selection : List α)
    (hrow : row.Pairwise lt)
    (h : (exploreColumns admits chosen next row).1 = some selection)
    {column : α} (hcolumn : column ∈ row) (hadmits : chosen.all (admits · column) = true) :
    (∃ tail, selection = column :: tail ∧ (next column).1 = some tail) ∨
      (∃ column' tail, selection = column' :: tail ∧ lt column' column) ∨
        (next column).1 = none := by
  induction row with
  | nil => simp at hcolumn
  | cons first columns ih =>
      rw [List.pairwise_cons] at hrow
      obtain ⟨hfirst, hcolumns⟩ := hrow
      rw [exploreColumns] at h
      rcases List.mem_cons.mp hcolumn with rfl | hlater
      · rw [if_pos hadmits] at h
        split at h
        next tail htail =>
          rw [Option.some.injEq] at h
          exact Or.inl ⟨tail, h.symm, htail⟩
        next hnone => exact Or.inr (Or.inr hnone)
      · split at h
        next =>
          split at h
          next tail htail =>
            rw [Option.some.injEq] at h
            exact Or.inr (Or.inl ⟨first, tail, h.symm, hfirst column hlater⟩)
          next => exact ih hcolumns h hlater
        next => exact ih hcolumns h hlater

theorem exploreColumns_complete (chosen : List α) (next : α → Option (List α) × Nat)
    (row : List α) (h : (exploreColumns admits chosen next row).1 = none)
    {column : α} (hcolumn : column ∈ row) (hadmits : chosen.all (admits · column) = true) :
    (next column).1 = none := by
  induction row with
  | nil => simp at hcolumn
  | cons first columns ih =>
      rw [exploreColumns] at h
      rcases List.mem_cons.mp hcolumn with rfl | hlater
      · rw [if_pos hadmits] at h
        split at h
        next => simp at h
        next hnone => exact hnone
      · split at h
        next =>
          split at h
          next => simp at h
          next => exact ih h hlater
        next => exact ih h hlater

/-- A search that ends without an answer has refuted every selection. -/
theorem explore_complete {rows : List (List α)} {chosen : List α}
    (h : (explore admits rows chosen).1 = none) (selection : List α) :
    ¬IsSelection admits rows chosen selection := by
  induction rows generalizing chosen selection with
  | nil => simp [explore] at h
  | cons row rows ih =>
      rw [isSelection_cons_iff]
      rintro ⟨column, tail, -, hcolumn, hadmits, htail⟩
      rw [explore] at h
      exact ih (exploreColumns_complete admits _ _ _ h hcolumn hadmits) tail htail

theorem explore_isSome_iff (rows : List (List α)) (chosen : List α) :
    (explore admits rows chosen).1.isSome ↔
      ∃ selection, IsSelection admits rows chosen selection := by
  constructor
  · intro h
    obtain ⟨selection, hsel⟩ := Option.isSome_iff_exists.mp h
    exact ⟨selection, explore_sound admits hsel⟩
  · rintro ⟨selection, hsel⟩
    cases hanswer : (explore admits rows chosen).1 with
    | some _ => rfl
    | none => exact absurd hsel (explore_complete admits hanswer selection)

/-- With every row in ascending order the answer comes first among all selections. -/
theorem explore_least (lt : α → α → Prop) {rows : List (List α)} {chosen selection : List α}
    (hrows : ∀ row ∈ rows, row.Pairwise lt)
    (h : (explore admits rows chosen).1 = some selection) {other : List α}
    (hother : IsSelection admits rows chosen other) :
    selection = other ∨ List.Lex lt selection other := by
  induction rows generalizing chosen selection other with
  | nil =>
      rw [isSelection_nil_iff] at hother
      have hselection := explore_sound admits h
      rw [isSelection_nil_iff] at hselection
      exact Or.inl (hselection.trans hother.symm)
  | cons row rows ih =>
      obtain ⟨column, tail, rfl, hcolumn, hadmits, htail⟩ :=
        (isSelection_cons_iff admits).mp hother
      rw [explore] at h
      have hrow : row.Pairwise lt := hrows row (by simp)
      rcases exploreColumns_least admits lt _ _ _ _ hrow h hcolumn hadmits with
        ⟨tail', rfl, hnext⟩ | ⟨column', tail', rfl, hlt⟩ | hnone
      · rcases ih (fun row hrow => hrows row (by simp [hrow])) hnext htail with rfl | hlex
        · exact Or.inl rfl
        · exact Or.inr (List.Lex.cons hlex)
      · exact Or.inr (List.Lex.rel hlt)
      · exact absurd htail (explore_complete admits hnone tail)

section Congruence

variable {admits} {admits' : α → α → Bool}

theorem exploreColumns_congr {chosen columns : List α} {next next' : α → Option (List α) × Nat}
    (hadmits : ∀ a ∈ chosen, ∀ b ∈ columns, admits a b = admits' a b)
    (hnext : ∀ b ∈ columns, next b = next' b) :
    exploreColumns admits chosen next columns = exploreColumns admits' chosen next' columns := by
  induction columns with
  | nil => rfl
  | cons column columns ih =>
      rw [List.forall_mem_cons] at hnext
      have hall : chosen.all (admits · column) = chosen.all (admits' · column) := by
        rw [Bool.eq_iff_iff, List.all_eq_true, List.all_eq_true]
        exact forall₂_congr fun a ha => by rw [hadmits a ha column List.mem_cons_self]
      have hothers := ih (fun a ha b hb => hadmits a ha b (List.mem_cons_of_mem _ hb)) hnext.2
      rw [exploreColumns, exploreColumns, hall, hothers, hnext.1]

/-- The search asks about the values in its rows only. -/
theorem explore_congr {P : α → Prop} (hadmits : ∀ a b, P a → P b → admits a b = admits' a b)
    {rows : List (List α)} (hrows : ∀ row ∈ rows, ∀ b ∈ row, P b) {chosen : List α}
    (hchosen : ∀ a ∈ chosen, P a) :
    explore admits rows chosen = explore admits' rows chosen := by
  induction rows generalizing chosen with
  | nil => rfl
  | cons row rows ih =>
      rw [List.forall_mem_cons] at hrows
      rw [explore, explore]
      apply exploreColumns_congr
      · exact fun a ha b hb => hadmits a b (hchosen a ha) (hrows.1 b hb)
      · intro b hb
        apply ih hrows.2
        intro a ha
        rcases List.mem_append.mp ha with ha | ha
        · exact hchosen a ha
        · rw [List.mem_singleton.mp ha]
          exact hrows.1 b hb

end Congruence

section Pruning

variable {admits} {chosen columns pruned : List α} {next next' : α → Option (List α) × Nat}

/-- The search goes on past the column, which is not admitted or leads nowhere. -/
def Passes (admits : α → α → Bool) (chosen : List α) (next : α → Option (List α) × Nat)
    (column : α) : Prop :=
  chosen.all (admits · column) = true → (next column).1 = none

/-- The visits that passing a column takes. -/
def passCost (admits : α → α → Bool) (chosen : List α) (next : α → Option (List α) × Nat)
    (column : α) : Nat :=
  if chosen.all (admits · column) then (next column).2 + 1 else 1

theorem exploreColumns_of_passes {column : α} (h : Passes admits chosen next column) :
    exploreColumns admits chosen next (column :: columns) =
      ((exploreColumns admits chosen next columns).1,
        (exploreColumns admits chosen next columns).2 + passCost admits chosen next column) := by
  rw [exploreColumns, passCost]
  split_ifs with hadmits
  · rw [h hadmits]
    simp only [Prod.mk.injEq, true_and]
    omega
  · rfl

theorem exploreColumns_of_found {column : α} {tail : List α}
    (hadmits : chosen.all (admits · column) = true) (hnext : (next column).1 = some tail) :
    exploreColumns admits chosen next (column :: columns) =
      (some (column :: tail), (next column).2 + 1) := by
  rw [exploreColumns, if_pos hadmits, hnext]

theorem passes_or_found (column : α) :
    Passes admits chosen next column ∨
      chosen.all (admits · column) = true ∧ ∃ tail, (next column).1 = some tail := by
  cases hnext : (next column).1 with
  | none => exact Or.inl fun _ => hnext
  | some tail =>
      by_cases hadmits : chosen.all (admits · column) = true
      · exact Or.inr ⟨hadmits, tail, rfl⟩
      · exact Or.inl fun h => absurd h hadmits

/-- `next'` leads nowhere where `next` does, with no more visits. -/
def Undercuts (next' next : α → Option (List α) × Nat) : Prop :=
  ∀ column, (next column).1 = none → (next' column).1 = none ∧ (next' column).2 ≤ (next column).2

theorem Undercuts.passes (h : Undercuts next' next) {column : α}
    (hpasses : Passes admits chosen next column) :
    Passes admits chosen next' column ∧
      passCost admits chosen next' column ≤ passCost admits chosen next column := by
  refine ⟨fun hadmits => (h column (hpasses hadmits)).1, ?_⟩
  rw [passCost, passCost]
  split_ifs with hadmits
  · exact Nat.succ_le_succ (h column (hpasses hadmits)).2
  · exact Nat.le_refl _

/-- A row that fails does so without some of its columns as well, with no more visits. -/
theorem exploreColumns_none_of_sublist (hsublist : pruned.Sublist columns)
    (hnext : Undercuts next' next)
    (h : (exploreColumns admits chosen next columns).1 = none) :
    (exploreColumns admits chosen next' pruned).1 = none ∧
      (exploreColumns admits chosen next' pruned).2 ≤
        (exploreColumns admits chosen next columns).2 := by
  induction hsublist with
  | slnil => exact ⟨rfl, Nat.le_refl _⟩
  | @cons pruned columns column _ ih =>
      rcases passes_or_found column with hpasses | ⟨hadmits, tail, hfound⟩
      · rw [exploreColumns_of_passes hpasses] at h ⊢
        exact ⟨(ih h).1, (ih h).2.trans (Nat.le_add_right _ _)⟩
      · rw [exploreColumns_of_found hadmits hfound] at h
        contradiction
  | @cons_cons pruned columns column _ ih =>
      rcases passes_or_found column with hpasses | ⟨hadmits, tail, hfound⟩
      · obtain ⟨hpasses', hcost⟩ := hnext.passes hpasses
        rw [exploreColumns_of_passes hpasses] at h ⊢
        rw [exploreColumns_of_passes hpasses']
        exact ⟨(ih h).1, Nat.add_le_add (ih h).2 hcost⟩
      · rw [exploreColumns_of_found hadmits hfound] at h
        contradiction

/-- A row that succeeds does so without some of its other columns, with no more visits. -/
theorem exploreColumns_some_of_sublist (hsublist : pruned.Sublist columns)
    (hnodup : columns.Nodup) (hnext : Undercuts next' next) {column : α} {tail : List α}
    (hsome : (next column).1 = some tail →
      (next' column).1 = some tail ∧ (next' column).2 ≤ (next column).2)
    (hkept : column ∈ pruned)
    (h : (exploreColumns admits chosen next columns).1 = some (column :: tail)) :
    (exploreColumns admits chosen next' pruned).1 = some (column :: tail) ∧
      (exploreColumns admits chosen next' pruned).2 ≤
        (exploreColumns admits chosen next columns).2 := by
  induction hsublist with
  | slnil => contradiction
  | @cons pruned columns first hsublist ih =>
      rw [List.nodup_cons] at hnodup
      rcases passes_or_found first with hpasses | ⟨hadmits, tail', hfound⟩
      · rw [exploreColumns_of_passes hpasses] at h ⊢
        obtain ⟨hsame, hcost⟩ := ih hnodup.2 hkept h
        exact ⟨hsame, hcost.trans (Nat.le_add_right _ _)⟩
      · rw [exploreColumns_of_found hadmits hfound, Option.some.injEq, List.cons.injEq] at h
        exact absurd (h.1 ▸ hsublist.subset hkept) hnodup.1
  | @cons_cons pruned columns first hsublist ih =>
      rw [List.nodup_cons] at hnodup
      rcases passes_or_found first with hpasses | ⟨hadmits, tail', hfound⟩
      · obtain ⟨hpasses', hpassCost⟩ := hnext.passes hpasses
        rw [exploreColumns_of_passes hpasses] at h ⊢
        rw [exploreColumns_of_passes hpasses']
        -- The answer lies beyond the first column, so it is not that column again.
        obtain ⟨column', _, hsplit, hmem, -, -⟩ := exploreColumns_sound admits _ _ _ _ h
        obtain ⟨rfl, -⟩ := List.cons.inj hsplit
        have hkept : column ∈ pruned := (List.mem_cons.mp hkept).resolve_left
          fun heq => hnodup.1 (heq ▸ hmem)
        obtain ⟨hsame, hcost⟩ := ih hnodup.2 hkept h
        exact ⟨hsame, Nat.add_le_add hcost hpassCost⟩
      · rw [exploreColumns_of_found hadmits hfound] at h ⊢
        obtain ⟨rfl, rfl⟩ := List.cons.inj (Option.some.inj h)
        obtain ⟨hfound', hcost⟩ := hsome hfound
        rw [exploreColumns_of_found hadmits hfound']
        exact ⟨rfl, Nat.succ_le_succ hcost⟩

/-- A search that fails does so without some of the columns as well. -/
theorem explore_none_of_sublists {rows pruned : List (List α)}
    (hsublists : List.Forall₂ List.Sublist pruned rows) {chosen : List α}
    (h : (explore admits rows chosen).1 = none) :
    (explore admits pruned chosen).1 = none ∧
      (explore admits pruned chosen).2 ≤ (explore admits rows chosen).2 := by
  induction hsublists generalizing chosen with
  | nil => contradiction
  | cons hsublist _ ih => exact exploreColumns_none_of_sublist hsublist (fun _ hnone => ih hnone) h

/-- A search that succeeds finds the same selection without some of the columns that it
does not select. -/
theorem explore_some_of_sublists {rows pruned : List (List α)}
    (hsublists : List.Forall₂ List.Sublist pruned rows) (hnodup : ∀ row ∈ rows, row.Nodup)
    {chosen selection : List α}
    (hkept : List.Forall₂ (fun column row => column ∈ row) selection pruned)
    (h : (explore admits rows chosen).1 = some selection) :
    (explore admits pruned chosen).1 = some selection ∧
      (explore admits pruned chosen).2 ≤ (explore admits rows chosen).2 := by
  induction hsublists generalizing chosen selection with
  | nil => exact ⟨h, Nat.le_refl _⟩
  | cons hsublist hsublists ih =>
      rw [List.forall_mem_cons] at hnodup
      obtain ⟨column, tail, hmem, htail, rfl⟩ := List.forall₂_cons_right_iff.mp hkept
      exact exploreColumns_some_of_sublist hsublist hnodup.1
        (fun _ hnone => explore_none_of_sublists hsublists hnone)
        (fun hfound => ih hnodup.2 htail hfound) hmem h

end Pruning

end GrevirPeripherals.BacktrackingSearch
