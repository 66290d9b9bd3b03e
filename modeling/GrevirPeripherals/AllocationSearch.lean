import GrevirPeripherals.BacktrackingSearch
import Mathlib.Data.List.GetD

/-!
The column search `grevir::allocation::search` belongs to another package. The
allocators take it as a parameter of which they use only the contract below.
-/

namespace GrevirPeripherals.AllocationSearch

open GrevirPeripherals.BacktrackingSearch

structure SearchResult where
  success : Bool
  exhausted : Bool
  visited : UInt32
  selected : List Nat

/-- The entry of the eligibility table for a unit and a column. -/
def entry (eligible : List (List Bool)) (u c : Nat) : Bool :=
  (eligible.getD u []).getD c false

/-- The array an allocator fills: the rows past the last unit keep their initial value. -/
def eligibleTable (size columns : Nat) (rows : List (List Bool)) : List (List Bool) :=
  rows ++ List.replicate (size - rows.length) (List.replicate columns false)

theorem entry_eligibleTable (size columns : Nat) {rows : List (List Bool)} {u : Nat}
    (hu : u < rows.length) (c : Nat) :
    entry (eligibleTable size columns rows) u c = (rows.getD u []).getD c false := by
  rw [entry, eligibleTable, List.getD_append _ _ _ _ hu]

/-- One eligible column for each unit, such that the columns of every two units
stand in the relation. -/
structure Selects (eligible : List (List Bool)) (units : Nat) (related : Nat → Nat → Prop)
    (selected : Nat → Nat) : Prop where
  eligible : ∀ u, u < units → entry eligible u (selected u) = true
  related : ∀ u v, u < v → v < units → related (selected u) (selected v)

/-- The contract: success yields eligible columns that pairwise satisfy the
predicate, and a failure that is not an exhausted budget refutes every choice.
The order in which the predicate receives its arguments is left open. -/
structure Search where
  run : List (List Bool) → Nat → (Nat → Nat → Bool) → UInt32 → SearchResult
  sound : ∀ (eligible : List (List Bool)) (units : Nat) (admits : Nat → Nat → Bool)
    (budget : UInt32), (run eligible units admits budget).success = true →
      Selects eligible units (fun a b => admits a b = true ∨ admits b a = true)
        fun u => (run eligible units admits budget).selected.getD u 0
  complete : ∀ (eligible : List (List Bool)) (units : Nat) (admits : Nat → Nat → Bool)
    (budget : UInt32), (run eligible units admits budget).success = false →
      (run eligible units admits budget).exhausted = false → ∀ selected : Nat → Nat,
        ¬Selects eligible units (fun a b => admits a b = true ∧ admits b a = true) selected

section Symmetric

variable (search : Search) {eligible : List (List Bool)} {units : Nat}
  {admits : Nat → Nat → Bool} {budget : UInt32}

/-- For a symmetric predicate the order of its arguments does not matter. -/
theorem Search.selects_of_success (hsymm : ∀ a b, admits a b = admits b a)
    (h : (search.run eligible units admits budget).success = true) :
    Selects eligible units (fun a b => admits a b = true)
      fun u => (search.run eligible units admits budget).selected.getD u 0 := by
  obtain ⟨heligible, hrelated⟩ := search.sound eligible units admits budget h
  refine ⟨heligible, ?_⟩
  intro u v huv hv
  rcases hrelated u v huv hv with hadmits | hadmits
  · exact hadmits
  · rw [hsymm]
    exact hadmits

theorem Search.success_iff (hsymm : ∀ a b, admits a b = admits b a)
    (hexhausted : (search.run eligible units admits budget).success = false →
      (search.run eligible units admits budget).exhausted = false) :
    (search.run eligible units admits budget).success = true ↔
      ∃ selected, Selects eligible units (fun a b => admits a b = true) selected := by
  constructor
  · intro h
    exact ⟨_, search.selects_of_success hsymm h⟩
  · rintro ⟨selected, heligible, hrelated⟩
    by_contra hfailed
    rw [Bool.not_eq_true] at hfailed
    apply search.complete eligible units admits budget hfailed (hexhausted hfailed) selected
    refine ⟨heligible, ?_⟩
    intro u v huv hv
    have hadmits := hrelated u v huv hv
    exact ⟨hadmits, (hsymm _ _).symm.trans hadmits⟩

end Symmetric

section Candidates

variable {α : Type} [Inhabited α]

/-- The table marks, for every unit, one column at least of each candidate the
unit admits, and no column of any other. -/
structure Tabulates (candidates : List α) (admissible : Nat → α → Prop) (units : Nat)
    (eligible : List (List Bool)) : Prop where
  sound : ∀ u, u < units → ∀ c, entry eligible u c = true →
    c < candidates.length ∧ admissible u (candidates.getD c default)
  complete : ∀ u, u < units → ∀ x ∈ candidates, admissible u x →
    ∃ c, candidates.getD c default = x ∧ entry eligible u c = true

/-- One admitted candidate for each unit, every two of them compatible. -/
structure Serves (candidates : List α) (admissible : Nat → α → Prop) (compatible : α → α → Prop)
    (units : Nat) (choice : Nat → α) : Prop where
  mem : ∀ u, u < units → choice u ∈ candidates
  admissible : ∀ u, u < units → admissible u (choice u)
  compatible : ∀ u v, u < v → v < units → compatible (choice u) (choice v)

variable (search : Search) {candidates : List α} {admissible : Nat → α → Prop}
  {compatible : α → α → Bool} {units : Nat} {eligible : List (List Bool)} {budget : UInt32}

/-- The predicate on columns that compares the candidates in them. -/
def admitsColumns (candidates : List α) (compatible : α → α → Bool) (a b : Nat) : Bool :=
  compatible (candidates.getD a default) (candidates.getD b default)

theorem admitsColumns_comm (hsymm : ∀ a b, compatible a b = compatible b a) (a b : Nat) :
    admitsColumns candidates compatible a b = admitsColumns candidates compatible b a :=
  hsymm _ _

theorem Search.serves_of_success (htable : Tabulates candidates admissible units eligible)
    (hsymm : ∀ a b, compatible a b = compatible b a)
    (h : (search.run eligible units (admitsColumns candidates compatible) budget).success =
      true) :
    Serves candidates admissible (fun a b => compatible a b = true) units fun u =>
      candidates.getD ((search.run eligible units (admitsColumns candidates compatible)
        budget).selected.getD u 0) default := by
  obtain ⟨heligible, hrelated⟩ := search.selects_of_success (admitsColumns_comm hsymm) h
  constructor
  · intro u hu
    have hlt := (htable.sound u hu _ (heligible u hu)).1
    rw [List.getD_eq_getElem _ _ hlt]
    exact List.getElem_mem hlt
  · intro u hu
    exact (htable.sound u hu _ (heligible u hu)).2
  · exact hrelated

theorem Search.success_iff_serves (htable : Tabulates candidates admissible units eligible)
    (hsymm : ∀ a b, compatible a b = compatible b a)
    (hexhausted :
      (search.run eligible units (admitsColumns candidates compatible) budget).success = false →
      (search.run eligible units (admitsColumns candidates compatible) budget).exhausted =
        false) :
    (search.run eligible units (admitsColumns candidates compatible) budget).success = true ↔
      ∃ choice, Serves candidates admissible (fun a b => compatible a b = true) units choice := by
  constructor
  · intro h
    exact ⟨_, search.serves_of_success htable hsymm h⟩
  · rintro ⟨choice, hmem, hadmissible, hcompatible⟩
    rw [search.success_iff (admitsColumns_comm hsymm) hexhausted]
    have hcolumn : ∀ u, ∃ c, u < units →
        candidates.getD c default = choice u ∧ entry eligible u c = true := by
      intro u
      by_cases hu : u < units
      · obtain ⟨c, hc⟩ := htable.complete u hu (choice u) (hmem u hu) (hadmissible u hu)
        exact ⟨c, fun _ => hc⟩
      · exact ⟨0, fun h => absurd h hu⟩
    choose column hcolumn using hcolumn
    refine ⟨column, fun u hu => (hcolumn u hu).2, ?_⟩
    intro u v huv hv
    rw [admitsColumns, (hcolumn u (huv.trans hv)).1, (hcolumn v hv).1]
    exact hcompatible u v huv hv

/-- The search finds a choice that serves all units, shows that there is none, or
runs out of budget. -/
theorem Search.verdict (htable : Tabulates candidates admissible units eligible)
    (hsymm : ∀ a b, compatible a b = compatible b a) {answer : SearchResult}
    (hanswer : search.run eligible units (admitsColumns candidates compatible) budget = answer) :
    (answer.success = true ∧ Serves candidates admissible (fun a b => compatible a b = true) units
        fun u => candidates.getD (answer.selected.getD u 0) default) ∨
      (answer.success = false ∧ answer.exhausted = false ∧
        ¬∃ choice, Serves candidates admissible (fun a b => compatible a b = true) units choice) ∨
      (answer.success = false ∧ answer.exhausted = true) := by
  subst hanswer
  generalize hrun : search.run eligible units (admitsColumns candidates compatible) budget = answer
  cases hsuccess : answer.success with
  | true =>
      subst hrun
      exact Or.inl ⟨rfl, search.serves_of_success htable hsymm hsuccess⟩
  | false =>
      cases hexhausted : answer.exhausted with
      | true => exact Or.inr (Or.inr ⟨rfl, rfl⟩)
      | false =>
          subst hrun
          refine Or.inr (Or.inl ⟨rfl, rfl, ?_⟩)
          rw [← search.success_iff_serves htable hsymm fun _ => hexhausted, hsuccess]
          exact Bool.false_ne_true

end Candidates

section Backtracking

/-- The columns a unit may take, in ascending order. -/
def eligibleColumns (eligible : List (List Bool)) (u : Nat) : List Nat :=
  (List.range (eligible.getD u []).length).filter (entry eligible u)

theorem mem_eligibleColumns_iff (eligible : List (List Bool)) (u c : Nat) :
    c ∈ eligibleColumns eligible u ↔ entry eligible u c = true := by
  rw [eligibleColumns, List.mem_filter, List.mem_range, and_iff_right_iff_imp]
  intro h
  by_contra hlt
  rw [entry, List.getD_eq_default _ _ (by omega)] at h
  contradiction

def rows (eligible : List (List Bool)) (units : Nat) : List (List Nat) :=
  (List.range units).map (eligibleColumns eligible)

theorem selects_of_isSelection {eligible : List (List Bool)} {units : Nat}
    {admits : Nat → Nat → Bool} {selection : List Nat}
    (h : IsSelection admits (rows eligible units) [] selection) :
    Selects eligible units (fun a b => admits a b = true) fun u => selection.getD u 0 := by
  obtain ⟨hmem, -, hpairwise⟩ := h
  have hlength : selection.length = units := by simpa [rows] using hmem.length_eq
  constructor
  · intro u hu
    rw [List.getD_eq_getElem _ _ (by omega)]
    have hrow := hmem.get (i := u) (by omega) (by simpa [rows] using hu)
    simpa [rows, mem_eligibleColumns_iff] using hrow
  · intro u v huv hv
    rw [List.getD_eq_getElem _ _ (by omega), List.getD_eq_getElem _ _ (by omega)]
    exact List.pairwise_iff_getElem.mp hpairwise u v (by omega) (by omega) huv

theorem isSelection_of_selects {eligible : List (List Bool)} {units : Nat}
    {admits : Nat → Nat → Bool} {selected : Nat → Nat}
    (h : Selects eligible units (fun a b => admits a b = true) selected) :
    IsSelection admits (rows eligible units) [] ((List.range units).map selected) := by
  refine ⟨?_, by simp, ?_⟩
  · rw [rows, List.forall₂_map_left_iff, List.forall₂_map_right_iff, List.forall₂_same]
    intro u hu
    rw [mem_eligibleColumns_iff]
    exact h.eligible u (List.mem_range.mp hu)
  · rw [List.pairwise_map, List.pairwise_iff_getElem]
    intro u v hu hv huv
    simp only [List.length_range] at hu hv
    simpa using h.related u v huv hv

/-- The backtracking search of the previous module under a `uint32_t` budget. -/
def backtrackingRun (eligible : List (List Bool)) (units : Nat) (admits : Nat → Nat → Bool)
    (budget : UInt32) : SearchResult :=
  match search admits budget.toNat (rows eligible units) [] 0 with
  | (.found selection, visited) => ⟨true, false, UInt32.ofNat visited, selection⟩
  | (.failed, visited) => ⟨false, false, UInt32.ofNat visited, []⟩
  | (.exhausted, visited) => ⟨false, true, UInt32.ofNat visited, []⟩

theorem backtrackingRun_eq (eligible : List (List Bool)) (units : Nat)
    (admits : Nat → Nat → Bool) (budget : UInt32) :
    backtrackingRun eligible units admits budget =
      if (explore admits (rows eligible units) []).2 ≤ budget.toNat then
        match (explore admits (rows eligible units) []).1 with
        | some selection =>
            ⟨true, false, UInt32.ofNat (explore admits (rows eligible units) []).2, selection⟩
        | none => ⟨false, false, UInt32.ofNat (explore admits (rows eligible units) []).2, []⟩
      else ⟨false, true, budget, []⟩ := by
  rw [backtrackingRun, search_eq admits _ _ _ _ (Nat.zero_le _)]
  simp only [limited, Nat.zero_add, List.nil_append]
  split_ifs with hcost
  · cases (explore admits (rows eligible units) []).1 <;> rfl
  · simp

/-- The contract has an implementation. -/
def backtracking : Search where
  run := backtrackingRun
  sound := by
    intro eligible units admits budget h
    rw [backtrackingRun_eq] at h ⊢
    split_ifs at h ⊢ with hcost
    · -- Without an exhausted budget the answer is the one of the unlimited search.
      cases hanswer : (explore admits (rows eligible units) []).1 with
      | none => simp [hanswer] at h
      | some selection =>
          obtain ⟨heligible, hrelated⟩ := selects_of_isSelection (explore_sound admits hanswer)
          exact ⟨heligible, fun u v huv hv => Or.inl (hrelated u v huv hv)⟩
  complete := by
    intro eligible units admits budget hsuccess hexhausted selected hselects
    rw [backtrackingRun_eq] at hsuccess hexhausted
    split_ifs at hsuccess hexhausted with hcost
    cases hanswer : (explore admits (rows eligible units) []).1 with
    | some selection => simp [hanswer] at hsuccess
    | none =>
        apply explore_complete admits hanswer ((List.range units).map selected)
        apply isSelection_of_selects
        exact ⟨hselects.eligible, fun u v huv hv => (hselects.related u v huv hv).1⟩

end Backtracking

section Arrays

theorem lt_of_entry {eligible : List (List Bool)} {columns u c : Nat}
    (hrows : ∀ row ∈ eligible, row.length ≤ columns) (h : entry eligible u c = true) :
    c < columns := by
  by_contra hle
  rw [entry] at h
  have hrow : (eligible.getD u []).length ≤ c := by
    rcases Nat.lt_or_ge u eligible.length with hu | hu
    · rw [List.getD_eq_getElem _ _ hu]
      exact (hrows _ (List.getElem_mem hu)).trans (Nat.le_of_not_lt hle)
    · rw [List.getD_eq_default _ _ hu]
      exact Nat.zero_le c
  rw [List.getD_eq_default _ _ hrow] at h
  contradiction

/-- The search asks the predicate about columns of the table only, and on success it has
selected a column for each unit. -/
structure StaysWithin (search : Search) : Prop where
  congr : ∀ (eligible : List (List Bool)) (columns units : Nat) (admits admits' : Nat → Nat → Bool)
    (budget : UInt32), (∀ row ∈ eligible, row.length ≤ columns) →
      (∀ a b, a < columns → b < columns → admits a b = admits' a b) →
        search.run eligible units admits budget = search.run eligible units admits' budget
  selected : ∀ (eligible : List (List Bool)) (units : Nat) (admits : Nat → Nat → Bool)
    (budget : UInt32), (search.run eligible units admits budget).success = true →
      units ≤ (search.run eligible units admits budget).selected.length

theorem backtracking_staysWithin : StaysWithin backtracking where
  congr := by
    intro eligible columns units admits admits' budget hrows hadmits
    have hexplore : explore admits (rows eligible units) [] =
        explore admits' (rows eligible units) [] := by
      apply explore_congr hadmits
      · intro row hrow c hc
        obtain ⟨u, -, rfl⟩ := List.mem_map.mp hrow
        exact lt_of_entry hrows ((mem_eligibleColumns_iff eligible u c).mp hc)
      · simp
    change backtrackingRun _ _ _ _ = backtrackingRun _ _ _ _
    rw [backtrackingRun_eq, backtrackingRun_eq, hexplore]
  selected := by
    intro eligible units admits budget h
    change (backtrackingRun _ _ _ _).success = true at h
    change units ≤ (backtrackingRun _ _ _ _).selected.length
    rw [backtrackingRun_eq] at h ⊢
    split_ifs at h ⊢ with hcost
    cases hanswer : (explore admits (rows eligible units) []).1 with
    | none => simp [hanswer] at h
    | some selection =>
        have hlength := (explore_sound admits hanswer).mem.length_eq
        rw [rows, List.length_map, List.length_range] at hlength
        exact hlength.ge

end Arrays

end GrevirPeripherals.AllocationSearch
