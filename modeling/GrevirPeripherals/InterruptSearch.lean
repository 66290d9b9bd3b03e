import GrevirPeripherals.BacktrackingSearch
import GrevirPeripherals.InterruptSolver

/-!
The recursive lambda of the interrupt solver works on two arrays that keep stale
entries of abandoned branches. It refines the backtracking search in which a row
receives exactly the columns chosen before it.
-/

namespace GrevirPeripherals.InterruptSearch

open GrevirPeripherals.BacktrackingSearch (Outcome searchColumns limited explore)
open GrevirPeripherals.InterruptModel
open GrevirPeripherals.InterruptSolver

variable {Event : Type}

/-- What a row contributes: the chosen candidate and whether the row is demanded. -/
abbrev Column (Event : Type) := Candidate Event × Bool

def admits (used column : Column Event) : Bool :=
  !clashes column.2 used.2 used.1 column.1

section Arrays

variable [Inhabited Event] (candidates : List (Candidate Event))

/-- The columns of the rows below `row`, read from the two arrays. -/
def chosenBelow (state : SearchState) (row : Nat) : List (Column Event) :=
  (List.range row).map fun earlier =>
    (candidateAt candidates (state.selected.getD earlier 0),
      state.selectedDemanded.getD earlier false)

theorem compatible_eq (state : SearchState) (row : Nat) (demanded : Bool)
    (candidate : Candidate Event) :
    compatible candidates state row demanded candidate =
      (chosenBelow candidates state row).all (admits · (candidate, demanded)) := by
  rw [compatible, chosenBelow, List.all_map, List.not_any_eq_all_not]
  rfl

@[simp]
theorem chosenBelow_visit (state : SearchState) (row : Nat) :
    chosenBelow candidates state.visit row = chosenBelow candidates state row :=
  rfl

theorem chosenBelow_select (state : SearchState) (row c : Nat) (demanded : Bool) :
    chosenBelow candidates (state.select row c demanded) row =
      chosenBelow candidates state row := by
  apply List.map_congr_left
  intro earlier hearlier
  have hne : row ≠ earlier := (List.mem_range.mp hearlier).ne'
  simp [SearchState.select, List.getD_eq_getElem?_getD, List.getElem?_set_ne hne]

theorem chosenBelow_select_succ (state : SearchState) (row c : Nat) (demanded : Bool)
    (hselected : row < state.selected.length)
    (hdemanded : row < state.selectedDemanded.length) :
    chosenBelow candidates (state.select row c demanded) (row + 1) =
      chosenBelow candidates state row ++ [(candidateAt candidates c, demanded)] := by
  have hprefix := chosenBelow_select candidates state row c demanded
  simp only [chosenBelow] at hprefix
  rw [chosenBelow, List.range_succ, List.map_append, hprefix]
  simp [chosenBelow, SearchState.select, List.getD_eq_getElem?_getD, hselected, hdemanded]

theorem chosenBelow_of_succ {state state' : SearchState} {row : Nat}
    (h : chosenBelow candidates state' (row + 1) = chosenBelow candidates state (row + 1)) :
    chosenBelow candidates state' row = chosenBelow candidates state row := by
  have htake := congrArg (List.take row) h
  simpa [chosenBelow, ← List.map_take, List.take_range] using htake

end Arrays

/-- A state in which a call of the lambda can start. -/
structure Ready (budget : UInt32) (size : Nat) (state : SearchState) : Prop where
  selected : state.selected.length = size
  selectedDemanded : state.selectedDemanded.length = size
  visited : state.visited.toNat ≤ budget.toNat
  exhausted : state.exhausted = false

theorem Ready.visit {budget : UInt32} {size : Nat} {state : SearchState}
    (h : Ready budget size state) (hbudget : state.visited ≠ budget) :
    Ready budget size state.visit ∧ state.visit.visited.toNat = state.visited.toNat + 1 := by
  have hne : state.visited.toNat ≠ budget.toNat := fun heq => hbudget (UInt32.toNat_inj.mp heq)
  have hlt : state.visited.toNat + 1 ≤ budget.toNat := by
    have := h.visited
    omega
  have hvisit : state.visit.visited.toNat = state.visited.toNat + 1 := by
    have := budget.toNat_lt
    rw [SearchState.visit, UInt32.toNat_add]
    exact Nat.mod_eq_of_lt (by simpa using by omega)
  exact ⟨⟨h.selected, h.selectedDemanded, by omega, h.exhausted⟩, hvisit⟩

theorem Ready.select {budget : UInt32} {size : Nat} {state : SearchState}
    (h : Ready budget size state) (row c : Nat) (demanded : Bool) :
    Ready budget size (state.select row c demanded) where
  selected := by simp [SearchState.select, h.selected]
  selectedDemanded := by simp [SearchState.select, h.selectedDemanded]
  visited := h.visited
  exhausted := h.exhausted

section Calls

variable [Inhabited Event] (candidates : List (Candidate Event))

/-- What a returned call says in terms of the backtracking search. -/
def outcome (size : Nat) (answer : Bool × SearchState) : Outcome (Column Event) × Nat :=
  (if answer.1 then .found (chosenBelow candidates answer.2 size)
    else if answer.2.exhausted then .exhausted else .failed,
    answer.2.visited.toNat)

/-- A call at `row` from `state` answers as the backtracking search does and
leaves the rows below `row` alone. -/
structure Refines (budget : UInt32) (size row : Nat) (state : SearchState)
    (answer : Bool × SearchState) (expected : Outcome (Column Event) × Nat) : Prop where
  outcome : outcome candidates size answer = expected
  below : chosenBelow candidates answer.2 row = chosenBelow candidates state row
  selected : answer.2.selected.length = size
  selectedDemanded : answer.2.selectedDemanded.length = size
  visited : answer.2.visited.toNat ≤ budget.toNat

theorem Refines.of_below {candidates : List (Candidate Event)} {budget : UInt32}
    {size row : Nat} {state state' : SearchState} {answer : Bool × SearchState}
    {expected : Outcome (Column Event) × Nat}
    (h : Refines candidates budget size row state' answer expected)
    (hbelow : chosenBelow candidates state' row = chosenBelow candidates state row) :
    Refines candidates budget size row state answer expected where
  outcome := h.outcome
  below := h.below.trans hbelow
  selected := h.selected
  selectedDemanded := h.selectedDemanded
  visited := h.visited

/-- A call that fails within the budget goes on from the state it leaves, and any
other answer stands. -/
theorem Refines.resume {candidates : List (Candidate Event)} {budget : UInt32}
    {size row : Nat} {state : SearchState} {answer : Bool × SearchState}
    {expected : Outcome (Column Event) × Nat} (rest : SearchState → Bool × SearchState)
    (retry : Nat → Outcome (Column Event) × Nat)
    (hrest : ∀ state', Ready budget size state' →
      chosenBelow candidates state' row = chosenBelow candidates state row →
        Refines candidates budget size row state' (rest state') (retry state'.visited.toNat)) :
    Refines candidates budget size row state answer expected →
    Refines candidates budget size row state
      (if answer.1 then (true, answer.2)
        else if answer.2.exhausted then (false, answer.2) else rest answer.2)
      (match expected with
        | (.failed, visited) => retry visited
        | outcome => outcome) := by
  rintro ⟨rfl, hbelow, hselected, hselectedDemanded, hle⟩
  cases hfound : answer.1 with
  | true =>
      refine ⟨?_, hbelow, hselected, hselectedDemanded, hle⟩
      simp [InterruptSearch.outcome, hfound]
  | false =>
      cases hexhausted : answer.2.exhausted with
      | true =>
          refine ⟨?_, hbelow, hselected, hselectedDemanded, hle⟩
          simp [InterruptSearch.outcome, hfound, hexhausted]
      | false =>
          have hready : Ready budget size answer.2 :=
            ⟨hselected, hselectedDemanded, hle, hexhausted⟩
          have hagain := (hrest answer.2 hready hbelow).of_below hbelow
          simpa [InterruptSearch.outcome, hfound, hexhausted] using hagain

end Calls

section Refinement

variable [LinearOrder Event]

theorem skipped_eq_not_eligible (request : Request Event) (demanded : Bool)
    (candidate : Candidate Event) :
    skipped request demanded candidate = !eligible request demanded candidate := by
  simp [skipped, eligible, Bool.not_and, Bool.not_or]

variable [Inhabited Event] (candidates : List (Candidate Event)) (demands : DemandSummary Event)
  (budget : UInt32)

/-- The columns a row tries, restricted to the candidate positions still ahead. -/
def columnsAt (request : Request Event) (demanded : Bool) (positions : List Nat) :
    List (Column Event) :=
  ((positions.map (candidateAt candidates)).filter (eligible request demanded)).map
    fun candidate => (candidate, demanded)

theorem tryCandidates_refines {size row : Nat} (hrow : row < size) (request : Request Event)
    (demanded : Bool) (self : SearchState → Bool × SearchState)
    (next : List (Column Event) → Nat → Outcome (Column Event) × Nat)
    (hself : ∀ state, Ready budget size state →
      Refines candidates budget size (row + 1) state (self state)
        (next (chosenBelow candidates state (row + 1)) state.visited.toNat))
    (positions : List Nat) (state : SearchState) (hstate : Ready budget size state) :
    Refines candidates budget size row state
      (tryCandidates candidates budget request demanded row self positions state)
      (searchColumns admits budget.toNat (chosenBelow candidates state row)
        (fun column => next (chosenBelow candidates state row ++ [column]))
        (columnsAt candidates request demanded positions) state.visited.toNat) := by
  induction positions generalizing state with
  | nil =>
      refine ⟨?_, rfl, hstate.selected, hstate.selectedDemanded, hstate.visited⟩
      simp [outcome, tryCandidates, columnsAt, searchColumns, hstate.exhausted]
  | cons c rest ih =>
      rw [tryCandidates]
      simp only [skipped_eq_not_eligible]
      cases heligible : eligible request demanded (candidateAt candidates c) with
      | false =>
          have hcolumns : columnsAt candidates request demanded (c :: rest) =
              columnsAt candidates request demanded rest := by
            simp [columnsAt, heligible]
          rw [hcolumns]
          simpa using ih state hstate
      | true =>
          have hcolumns : columnsAt candidates request demanded (c :: rest) =
              (candidateAt candidates c, demanded) ::
                columnsAt candidates request demanded rest := by
            simp [columnsAt, heligible]
          rw [hcolumns, searchColumns, ← compatible_eq]
          simp only [Bool.not_true, Bool.false_eq_true, if_false, UInt32.toNat_inj]
          by_cases hbudget : state.visited = budget
          · simp only [hbudget, if_true]
            refine ⟨?_, rfl, hstate.selected, hstate.selectedDemanded, by simp [← hbudget]⟩
            simp [outcome, ← hbudget]
          · simp only [hbudget, if_false]
            obtain ⟨hvisit, hcount⟩ := hstate.visit hbudget
            have hvisited : compatible candidates state.visit row demanded =
                compatible candidates state row demanded := rfl
            rw [hvisited, ← hcount]
            cases hcompatible : compatible candidates state row demanded
                (candidateAt candidates c) with
            | false =>
                have hagain := (ih state.visit hvisit).of_below (chosenBelow_visit _ _ _)
                simpa [hcompatible] using hagain
            | true =>
                simp only [Bool.not_true, Bool.false_eq_true, if_false, if_true]
                have hchosen := chosenBelow_select_succ candidates state.visit row c demanded
                  (by rw [hvisit.selected]; exact hrow)
                  (by rw [hvisit.selectedDemanded]; exact hrow)
                have hcall := hself _ (hvisit.select row c demanded)
                rw [hchosen, chosenBelow_visit] at hcall
                change Refines candidates budget size (row + 1) _ _
                  (next _ state.visit.visited.toNat) at hcall
                have hbelow := (chosenBelow_of_succ candidates hcall.below).trans
                  (chosenBelow_select candidates state.visit row c demanded)
                have hhere : Refines candidates budget size row state _ _ :=
                  ⟨hcall.outcome, hbelow, hcall.selected, hcall.selectedDemanded, hcall.visited⟩
                have hresume := Refines.resume
                  (tryCandidates candidates budget request demanded row self rest)
                  (searchColumns admits budget.toNat (chosenBelow candidates state row)
                    (fun column => next (chosenBelow candidates state row ++ [column]))
                    (columnsAt candidates request demanded rest))
                  (fun state' hstate' hsame => hsame ▸ ih state' hstate') hhere
                generalize next _ state.visit.visited.toNat = expected at hresume ⊢
                obtain ⟨answer, visited⟩ := expected
                cases answer <;> exact hresume

/-- The columns of every row, in the order of the candidate array. -/
def rowColumns (requests : List (Request Event)) : List (List (Column Event)) :=
  requests.map fun request =>
    (candidates.filter (eligible request (demanded demands request.event))).map
      fun candidate => (candidate, demanded demands request.event)

theorem columnsAt_range (request : Request Event) (demanded : Bool) :
    columnsAt candidates request demanded (List.range candidates.length) =
      (candidates.filter (eligible request demanded)).map fun candidate =>
        (candidate, demanded) := by
  have hall : (List.range candidates.length).map (candidateAt candidates) = candidates := by
    apply List.ext_getElem
    · simp
    · intro c hc hc'
      simp [candidateAt, List.getD_eq_getElem?_getD, hc']
  rw [columnsAt, hall]

theorem search_refines (requests : List (Request Event)) {size row : Nat}
    (hrow : row + requests.length = size) (state : SearchState)
    (hstate : Ready budget size state) :
    Refines candidates budget size row state
      (search candidates demands budget requests row state)
      (BacktrackingSearch.search admits budget.toNat (rowColumns candidates demands requests)
        (chosenBelow candidates state row) state.visited.toNat) := by
  induction requests generalizing row state with
  | nil =>
      refine ⟨?_, rfl, hstate.selected, hstate.selectedDemanded, hstate.visited⟩
      have hsize : row = size := by simpa using hrow
      simp [outcome, search, rowColumns, BacktrackingSearch.search, hsize]
  | cons request requests ih =>
      rw [List.length_cons] at hrow
      rw [search, rowColumns, List.map_cons, BacktrackingSearch.search, ← columnsAt_range]
      apply tryCandidates_refines candidates budget (by omega) request _ _
        (BacktrackingSearch.search admits budget.toNat (rowColumns candidates demands requests))
      · intro state hstate
        exact ih (by omega) state hstate
      · exact hstate

theorem ready_initial (size : Nat) : Ready budget size (SearchState.initial size) := by
  constructor <;> simp [SearchState.initial]

/-- The unlimited backtracking search over the rows of the solver. -/
def exploreRows (requests : List (Request Event)) : Option (List (Column Event)) × Nat :=
  explore admits (rowColumns candidates demands requests) []

theorem outcome_search (requests : List (Request Event)) :
    outcome candidates requests.length
        (search candidates demands budget requests 0 (SearchState.initial requests.length)) =
      limited budget.toNat 0 (exploreRows candidates demands requests).2 []
        (exploreRows candidates demands requests).1 := by
  have hrefines := search_refines candidates demands budget requests (Nat.zero_add _)
    (SearchState.initial requests.length) (ready_initial budget requests.length)
  rw [hrefines.outcome]
  exact BacktrackingSearch.search_eq admits _ _ _ _ (Nat.zero_le _)

end Refinement

end GrevirPeripherals.InterruptSearch
