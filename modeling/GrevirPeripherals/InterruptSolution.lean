import GrevirPeripherals.InterruptSearch
import GrevirPeripherals.InterruptValidation

/-!
The solution of the interrupt solver in closed form: a function of the sorted
arrays and of the unlimited search over them, cut off by the budget.
-/

namespace GrevirPeripherals.InterruptSolution

open GrevirPeripherals.BacktrackingSearch (limited)
open GrevirPeripherals.InterruptModel
open GrevirPeripherals.InterruptSearch
open GrevirPeripherals.InterruptSolver
open GrevirPeripherals.InterruptValidation
open GrevirPeripherals.Strings

variable {Event : Type}

section Outcome

variable [Inhabited Event] {candidates : List (Candidate Event)} {size : Nat} {found : Bool}
  {state : SearchState} {visited : Nat}

theorem outcome_eq_found_iff {selection : List (Column Event)} :
    outcome candidates size (found, state) = (.found selection, visited) ↔
      found = true ∧ chosenBelow candidates state size = selection ∧
        state.visited.toNat = visited := by
  rw [outcome, Prod.mk.injEq, ← and_assoc]
  apply and_congr_left'
  split_ifs <;> simp_all

theorem outcome_eq_failed_iff :
    outcome candidates size (found, state) = (.failed, visited) ↔
      found = false ∧ state.exhausted = false ∧ state.visited.toNat = visited := by
  rw [outcome, Prod.mk.injEq, ← and_assoc]
  apply and_congr_left'
  split_ifs <;> simp_all

theorem outcome_eq_exhausted_iff :
    outcome candidates size (found, state) = (.exhausted, visited) ↔
      found = false ∧ state.exhausted = true ∧ state.visited.toNat = visited := by
  rw [outcome, Prod.mk.injEq, ← and_assoc]
  apply and_congr_left'
  split_ifs <;> simp_all

/-- `candidates[selected[i]]` for `count` rows from `row` on. -/
def picks (candidates : List (Candidate Event)) (selected : List Nat) (row count : Nat) :
    List (Candidate Event) :=
  (List.range' row count).map fun i => candidateAt candidates (selected.getD i 0)

theorem picks_eq_chosenBelow (state : SearchState) (size : Nat) :
    picks candidates state.selected 0 size = (chosenBelow candidates state size).map Prod.fst := by
  simp [picks, chosenBelow, List.range_eq_range']

end Outcome

section Failure

variable [Inhabited Event]

def failedSolution (size : Nat) (error : Error) (visited : UInt32) : Solution Event :=
  { Solution.initial size with error := error, visited := visited }

@[simp]
theorem failedSolution_error (size : Nat) (error : Error) (visited : UInt32) :
    (failedSolution size error visited : Solution Event).error = error :=
  rfl

end Failure

/-- The problem passes both validation loops. -/
structure ValidProblem (validComponent : StringView → Bool) (problem : Problem Event) : Prop where
  events : DistinctEvents problem.requests
  candidates : ValidCandidates validComponent problem.candidates

section Emission

variable [LinearOrder Event] [Inhabited Event] (candidates : List (Candidate Event))
  (demands : DemandSummary Event)

/-- The plan of a list of rows with their candidates. -/
def emitRows : List (Request Event × Candidate Event) → SelectedPlan Event → SelectedPlan Event
  | [], plan => plan
  | (request, candidate) :: rest, plan =>
      emitRows rest (emitBindings request candidate demands.live plan)

theorem emit_eq (selected : List Nat) (requests : List (Request Event)) (row : Nat)
    (result : Solution Event) (hrow : result.configurations.length = row + requests.length) :
    emit candidates demands selected requests row result =
      { result with
        configurations := result.configurations.take row ++
          (picks candidates selected row requests.length).map Candidate.configuration
        interrupts := emitRows demands
          (requests.zip (picks candidates selected row requests.length)) result.interrupts } := by
  induction requests generalizing row result with
  | nil =>
      have htake : result.configurations.take row = result.configurations :=
        List.take_of_length_le (by simpa using hrow.le)
      simp [emit, picks, emitRows, htake]
  | cons request requests ih =>
      have hlt : row < result.configurations.length := by
        rw [hrow, List.length_cons]
        omega
      have hpicks : picks candidates selected row (request :: requests).length =
          candidateAt candidates (selected.getD row 0) ::
            picks candidates selected (row + 1) requests.length := by
        simp [picks, List.range'_succ]
      have htake (configuration : StringView) :
          (result.configurations.set row configuration).take (row + 1) =
            result.configurations.take row ++ [configuration] := by
        rw [List.take_add_one, List.take_set_of_le (le_refl row),
          List.getElem?_set_self hlt, Option.toList_some]
      rw [emit, ih _ _ (by simpa [Nat.add_assoc, Nat.add_comm 1] using hrow), hpicks]
      simp [emitRows, htake]

/-- The solution that a selection of candidates for the rows is turned into. -/
def selectedSolution (requests : List (Request Event)) (selection : List (Candidate Event))
    (visited : UInt32) : Solution Event where
  error := .none
  interrupts := emitRows demands (requests.zip selection)
    { SelectedPlan.empty requests.length with allocationOk := true }
  configurations := selection.map Candidate.configuration
  visited := visited

end Emission

section Solve

variable [LinearOrder Event] [Inhabited Event] {validComponent : StringView → Bool}
  {problem : Problem Event}

/-- The unlimited search over the sorted arrays of a problem. -/
def exploreProblem (problem : Problem Event) (demands : DemandSummary Event) :
    Option (List (Column Event)) × Nat :=
  exploreRows (sortedCandidates problem.candidates) demands (sortedRequests problem.requests)

theorem solve_of_duplicateRequest (h : ¬DistinctEvents problem.requests)
    (demands : DemandSummary Event) (budget : UInt32) :
    solve validComponent problem demands budget =
      failedSolution problem.requests.length .duplicateRequest 0 := by
  rw [solve, sortRequests_eq, if_neg h]
  simp [fail, failedSolution, Solution.initial]

theorem solve_of_invalidCandidates (hevents : DistinctEvents problem.requests)
    (h : ¬ValidCandidates validComponent problem.candidates) :
    ∃ error, (error = .invalidModel ∨ error = .duplicateCandidate) ∧
      ∀ demands budget, solve validComponent problem demands budget =
        failedSolution problem.requests.length error 0 := by
  cases hsorted : sortCandidates validComponent problem.candidates with
  | ok sorted => exact absurd ((sortCandidates_eq_ok_iff _ _ _).mp hsorted).2 h
  | error error =>
      refine ⟨error, sortCandidates_error hsorted, ?_⟩
      intro demands budget
      rw [solve, sortRequests_eq, if_pos hevents]
      simp [hsorted, fail, failedSolution, Solution.initial]

theorem solve_eq_conclude (h : ValidProblem validComponent problem)
    (demands : DemandSummary Event) (budget : UInt32) :
    solve validComponent problem demands budget =
      conclude (sortedRequests problem.requests) (sortedCandidates problem.candidates) demands
        (Solution.initial problem.requests.length)
        (search (sortedCandidates problem.candidates) demands budget
          (sortedRequests problem.requests) 0 (SearchState.initial problem.requests.length)) := by
  have hcandidates := (sortCandidates_eq_ok_iff validComponent problem.candidates _).mpr
    ⟨rfl, h.candidates⟩
  rw [solve, sortRequests_eq, if_pos h.events, hcandidates]

theorem conclude_found (requests : List (Request Event)) (candidates : List (Candidate Event))
    (demands : DemandSummary Event) (state : SearchState) :
    conclude requests candidates demands (Solution.initial requests.length) (true, state) =
      selectedSolution demands requests
        ((chosenBelow candidates state requests.length).map Prod.fst) state.visited := by
  rw [conclude, ← picks_eq_chosenBelow]
  simp only [Bool.not_true, Bool.false_eq_true, if_false]
  rw [emit_eq _ _ _ _ _ _ (by simp [Solution.initial])]
  simp [selectedSolution, Solution.initial]

theorem conclude_failed (requests : List (Request Event)) (candidates : List (Candidate Event))
    (demands : DemandSummary Event) (size : Nat) (state : SearchState) :
    conclude requests candidates demands (Solution.initial size) (false, state) =
      failedSolution size
        (if state.exhausted then .exhausted else diagnose requests candidates demands)
        state.visited := by
  cases hexhausted : state.exhausted <;>
    simp [conclude, hexhausted, fail, failedSolution, Solution.initial]

theorem solve_of_valid (h : ValidProblem validComponent problem)
    (demands : DemandSummary Event) (budget : UInt32) :
    solve validComponent problem demands budget =
      if (exploreProblem problem demands).2 ≤ budget.toNat then
        match (exploreProblem problem demands).1 with
        | some selection =>
            selectedSolution demands (sortedRequests problem.requests)
              (selection.map Prod.fst) (UInt32.ofNat (exploreProblem problem demands).2)
        | none =>
            failedSolution problem.requests.length
              (diagnose (sortedRequests problem.requests) (sortedCandidates problem.candidates)
                demands)
              (UInt32.ofNat (exploreProblem problem demands).2)
      else failedSolution problem.requests.length .exhausted budget := by
  have houtcome := outcome_search (sortedCandidates problem.candidates) demands budget
    (sortedRequests problem.requests)
  rw [sortedRequests_length] at houtcome
  rw [solve_eq_conclude h]
  generalize search (sortedCandidates problem.candidates) demands budget
    (sortedRequests problem.requests) 0 (SearchState.initial problem.requests.length) = answer
    at houtcome ⊢
  obtain ⟨found, state⟩ := answer
  change outcome _ _ _ = limited budget.toNat 0 (exploreProblem problem demands).2 []
    (exploreProblem problem demands).1 at houtcome
  simp only [limited, Nat.zero_add, List.nil_append] at houtcome
  split_ifs with hcost
  · rw [if_pos hcost] at houtcome
    cases hexplored : (exploreProblem problem demands).1 with
    | some selection =>
        rw [hexplored] at houtcome
        obtain ⟨rfl, hselection, hvisited⟩ := outcome_eq_found_iff.mp houtcome
        rw [← sortedRequests_length, conclude_found, sortedRequests_length, hselection,
          ← hvisited, UInt32.ofNat_toNat]
    | none =>
        rw [hexplored] at houtcome
        obtain ⟨rfl, hexhausted, hvisited⟩ := outcome_eq_failed_iff.mp houtcome
        rw [conclude_failed, hexhausted, ← hvisited, UInt32.ofNat_toNat]
        rfl
  · rw [if_neg hcost] at houtcome
    obtain ⟨rfl, hexhausted, hvisited⟩ := outcome_eq_exhausted_iff.mp houtcome
    rw [conclude_failed, hexhausted, UInt32.toNat_inj.mp hvisited]
    rfl

end Solve

end GrevirPeripherals.InterruptSolution
