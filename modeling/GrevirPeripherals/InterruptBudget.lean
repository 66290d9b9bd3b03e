import GrevirPeripherals.InterruptPlan

/-!
Two runs of the interrupt solver compared: under different budgets, and on
different enumerations of the same problem.
-/

namespace GrevirPeripherals.InterruptBudget

open GrevirPeripherals.InterruptModel
open GrevirPeripherals.InterruptPlan
open GrevirPeripherals.InterruptSearch
open GrevirPeripherals.InterruptSelection
open GrevirPeripherals.InterruptSolution
open GrevirPeripherals.InterruptSolver
open GrevirPeripherals.InterruptValidation
open GrevirPeripherals.Strings

variable {Event : Type}

section Settling

variable [Inhabited Event]

/-- The behaviour of a search under every budget: from `threshold` visits on one
and the same solution, below it an exhausted one that used up its budget. -/
def SettlesAt (size threshold : Nat) (settled : Solution Event)
    (run : UInt32 → Solution Event) : Prop :=
  ∀ budget : UInt32,
    (threshold ≤ budget.toNat → run budget = settled ∧
      settled.visited.toNat = threshold ∧ settled.error ≠ .exhausted) ∧
    (budget.toNat < threshold → (run budget).error = .exhausted ∧
      (run budget).visited = budget ∧ (run budget).interrupts = SelectedPlan.empty size ∧
        (run budget).configurations = List.replicate size [])

theorem settlesAt_zero {size : Nat} {error : Error} (herror : error ≠ .exhausted)
    {run : UInt32 → Solution Event} (hrun : ∀ budget, run budget = failedSolution size error 0) :
    SettlesAt size 0 (failedSolution size error 0) run := by
  intro budget
  constructor
  · intro _
    exact ⟨hrun budget, rfl, herror⟩
  · intro hlt
    exact absurd hlt (Nat.not_lt_zero _)

end Settling

variable [LinearOrder Event]

theorem demanded_congr {demands demands' : DemandSummary Event}
    (hkeys : demands.live.Perm demands'.live) : demanded demands = demanded demands' := by
  funext event
  rw [demanded, demanded, hkeys.any_eq]

theorem emitRows_congr {demands demands' : DemandSummary Event}
    (hkeys : demands.live.Perm demands'.live)
    (pairs : List (Request Event × Candidate Event)) (plan : SelectedPlan Event) :
    emitRows demands pairs plan = emitRows demands' pairs plan := by
  induction pairs generalizing plan with
  | nil => rfl
  | cons pair pairs ih =>
      obtain ⟨request, candidate⟩ := pair
      rw [emitRows, emitRows, ih, emitBindings_eq_iterate, emitBindings_eq_iterate,
        hkeys.count_eq]

theorem exploreProblem_congr {problem problem' : Problem Event}
    {demands demands' : DemandSummary Event}
    (hrequests : sortedRequests problem.requests = sortedRequests problem'.requests)
    (hcandidates : sortedCandidates problem.candidates = sortedCandidates problem'.candidates)
    (hkeys : demands.live.Perm demands'.live) :
    exploreProblem problem demands = exploreProblem problem' demands' := by
  simp only [exploreProblem, exploreRows, rowColumns, hrequests, hcandidates,
    demanded_congr hkeys]

variable [Inhabited Event]

/-- The answer of the solver once its search has run to the end. -/
def settledSolution (problem : Problem Event) (demands : DemandSummary Event) : Solution Event :=
  match (exploreProblem problem demands).1 with
  | some selection =>
      selectedSolution demands (sortedRequests problem.requests) (selection.map Prod.fst)
        (UInt32.ofNat (exploreProblem problem demands).2)
  | none =>
      failedSolution problem.requests.length
        (diagnose (sortedRequests problem.requests) (sortedCandidates problem.candidates) demands)
        (UInt32.ofNat (exploreProblem problem demands).2)

theorem settledSolution_visited (problem : Problem Event) (demands : DemandSummary Event) :
    (settledSolution problem demands).visited =
      UInt32.ofNat (exploreProblem problem demands).2 := by
  rw [settledSolution]
  split <;> rfl

theorem settledSolution_error_ne_exhausted (problem : Problem Event)
    (demands : DemandSummary Event) : (settledSolution problem demands).error ≠ .exhausted := by
  rw [settledSolution]
  split
  · simp [selectedSolution]
  · exact diagnose_ne_exhausted _ _ _

/-- There is one threshold below which every budget is used up and above which
none makes a difference. -/
theorem solve_budget_exact (validComponent : StringView → Bool) (problem : Problem Event)
    (demands : DemandSummary Event) :
    ∃ threshold settled, SettlesAt problem.requests.length threshold settled
      (solve validComponent problem demands) := by
  by_cases hevents : DistinctEvents problem.requests
  · by_cases hcandidates : ValidCandidates validComponent problem.candidates
    · refine ⟨(exploreProblem problem demands).2, settledSolution problem demands, ?_⟩
      intro budget
      rw [solve_of_valid ⟨hevents, hcandidates⟩]
      constructor
      · intro hle
        have hfits : (exploreProblem problem demands).2 < 2 ^ 32 :=
          lt_of_le_of_lt hle budget.toNat_lt
        refine ⟨if_pos hle, ?_, settledSolution_error_ne_exhausted problem demands⟩
        rw [settledSolution_visited, UInt32.toNat_ofNat_of_lt' hfits]
      · intro hlt
        rw [if_neg (by omega)]
        exact ⟨rfl, rfl, rfl, rfl⟩
    · obtain ⟨error, herror, hsolve⟩ := solve_of_invalidCandidates hevents hcandidates
      refine ⟨0, _, settlesAt_zero ?_ (hsolve demands)⟩
      rcases herror with rfl | rfl <;> simp
  · exact ⟨0, _, settlesAt_zero (by simp) (solve_of_duplicateRequest hevents demands)⟩

section Enumeration

section Congruence

variable {validComponent : StringView → Bool} {problem problem' : Problem Event}
  {demands demands' : DemandSummary Event}

theorem solve_congr_of_valid (hvalid : ValidProblem validComponent problem)
    (hrequests : problem.requests.Perm problem'.requests)
    (hcandidates : problem.candidates.Perm problem'.candidates)
    (hkeys : demands.live.Perm demands'.live) (budget : UInt32) :
    solve validComponent problem demands budget =
      solve validComponent problem' demands' budget := by
  have hsortedRequests := sortedRequests_congr hvalid.events hrequests
  have hsortedCandidates := sortedCandidates_congr hvalid.candidates hcandidates
  have hdiagnose : diagnose (sortedRequests problem.requests)
        (sortedCandidates problem.candidates) demands =
      diagnose (sortedRequests problem'.requests) (sortedCandidates problem'.candidates)
        demands' := by
    rw [diagnose, diagnose, hsortedRequests, hsortedCandidates, demanded_congr hkeys]
  rw [solve_of_valid hvalid,
    solve_of_valid ⟨hvalid.events.perm hrequests, hvalid.candidates.perm hcandidates⟩, hdiagnose,
    exploreProblem_congr hsortedRequests hsortedCandidates hkeys, hrequests.length_eq]
  simp only [selectedSolution, emitRows_congr hkeys, hsortedRequests]

/-- Neither the order of the requests, nor that of the candidates, nor that of the
demand keys shows in any field of the solution. -/
theorem solve_enumeration_independent
    (hvalid : ValidCandidates validComponent problem.candidates)
    (hrequests : problem.requests.Perm problem'.requests)
    (hcandidates : problem.candidates.Perm problem'.candidates)
    (hkeys : demands.live.Perm demands'.live) (budget : UInt32) :
    solve validComponent problem demands budget =
      solve validComponent problem' demands' budget := by
  by_cases hevents : DistinctEvents problem.requests
  · exact solve_congr_of_valid ⟨hevents, hvalid⟩ hrequests hcandidates hkeys budget
  · have hevents' : ¬DistinctEvents problem'.requests := fun h => hevents (h.perm hrequests.symm)
    rw [solve_of_duplicateRequest hevents, solve_of_duplicateRequest hevents',
      hrequests.length_eq]

end Congruence

/-- The demonstration board with every array reversed. -/
theorem board_enumeration_independent :
    solve nonemptyName boardProblem boardDemands 100 =
      solve nonemptyName
        { requests := boardProblem.requests.reverse
          candidates := boardProblem.candidates.reverse }
        { keys := [2, 1], count := 2 } 100 :=
  have hkeys : boardDemands.live.Perm (DemandSummary.live { keys := [2, 1], count := 2 }) :=
    List.Perm.swap 2 1 []
  solve_enumeration_independent board_validCandidates (List.reverse_perm _).symm
    (List.reverse_perm _).symm hkeys 100

end Enumeration

end GrevirPeripherals.InterruptBudget
