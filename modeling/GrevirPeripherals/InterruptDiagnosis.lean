import GrevirPeripherals.InterruptSelection
import Mathlib.Data.List.Perm.Basic

/-!
The two diagnoses of an interrupt search that ran to the end without an answer,
against conditions on the requests in the order in which they were presented.
-/

namespace GrevirPeripherals.InterruptDiagnosis

open GrevirPeripherals.InterruptModel
open GrevirPeripherals.InterruptSelection
open GrevirPeripherals.InterruptSolution
open GrevirPeripherals.InterruptSolver
open GrevirPeripherals.InterruptValidation
open GrevirPeripherals.Strings

variable {Event : Type} {candidates : List (Candidate Event)} {demands : DemandSummary Event}

/-- An assignment for some rows is one for the same rows in another order. -/
theorem CompatibleAssignment.exists_perm {rows rows' : List (Request Event)}
    {assignment : List (Candidate Event)} (hperm : rows'.Perm rows)
    (h : CompatibleAssignment candidates demands rows assignment) :
    ∃ assignment', CompatibleAssignment candidates demands rows' assignment' := by
  obtain ⟨hlength, heligible⟩ := List.forall₂_iff_zip.mp h.eligible
  rw [← List.map_fst_zip hlength.le] at hperm
  obtain ⟨pairs, rfl, hpairs⟩ := (congrFun₂ (List.eq_map_comp_perm Prod.fst) _ _).mpr hperm
  have hzip : (pairs.map Prod.fst).zip (pairs.map Prod.snd) = pairs := by
    rw [List.zip_map', List.map_id'' (fun _ => rfl)]
  refine ⟨pairs.map Prod.snd, ?_, ?_⟩
  · refine List.forall₂_iff_zip.mpr ⟨by simp, ?_⟩
    rw [hzip]
    intro request candidate hpair
    exact heligible (hpairs.mem_iff.mp hpair)
  · rw [hzip]
    apply hpairs.symm.pairwise h.compatible
    intro x y hxy
    exact ⟨hxy.timer.symm, fun hy hx => (hxy.source hx hy).symm,
      fun hy hx => (hxy.entry hx hy).symm⟩

/-- Every row of an assignment has an eligible candidate. -/
theorem CompatibleAssignment.exists_eligible {rows : List (Request Event)}
    {assignment : List (Candidate Event)}
    (h : CompatibleAssignment candidates demands rows assignment) {request : Request Event}
    (hrequest : request ∈ rows) : ∃ candidate ∈ candidates, Eligible demands request candidate := by
  obtain ⟨i, hi, rfl⟩ := List.getElem_of_mem hrequest
  obtain ⟨hlength, hall⟩ := List.forall₂_iff_get.mp h.eligible
  have hrow := hall i hi (hlength ▸ hi)
  exact ⟨_, hrow.1, hrow.2⟩

variable [LinearOrder Event]

/-- The diagnosis repeats the filter of the search, request by request. -/
theorem diagnose_eq_noCandidate_iff (requests : List (Request Event))
    (candidates : List (Candidate Event)) (demands : DemandSummary Event) :
    diagnose requests candidates demands = .noCandidate ↔
      ∃ request ∈ requests, ∀ candidate ∈ candidates, ¬Eligible demands request candidate := by
  have hany : (requests.any fun request =>
        !candidates.any (eligible request (demanded demands request.event))) = true ↔
      ∃ request ∈ requests, ∀ candidate ∈ candidates, ¬Eligible demands request candidate := by
    simp only [List.any_eq_true, Bool.not_eq_true', List.any_eq_false, eligible_iff]
  rw [diagnose, ← hany]
  split_ifs with h <;> simp [h]

theorem diagnose_eq_conflict_iff (requests : List (Request Event))
    (candidates : List (Candidate Event)) (demands : DemandSummary Event) :
    diagnose requests candidates demands = .conflict ↔
      ∀ request ∈ requests, ∃ candidate ∈ candidates, Eligible demands request candidate := by
  have hcases : diagnose requests candidates demands = .conflict ↔
      diagnose requests candidates demands ≠ .noCandidate := by
    rw [diagnose]
    split_ifs <;> simp
  rw [hcases, ne_eq, diagnose_eq_noCandidate_iff]
  push Not
  rfl

section Solve

variable [Inhabited Event]

/-- Unless the budget runs out, a failure is `noCandidate` where some request has no
eligible candidate, and `conflict` where every request has one but no choice of one
for each of them is compatible. -/
theorem solve_failure_exact (validComponent : StringView → Bool) (problem : Problem Event)
    (demands : DemandSummary Event) (budget : UInt32)
    (hevents : DistinctEvents problem.requests)
    (hcandidates : ValidCandidates validComponent problem.candidates)
    (hbudget : (solve validComponent problem demands budget).error ≠ .exhausted) :
    ((solve validComponent problem demands budget).error = .noCandidate ↔
        ∃ request ∈ problem.requests, ∀ candidate ∈ problem.candidates,
          ¬Eligible demands request candidate) ∧
      ((solve validComponent problem demands budget).error = .conflict ↔
        (∀ request ∈ problem.requests, ∃ candidate ∈ problem.candidates,
          Eligible demands request candidate) ∧
        ¬∃ assignment, CompatibleAssignment problem.candidates demands problem.requests
          assignment) := by
  have hrows := sortedRequests_perm problem.requests
  have hmem := mem_sortedCandidates problem.candidates
  have hexplored := exploreRows_isSome_iff (sortedCandidates problem.candidates) demands
    (sortedRequests problem.requests)
  change (exploreProblem problem demands).1.isSome ↔ _ at hexplored
  rw [solve_of_valid ⟨hevents, hcandidates⟩] at hbudget ⊢
  split_ifs at hbudget ⊢ with hcost
  · cases hanswer : (exploreProblem problem demands).1 with
    | some selection =>
        rw [hanswer] at hexplored
        obtain ⟨assignment, hassignment⟩ := hexplored.mp rfl
        obtain ⟨assignment', hassignment'⟩ :=
          CompatibleAssignment.exists_perm hrows.symm (hassignment.congr hmem)
        refine ⟨iff_of_false (by simp [selectedSolution]) ?_,
          iff_of_false (by simp [selectedSolution]) ?_⟩
        · rintro ⟨request, hrequest, hnone⟩
          obtain ⟨candidate, hcandidate, heligible⟩ := 
            CompatibleAssignment.exists_eligible hassignment' hrequest
          exact hnone candidate hcandidate heligible
        · rintro ⟨-, hnone⟩
          exact hnone ⟨assignment', hassignment'⟩
    | none =>
        rw [hanswer] at hexplored
        have hnone : ¬∃ assignment, CompatibleAssignment problem.candidates demands
            problem.requests assignment := by
          rintro ⟨assignment, hassignment⟩
          obtain ⟨assignment', hassignment'⟩ := CompatibleAssignment.exists_perm hrows hassignment
          have hsome := hexplored.mpr ⟨_, hassignment'.congr fun candidate => (hmem candidate).symm⟩
          exact absurd hsome (by simp)
        simp only [failedSolution_error, diagnose_eq_noCandidate_iff, diagnose_eq_conflict_iff,
          mem_sortedRequests, mem_sortedCandidates, hnone, not_false_iff, and_true, iff_self,
          and_self]
  · simp at hbudget

/-- The demonstration board without the candidates on its second timer. -/
def singleTimerProblem : Problem Nat :=
  { boardProblem with candidates := boardProblem.candidates.take 2 }

theorem board_failure_exact :
    ¬∃ assignment, CompatibleAssignment singleTimerProblem.candidates boardDemands
      singleTimerProblem.requests assignment :=
  ((solve_failure_exact nonemptyName singleTimerProblem boardDemands 100 board_distinctEvents
    ⟨by decide +kernel, by decide +kernel⟩ (by decide +kernel)).2.mp (by decide +kernel)).2

end Solve

end GrevirPeripherals.InterruptDiagnosis
