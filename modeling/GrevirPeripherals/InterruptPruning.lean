import GrevirPeripherals.InterruptDiagnosis

/-!
The interrupt solver on a problem from which candidates have been removed. It does
not miss the ones it did not select, and it goes on refusing what it refused.
-/

namespace GrevirPeripherals.InterruptPruning

open GrevirPeripherals.BacktrackingSearch (IsSelection explore_none_of_sublists explore_sound
  explore_some_of_sublists)
open GrevirPeripherals.InterruptDiagnosis
open GrevirPeripherals.InterruptModel
open GrevirPeripherals.InterruptSearch
open GrevirPeripherals.InterruptSelection
open GrevirPeripherals.InterruptSolution
open GrevirPeripherals.InterruptSolver
open GrevirPeripherals.InterruptValidation
open GrevirPeripherals.Strings

variable {Event : Type}

/-- The same requests, and some of the candidates. -/
structure PrunedFrom (problem' problem : Problem Event) : Prop where
  requests : problem'.requests.Perm problem.requests
  candidates : problem'.candidates.Subperm problem.candidates

/-- What the solution of a problem says about the solution after pruning. -/
structure Anticipates (before after : Solution Event) : Prop where
  selected : before.error = .none → after = { before with visited := after.visited }
  noCandidate : before.error = .noCandidate → after.error = .noCandidate
  conflict : before.error = .conflict → after.error = .noCandidate ∨ after.error = .conflict
  visited : after.visited ≤ before.visited

theorem ValidCandidates.of_subperm {validComponent : StringView → Bool}
    {candidates candidates' : List (Candidate Event)}
    (h : ValidCandidates validComponent candidates) (hsubperm : candidates'.Subperm candidates) :
    ValidCandidates validComponent candidates' := by
  obtain ⟨middle, hperm, hsublist⟩ := hsubperm
  have hmiddle : ValidCandidates validComponent middle :=
    ⟨fun candidate hcandidate => h.wellFormed candidate (hsublist.subset hcandidate),
      h.distinct.sublist hsublist⟩
  exact hmiddle.perm hperm

/-- An assignment stands as long as the candidates it assigns do. -/
theorem CompatibleAssignment.of_kept {candidates candidates' : List (Candidate Event)}
    {demands : DemandSummary Event} {rows : List (Request Event)}
    {assignment : List (Candidate Event)}
    (h : CompatibleAssignment candidates demands rows assignment)
    (hkept : ∀ request candidate, (request, candidate) ∈ rows.zip assignment →
      candidate ∈ candidates') :
    CompatibleAssignment candidates' demands rows assignment where
  eligible := by
    obtain ⟨hlength, heligible⟩ := List.forall₂_iff_zip.mp h.eligible
    refine List.forall₂_iff_zip.mpr ⟨hlength, fun {request candidate} hpair => ?_⟩
    exact ⟨hkept request candidate hpair, (heligible hpair).2⟩
  compatible := h.compatible

variable [LinearOrder Event]

/-- The solution gives the candidate's configuration to the candidate's event. -/
def Selects (problem : Problem Event) (solution : Solution Event) (candidate : Candidate Event) :
    Prop :=
  solution.error = .none ∧
    ∃ row ∈ (ascendingRequests problem.requests).zip solution.configurations,
      candidate.request = row.1.event ∧ candidate.configuration = row.2

instance (problem : Problem Event) (solution : Solution Event) (candidate : Candidate Event) :
    Decidable (Selects problem solution candidate) :=
  inferInstanceAs (Decidable (_ ∧ ∃ row ∈ _, _ ∧ _))

theorem sortedCandidates_sublist {validComponent : StringView → Bool}
    {candidates candidates' : List (Candidate Event)}
    (hvalid : ValidCandidates validComponent candidates)
    (hsubperm : candidates'.Subperm candidates) :
    (sortedCandidates candidates').Sublist (sortedCandidates candidates) := by
  have hantisymm : Std.Antisymm fun a b : Candidate Event => sortKey a < sortKey b :=
    ⟨fun _ _ hab hba => absurd hba hab.asymm⟩
  have hsorted : (sortedCandidates candidates').Subperm (sortedCandidates candidates) :=
    ((sortedCandidates_perm candidates').subperm.trans hsubperm).trans
      (sortedCandidates_perm candidates).symm.subperm
  exact List.sublist_of_subperm_of_pairwise hsorted
    (sortedCandidates_strict (ValidCandidates.of_subperm hvalid hsubperm))
    (sortedCandidates_strict hvalid)

section Rows

variable {candidates candidates' : List (Candidate Event)} (demands : DemandSummary Event)

theorem rowColumns_sublists (hsublist : candidates'.Sublist candidates)
    (rows : List (Request Event)) :
    List.Forall₂ List.Sublist (rowColumns candidates' demands rows)
      (rowColumns candidates demands rows) := by
  rw [rowColumns, rowColumns, List.forall₂_map_left_iff, List.forall₂_map_right_iff,
    List.forall₂_same]
  intro request _
  exact (hsublist.filter _).map _

theorem rowColumns_nodup {validComponent : StringView → Bool}
    (hvalid : ValidCandidates validComponent candidates) (rows : List (Request Event)) :
    ∀ row ∈ rowColumns (sortedCandidates candidates) demands rows, row.Nodup := by
  intro row hrow
  apply (rowColumns_preferred hvalid demands rows row hrow).imp
  rintro a b hpreferred rfl
  exact lt_irrefl _ hpreferred

end Rows

section Explore

variable {validComponent : StringView → Bool} {problem problem' : Problem Event}

theorem PrunedFrom.sortedRequests_eq (h : PrunedFrom problem' problem)
    (hevents : DistinctEvents problem.requests) :
    sortedRequests problem'.requests = sortedRequests problem.requests :=
  (sortedRequests_congr hevents h.requests.symm).symm

theorem PrunedFrom.rowColumns_sublists (h : PrunedFrom problem' problem)
    (hvalid : ValidProblem validComponent problem) (demands : DemandSummary Event) :
    List.Forall₂ List.Sublist
      (rowColumns (sortedCandidates problem'.candidates) demands
        (sortedRequests problem'.requests))
      (rowColumns (sortedCandidates problem.candidates) demands
        (sortedRequests problem.requests)) := by
  rw [h.sortedRequests_eq hvalid.events]
  exact InterruptPruning.rowColumns_sublists demands
    (sortedCandidates_sublist hvalid.candidates h.candidates) _

theorem PrunedFrom.exploreProblem_none (h : PrunedFrom problem' problem)
    (hvalid : ValidProblem validComponent problem) {demands : DemandSummary Event}
    (hnone : (exploreProblem problem demands).1 = none) :
    (exploreProblem problem' demands).1 = none ∧
      (exploreProblem problem' demands).2 ≤ (exploreProblem problem demands).2 :=
  explore_none_of_sublists (h.rowColumns_sublists hvalid demands) hnone

theorem PrunedFrom.exploreProblem_some (h : PrunedFrom problem' problem)
    (hvalid : ValidProblem validComponent problem) {demands : DemandSummary Event}
    {selection : List (Column Event)}
    (hsome : (exploreProblem problem demands).1 = some selection)
    (hkept : ∀ request candidate,
      (request, candidate) ∈ (sortedRequests problem.requests).zip (selection.map Prod.fst) →
        candidate ∈ problem'.candidates) :
    (exploreProblem problem' demands).1 = some selection ∧
      (exploreProblem problem' demands).2 ≤ (exploreProblem problem demands).2 := by
  have hselection := explore_sound admits hsome
  obtain ⟨hlength, hcolumns⟩ := eq_columnsOf_of_isSelection _ demands hselection
  have hassignment := CompatibleAssignment.of_kept
    (compatibleAssignment_of_isSelection _ demands hselection)
    fun request candidate hpair =>
      (mem_sortedCandidates problem'.candidates candidate).mpr (hkept request candidate hpair)
  have hpruned := (isSelection_columnsOf_iff _ demands _ _ hlength).mpr hassignment
  rw [← hcolumns, ← h.sortedRequests_eq hvalid.events] at hpruned
  exact explore_some_of_sublists (h.rowColumns_sublists hvalid demands)
    (rowColumns_nodup demands hvalid.candidates _) hpruned.mem hsome

theorem PrunedFrom.diagnose_noCandidate (h : PrunedFrom problem' problem)
    {demands : DemandSummary Event}
    (hnone : diagnose (sortedRequests problem.requests) (sortedCandidates problem.candidates)
      demands = .noCandidate) :
    diagnose (sortedRequests problem'.requests) (sortedCandidates problem'.candidates)
      demands = .noCandidate := by
  simp only [diagnose_eq_noCandidate_iff, mem_sortedRequests, mem_sortedCandidates] at hnone ⊢
  obtain ⟨request, hrequest, hineligible⟩ := hnone
  exact ⟨request, h.requests.mem_iff.mpr hrequest,
    fun candidate hcandidate => hineligible candidate (h.candidates.subset hcandidate)⟩

end Explore

section Solve

variable [Inhabited Event] {validComponent : StringView → Bool} {problem problem' : Problem Event}
  {demands : DemandSummary Event} {budget : UInt32}

theorem solve_visited (hvalid : ValidProblem validComponent problem)
    (demands : DemandSummary Event) (budget : UInt32) :
    (solve validComponent problem demands budget).visited.toNat =
      min (exploreProblem problem demands).2 budget.toNat := by
  rw [solve_of_valid hvalid]
  split_ifs with hcost
  · have hfits : (exploreProblem problem demands).2 < 2 ^ 32 :=
      lt_of_le_of_lt hcost budget.toNat_lt
    rw [min_eq_left hcost]
    cases (exploreProblem problem demands).1 <;> exact UInt32.toNat_ofNat_of_lt' hfits
  · rw [min_eq_right (by omega)]
    rfl

/-- The search behind a diagnosis ran to the end without an answer. -/
theorem exploreProblem_none_of_diagnosed (hvalid : ValidProblem validComponent problem)
    (hnone : (solve validComponent problem demands budget).error ≠ .none)
    (hexhausted : (solve validComponent problem demands budget).error ≠ .exhausted) :
    (exploreProblem problem demands).2 ≤ budget.toNat ∧
      (exploreProblem problem demands).1 = none ∧
      (solve validComponent problem demands budget).error =
        diagnose (sortedRequests problem.requests) (sortedCandidates problem.candidates)
          demands := by
  rw [solve_of_valid hvalid] at hnone hexhausted ⊢
  split_ifs at hnone hexhausted ⊢ with hcost
  · cases hanswer : (exploreProblem problem demands).1 with
    | some selection => simp [hanswer, selectedSolution] at hnone
    | none => exact ⟨hcost, rfl, rfl⟩
  · simp at hexhausted

/-- The candidates of a selection are the ones the solution names. -/
theorem selects_of_mem_zip (hevents : DistinctEvents problem.requests)
    {selection : List (Column Event)} {visited : UInt32}
    (hselection : IsSelection admits (rowColumns (sortedCandidates problem.candidates) demands
      (sortedRequests problem.requests)) [] selection)
    {request : Request Event} {candidate : Candidate Event}
    (hpair : (request, candidate) ∈
      (sortedRequests problem.requests).zip (selection.map Prod.fst)) :
    candidate ∈ problem.candidates ∧
      Selects problem (selectedSolution demands (sortedRequests problem.requests)
        (selection.map Prod.fst) visited) candidate := by
  have hassignment := compatibleAssignment_of_isSelection _ demands hselection
  obtain ⟨hmem, heligible⟩ := (List.forall₂_iff_zip.mp hassignment.eligible).2 hpair
  refine ⟨(mem_sortedCandidates _ _).mp hmem, rfl, (request, candidate.configuration), ?_,
    heligible.event, rfl⟩
  rw [← sortedRequests_eq_ascending hevents]
  show _ ∈ (sortedRequests problem.requests).zip
    ((selection.map Prod.fst).map Candidate.configuration)
  rw [List.zip_map_right]
  exact List.mem_map_of_mem hpair

theorem PrunedFrom.exploreProblem_of_none (hpruned : PrunedFrom problem' problem)
    (hnone : (solve validComponent problem demands budget).error = .none)
    (hkept : ∀ candidate ∈ problem.candidates,
      Selects problem (solve validComponent problem demands budget) candidate →
        candidate ∈ problem'.candidates) :
    (exploreProblem problem' demands).1 = (exploreProblem problem demands).1 ∧
      (exploreProblem problem' demands).2 ≤ (exploreProblem problem demands).2 := by
  obtain ⟨hvalid, selection, visited, hanswer, hsolve⟩ := exists_selection_of_solve_none hnone
  rw [hanswer]
  apply hpruned.exploreProblem_some hvalid hanswer
  intro request candidate hpair
  obtain ⟨hmem, hselects⟩ :=
    selects_of_mem_zip hvalid.events (explore_sound admits hanswer) hpair
  exact hkept candidate hmem (hsolve ▸ hselects)

theorem visited_le_of_cost_le (hvalid : ValidProblem validComponent problem)
    (hvalid' : ValidProblem validComponent problem')
    (hle : (exploreProblem problem' demands).2 ≤ (exploreProblem problem demands).2) :
    (solve validComponent problem' demands budget).visited ≤
      (solve validComponent problem demands budget).visited := by
  rw [UInt32.le_iff_toNat_le, solve_visited hvalid', solve_visited hvalid]
  omega

theorem PrunedFrom.anticipates_of_none (hpruned : PrunedFrom problem' problem)
    (hvalid' : ValidProblem validComponent problem')
    (hnone : (solve validComponent problem demands budget).error = .none)
    (hkept : ∀ candidate ∈ problem.candidates,
      Selects problem (solve validComponent problem demands budget) candidate →
        candidate ∈ problem'.candidates) :
    Anticipates (solve validComponent problem demands budget)
      (solve validComponent problem' demands budget) := by
  obtain ⟨hvalid, selection, visited, hanswer, hsolve⟩ := exists_selection_of_solve_none hnone
  obtain ⟨hsame, hle⟩ := hpruned.exploreProblem_of_none hnone hkept
  have hcost : (exploreProblem problem demands).2 ≤ budget.toNat := by
    by_contra hcost
    rw [solve_of_valid hvalid, if_neg hcost] at hnone
    simp at hnone
  refine ⟨fun _ => ?_, by simp [hnone], by simp [hnone], visited_le_of_cost_le hvalid hvalid' hle⟩
  rw [hsolve, solve_of_valid hvalid', if_pos (hle.trans hcost), hsame, hanswer,
    hpruned.sortedRequests_eq hvalid.events]
  rfl

theorem PrunedFrom.anticipates_of_diagnosed (hpruned : PrunedFrom problem' problem)
    (hvalid : ValidProblem validComponent problem)
    (hvalid' : ValidProblem validComponent problem')
    (hnone : (solve validComponent problem demands budget).error ≠ .none)
    (hexhausted : (solve validComponent problem demands budget).error ≠ .exhausted) :
    Anticipates (solve validComponent problem demands budget)
      (solve validComponent problem' demands budget) := by
  obtain ⟨hcost, hanswer, herror⟩ := exploreProblem_none_of_diagnosed hvalid hnone hexhausted
  obtain ⟨hanswer', hle⟩ := hpruned.exploreProblem_none hvalid hanswer
  have herror' : (solve validComponent problem' demands budget).error =
      diagnose (sortedRequests problem'.requests) (sortedCandidates problem'.candidates)
        demands := by
    rw [solve_of_valid hvalid', if_pos (hle.trans hcost), hanswer']
    rfl
  refine ⟨fun h => absurd h hnone, ?_, fun _ => ?_, visited_le_of_cost_le hvalid hvalid' hle⟩
  · rw [herror, herror']
    exact hpruned.diagnose_noCandidate
  · rw [herror', diagnose]
    split_ifs
    · exact Or.inl rfl
    · exact Or.inr rfl

theorem anticipates_of_exhausted (hvalid : ValidProblem validComponent problem)
    (hvalid' : ValidProblem validComponent problem')
    (hexhausted : (solve validComponent problem demands budget).error = .exhausted) :
    Anticipates (solve validComponent problem demands budget)
      (solve validComponent problem' demands budget) := by
  refine ⟨by simp [hexhausted], by simp [hexhausted], by simp [hexhausted], ?_⟩
  have hcost : ¬(exploreProblem problem demands).2 ≤ budget.toNat := by
    intro hcost
    rw [solve_of_valid hvalid, if_pos hcost] at hexhausted
    split at hexhausted
    · simp [selectedSolution] at hexhausted
    · exact diagnose_ne_exhausted _ _ _ hexhausted
  rw [UInt32.le_iff_toNat_le, solve_visited hvalid', solve_visited hvalid]
  omega

/-- Without candidates it did not select, the solver finds the same solution, and
without any of the candidates of a problem it refuses, it refuses that as well. It
never visits more candidates than before. -/
theorem solve_of_pruned (hvalid : ValidCandidates validComponent problem.candidates)
    (hpruned : PrunedFrom problem' problem)
    (hkept : ∀ candidate ∈ problem.candidates,
      Selects problem (solve validComponent problem demands budget) candidate →
        candidate ∈ problem'.candidates) :
    Anticipates (solve validComponent problem demands budget)
      (solve validComponent problem' demands budget) := by
  by_cases hevents : DistinctEvents problem.requests
  · have hproblem : ValidProblem validComponent problem := ⟨hevents, hvalid⟩
    have hproblem' : ValidProblem validComponent problem' :=
      ⟨hevents.perm hpruned.requests.symm, ValidCandidates.of_subperm hvalid hpruned.candidates⟩
    by_cases hnone : (solve validComponent problem demands budget).error = .none
    · exact hpruned.anticipates_of_none hproblem' hnone hkept
    · by_cases hexhausted : (solve validComponent problem demands budget).error = .exhausted
      · exact anticipates_of_exhausted hproblem hproblem' hexhausted
      · exact hpruned.anticipates_of_diagnosed hproblem hproblem' hnone hexhausted
  · rw [solve_of_duplicateRequest hevents, solve_of_duplicateRequest
      fun h => hevents (h.perm hpruned.requests), hpruned.requests.length_eq]
    exact ⟨fun _ => rfl, nofun, nofun, UInt32.le_refl _⟩

end Solve

/-- The demonstration board, reversed, without the candidates that stay unused. -/
def prunedBoard : Problem Nat where
  requests := boardProblem.requests.reverse
  candidates := [boardCandidate 2 "late" "timer2" "ovf2" 1,
    boardCandidate 1 "fast" "timer1" "ovf1" 0]

theorem prunedBoard_solution :
    Anticipates (solve nonemptyName boardProblem boardDemands 100)
      (solve nonemptyName prunedBoard boardDemands 100) :=
  solve_of_pruned board_validCandidates
    ⟨List.reverse_perm _, List.subperm_of_subset (by decide +kernel) (by decide +kernel)⟩
    (by decide +kernel)

end GrevirPeripherals.InterruptPruning
