import GrevirPeripherals.InterruptPruning
import GrevirPeripherals.SearchEffort

/-!
The work of the interrupt solver: how large a budget rules out that it gives up, and when it
visits that many candidates before it fails.
-/

namespace GrevirPeripherals.InterruptEffort

open GrevirPeripherals.InterruptDiagnosis
open GrevirPeripherals.InterruptModel
open GrevirPeripherals.InterruptPruning (solve_visited)
open GrevirPeripherals.InterruptSearch
open GrevirPeripherals.InterruptSelection
open GrevirPeripherals.InterruptSolution
open GrevirPeripherals.InterruptSolver
open GrevirPeripherals.InterruptValidation
open GrevirPeripherals.SearchEffort
open GrevirPeripherals.Strings

variable {Event : Type}

/-- Candidates of different requests never get in each other's way. -/
def Independent (problem : Problem Event) (demands : DemandSummary Event) : Prop :=
  ∀ r ∈ problem.requests, ∀ r' ∈ problem.requests, r.event ≠ r'.event →
    ∀ c ∈ problem.candidates, ∀ c' ∈ problem.candidates,
      Eligible demands r c → Eligible demands r' c' → Compatible demands (r, c) (r', c')

variable [LinearOrder Event]

/-- How many candidates the filter of the search lets through for a request. -/
def choices (problem : Problem Event) (demands : DemandSummary Event)
    (request : Request Event) : Nat :=
  (problem.candidates.filter (eligible request (demanded demands request.event))).length

/-- The choices of the requests, in the order in which the search goes through them. -/
def branching (problem : Problem Event) (demands : DemandSummary Event) : List Nat :=
  (ascendingRequests problem.requests).map (choices problem demands)

section Rows

variable {problem : Problem Event} {demands : DemandSummary Event}

theorem length_branching (problem : Problem Event) (demands : DemandSummary Event) :
    (branching problem demands).length = problem.requests.length := by
  rw [branching, List.length_map, ascendingRequests, List.length_insertionSort]

theorem mem_ascendingRequests {requests : List (Request Event)} {request : Request Event} :
    request ∈ ascendingRequests requests ↔ request ∈ requests :=
  (List.perm_insertionSort _ requests).mem_iff

theorem choices_eq_zero_iff (request : Request Event) :
    choices problem demands request = 0 ↔
      ∀ candidate ∈ problem.candidates, ¬Eligible demands request candidate := by
  rw [choices, List.length_eq_zero_iff, List.filter_eq_nil_iff]
  simp only [eligible_iff]

/-- Sorting the arrays does not change how many candidates a row has. -/
theorem map_length_rowColumns (hevents : DistinctEvents problem.requests) :
    (rowColumns (sortedCandidates problem.candidates) demands
      (sortedRequests problem.requests)).map List.length = branching problem demands := by
  rw [rowColumns, List.map_map, branching, sortedRequests_eq_ascending hevents]
  apply List.map_congr_left
  intro request _
  have hperm := (sortedCandidates_perm problem.candidates).filter
    (eligible request (demanded demands request.event))
  exact (List.length_map _).trans hperm.length_eq

theorem exploreProblem_cost_le (hevents : DistinctEvents problem.requests)
    (demands : DemandSummary Event) :
    (exploreProblem problem demands).2 ≤ treeSize (branching problem demands) := by
  rw [← map_length_rowColumns hevents]
  exact explore_cost_le _ []

/-- In a row stand the candidates that can serve its request. -/
theorem eligible_of_mem_row {request : Request Event} {column : Column Event}
    (h : column ∈ ((sortedCandidates problem.candidates).filter
      (eligible request (demanded demands request.event))).map fun candidate =>
        (candidate, demanded demands request.event)) :
    column.1 ∈ problem.candidates ∧ Eligible demands request column.1 ∧
      column.2 = demanded demands request.event := by
  obtain ⟨candidate, hcandidate, rfl⟩ := List.mem_map.mp h
  obtain ⟨hmem, heligible⟩ := List.mem_filter.mp hcandidate
  exact ⟨(mem_sortedCandidates _ _).mp hmem, (eligible_iff _ _ _).mp heligible, rfl⟩

/-- Independent candidates make the search go through all of them before it reaches a
request that has none. -/
theorem exploreProblem_of_independent (hevents : DistinctEvents problem.requests)
    (hindependent : Independent problem demands)
    (hnone : ∃ request ∈ problem.requests, choices problem demands request = 0) :
    exploreProblem problem demands = (none, treeSize (branching problem demands)) := by
  rw [← map_length_rowColumns hevents]
  apply explore_cost_eq
  case hadmits =>
    rw [rowColumns, List.pairwise_map]
    have hsorted := hevents.perm (sortedRequests_perm problem.requests).symm
    apply List.Pairwise.imp_of_mem ?_ hsorted
    intro r r' hr hr' hne a ha b hb
    obtain ⟨hmem, heligible, hdemanded⟩ := eligible_of_mem_row ha
    obtain ⟨hmem', heligible', hdemanded'⟩ := eligible_of_mem_row hb
    have hcompatible := hindependent r ((mem_sortedRequests _ _).mp hr) r'
      ((mem_sortedRequests _ _).mp hr') hne _ hmem _ hmem' heligible heligible'
    have hadmits := (admits_iff demands (r, a.1) (r', b.1)).mpr hcompatible
    rwa [← hdemanded, ← hdemanded'] at hadmits
  case hempty =>
    obtain ⟨request, hrequest, hzero⟩ := hnone
    refine List.mem_map.mpr ⟨request, (mem_sortedRequests _ _).mpr hrequest, ?_⟩
    rw [List.map_eq_nil_iff, List.filter_eq_nil_iff]
    intro candidate hcandidate heligible
    exact (choices_eq_zero_iff request).mp hzero candidate
      ((mem_sortedCandidates _ _).mp hcandidate) ((eligible_iff _ _ _).mp heligible)
  case hchosen => simp

end Rows

section Solve

variable [Inhabited Event] (validComponent : StringView → Bool) (problem : Problem Event)
  (demands : DemandSummary Event) (budget : UInt32)

/-- What a solution costs, and what a budget is good for. -/
structure Effort : Prop where
  within : (solve validComponent problem demands budget).visited.toNat ≤
    treeSize (branching problem demands)
  enough : treeSize (branching problem demands) ≤ budget.toNat →
    (solve validComponent problem demands budget).error ≠ .exhausted
  uniform : ∀ k, (∀ request ∈ problem.requests, choices problem demands request ≤ k) →
    ∑ i ∈ Finset.range problem.requests.length, k ^ (i + 1) ≤ budget.toNat →
      (solve validComponent problem demands budget).error ≠ .exhausted
  attained : ValidProblem validComponent problem → Independent problem demands →
    (∃ request ∈ problem.requests, choices problem demands request = 0) →
      treeSize (branching problem demands) ≤ budget.toNat →
        (solve validComponent problem demands budget).error = .noCandidate ∧
          (solve validComponent problem demands budget).visited.toNat =
            treeSize (branching problem demands)

variable {validComponent problem}

/-- A problem that is not accepted is turned down without a search. -/
theorem solve_of_invalid (h : ¬ValidProblem validComponent problem) :
    (solve validComponent problem demands budget).visited = 0 ∧
      (solve validComponent problem demands budget).error ≠ .exhausted := by
  by_cases hevents : DistinctEvents problem.requests
  · have hcandidates : ¬ValidCandidates validComponent problem.candidates :=
      fun hcandidates => h ⟨hevents, hcandidates⟩
    obtain ⟨error, herror, hsolve⟩ := solve_of_invalidCandidates hevents hcandidates
    rw [hsolve]
    refine ⟨rfl, ?_⟩
    rcases herror with rfl | rfl <;> simp
  · rw [solve_of_duplicateRequest hevents]
    exact ⟨rfl, by simp⟩

theorem visited_le_treeSize :
    (solve validComponent problem demands budget).visited.toNat ≤
      treeSize (branching problem demands) := by
  by_cases hvalid : ValidProblem validComponent problem
  · rw [solve_visited hvalid]
    exact (Nat.min_le_left _ _).trans (exploreProblem_cost_le hvalid.events demands)
  · rw [(solve_of_invalid demands budget hvalid).1]
    exact Nat.zero_le _

variable {demands budget}

theorem error_ne_exhausted (h : treeSize (branching problem demands) ≤ budget.toNat) :
    (solve validComponent problem demands budget).error ≠ .exhausted := by
  by_cases hvalid : ValidProblem validComponent problem
  · have hcost := (exploreProblem_cost_le hvalid.events demands).trans h
    rw [solve_of_valid hvalid, if_pos hcost]
    cases (exploreProblem problem demands).1 with
    | some selection => simp [selectedSolution]
    | none => exact diagnose_ne_exhausted _ _ _
  · exact (solve_of_invalid demands budget hvalid).2

variable (validComponent problem demands budget)

/-- The search never visits more candidates than the tree of the choices has nodes, so that a
budget of this size is never exhausted, and independent candidates can make it visit as many. -/
theorem solve_effort : Effort validComponent problem demands budget := by
  constructor
  case within => exact visited_le_treeSize demands budget
  case enough => exact error_ne_exhausted
  case uniform =>
    intro k hk hsum
    have hle : ∀ n ∈ branching problem demands, n ≤ k := by
      intro n hn
      obtain ⟨request, hrequest, rfl⟩ := List.mem_map.mp hn
      exact hk request (mem_ascendingRequests.mp hrequest)
    have htree := treeSize_le_sum hle
    rw [length_branching] at htree
    exact error_ne_exhausted (htree.trans hsum)
  case attained =>
    intro hvalid hindependent hnone hbudget
    have hexplore := exploreProblem_of_independent hvalid.events hindependent hnone
    have hdiagnose : diagnose (sortedRequests problem.requests)
        (sortedCandidates problem.candidates) demands = .noCandidate := by
      obtain ⟨request, hrequest, hzero⟩ := hnone
      rw [diagnose_eq_noCandidate_iff]
      refine ⟨request, (mem_sortedRequests _ _).mpr hrequest, ?_⟩
      intro candidate hcandidate
      exact (choices_eq_zero_iff request).mp hzero candidate
        ((mem_sortedCandidates _ _).mp hcandidate)
    constructor
    · rw [solve_of_valid hvalid, hexplore, if_pos hbudget]
      exact hdiagnose
    · rw [solve_visited hvalid, hexplore]
      exact Nat.min_eq_left hbudget

/-- Sixteen choices for each of four requests are within the default budget. -/
example : treeSize [16, 16, 16, 16] ≤ 100000 := by
  decide

end Solve

end GrevirPeripherals.InterruptEffort
