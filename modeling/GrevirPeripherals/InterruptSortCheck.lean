import GrevirPeripherals.InterruptSolution

/-!
Which problems the two sort-and-check loops of the interrupt solver refuse, in terms of
the positions of the arrays as they were presented, and what the loops leave behind.
-/

namespace GrevirPeripherals.InterruptSortCheck

open GrevirPeripherals.InterruptModel
open GrevirPeripherals.InterruptSolution
open GrevirPeripherals.InterruptSolver
open GrevirPeripherals.InterruptValidation
open GrevirPeripherals.Strings

variable {Event : Type}

section Defects

/-- The relation holds between the values at two different positions. -/
def AtTwoPositions {α : Type} (R : α → α → Prop) (l : List α) : Prop :=
  ∃ (i j : Nat) (a b : α), i < j ∧ l[i]? = some a ∧ l[j]? = some b ∧ R a b

theorem atTwoPositions_iff {α : Type} (R : α → α → Prop) (l : List α) :
    AtTwoPositions R l ↔ ¬l.Pairwise fun a b => ¬R a b := by
  rw [List.pairwise_iff_getElem]
  push Not
  constructor
  · rintro ⟨i, j, a, b, hij, hia, hjb, hR⟩
    obtain ⟨hi, rfl⟩ := List.getElem?_eq_some_iff.mp hia
    obtain ⟨hj, rfl⟩ := List.getElem?_eq_some_iff.mp hjb
    exact ⟨i, j, hi, hj, hij, hR⟩
  · rintro ⟨i, j, hi, hj, hij, hR⟩
    exact ⟨i, j, l[i], l[j], hij, List.getElem?_eq_getElem hi, List.getElem?_eq_getElem hj, hR⟩

def RepeatedEvent (requests : List (Request Event)) : Prop :=
  AtTwoPositions (fun a b => a.event = b.event) requests

/-- The components that every candidate names. -/
def ownComponents (candidate : Candidate Event) : List StringView :=
  [candidate.configuration, candidate.timer, candidate.owner]

/-- The components that a candidate with a period event names as well. -/
def eventComponents (candidate : Candidate Event) : List StringView :=
  [candidate.source, candidate.selector, candidate.entry, candidate.snapshotPolicy,
    candidate.acknowledgePolicy]

def Malformed (validComponent : StringView → Bool) (candidate : Candidate Event) : Prop :=
  (∃ component ∈ ownComponents candidate, validComponent component = false) ∨
    (candidate.periodEvent = true ∧
      ∃ component ∈ eventComponents candidate, validComponent component = false)

def SharesConfiguration (a b : Candidate Event) : Prop :=
  a.request = b.request ∧ a.configuration = b.configuration

/-- Candidates with one sort key share their configuration. -/
theorem sharesConfiguration_of_sortKey_eq {a b : Candidate Event} (h : sortKey a = sortKey b) :
    SharesConfiguration a b := by
  obtain ⟨hrequest, -, -, hconfiguration⟩ := (sortKey_eq_iff a b).mp h
  exact ⟨hrequest, hconfiguration⟩

/-- What the second loop refuses. -/
def Defective (validComponent : StringView → Bool) (candidates : List (Candidate Event)) : Prop :=
  (∃ candidate ∈ candidates, Malformed validComponent candidate) ∨
    AtTwoPositions SharesConfiguration candidates

theorem wellFormed_eq_false_iff (validComponent : StringView → Bool)
    (candidate : Candidate Event) :
    wellFormed validComponent candidate = false ↔ Malformed validComponent candidate := by
  simp only [wellFormed, Malformed, ownComponents, eventComponents, Bool.not_eq_false',
    Bool.or_eq_true, Bool.and_eq_true, Bool.not_eq_true', List.exists_mem_cons_iff,
    List.not_mem_nil, false_and, exists_false, or_false, or_assoc]

theorem repeatedEvent_iff (requests : List (Request Event)) :
    RepeatedEvent requests ↔ ¬DistinctEvents requests :=
  atTwoPositions_iff _ requests

theorem defective_iff (validComponent : StringView → Bool)
    (candidates : List (Candidate Event)) :
    Defective validComponent candidates ↔ ¬ValidCandidates validComponent candidates := by
  have hformed : (∃ candidate ∈ candidates, Malformed validComponent candidate) ↔
      ¬∀ candidate ∈ candidates, wellFormed validComponent candidate = true := by
    simp only [← wellFormed_eq_false_iff, not_forall, Bool.not_eq_true, exists_prop]
  rw [Defective, hformed, atTwoPositions_iff, ← not_and_or, not_iff_not]
  exact ⟨fun h => ⟨h.1, h.2⟩, fun h => ⟨h.wellFormed, h.distinct⟩⟩

end Defects

variable [LinearOrder Event]

theorem diagnose_cases (requests : List (Request Event)) (candidates : List (Candidate Event))
    (demands : DemandSummary Event) :
    diagnose requests candidates demands = .noCandidate ∨
      diagnose requests candidates demands = .conflict := by
  rw [diagnose]
  split
  · exact Or.inl rfl
  · exact Or.inr rfl

/-- The errors of the two loops. -/
def Refusal (error : Error) : Prop :=
  error = .duplicateRequest ∨ error = .invalidModel ∨ error = .duplicateCandidate

/-- The first loop returns the requests in order, or finds an event repeated. -/
theorem sortRequests_eq_ok_iff (requests sorted : List (Request Event)) :
    sortRequests requests = .ok sorted ↔
      sorted = sortedRequests requests ∧ DistinctEvents requests := by
  rw [sortRequests_eq]
  split_ifs with hevents
  · constructor
    · intro h
      exact ⟨(Except.ok.inj h).symm, hevents⟩
    · rintro ⟨rfl, -⟩
      rfl
  · exact iff_of_false (by simp) fun h => hevents h.2

theorem sortRequests_strict {requests sorted : List (Request Event)}
    (h : sortRequests requests = .ok sorted) :
    sorted.Perm requests ∧ sorted.Pairwise fun a b => a.event < b.event := by
  obtain ⟨rfl, hevents⟩ := (sortRequests_eq_ok_iff requests sorted).mp h
  exact ⟨sortedRequests_perm requests, sortedRequests_strict hevents⟩

theorem sortCandidates_ascending {validComponent : StringView → Bool}
    {candidates sorted : List (Candidate Event)}
    (h : sortCandidates validComponent candidates = .ok sorted) :
    sorted.Perm candidates ∧ sorted.Pairwise fun a b => sortKey a ≤ sortKey b := by
  obtain ⟨rfl, -⟩ := (sortCandidates_eq_ok_iff validComponent candidates sorted).mp h
  exact ⟨sortedCandidates_perm candidates, sortedCandidates_ascending candidates⟩

/-- A problem gets past both loops exactly when it has neither defect. -/
theorem passes_iff (validComponent : StringView → Bool) (problem : Problem Event) :
    ¬RepeatedEvent problem.requests ∧ ¬Defective validComponent problem.candidates ↔
      ∃ requests candidates, sortRequests problem.requests = .ok requests ∧
        sortCandidates validComponent problem.candidates = .ok candidates := by
  rw [repeatedEvent_iff, defective_iff, not_not, not_not]
  simp only [sortRequests_eq_ok_iff, sortCandidates_eq_ok_iff]
  constructor
  · rintro ⟨hevents, hvalid⟩
    exact ⟨_, _, ⟨rfl, hevents⟩, rfl, hvalid⟩
  · rintro ⟨requests, candidates, ⟨-, hevents⟩, -, hvalid⟩
    exact ⟨hevents, hvalid⟩

variable [Inhabited Event]

/-- What comes after the two loops has errors of its own. -/
theorem not_refusal_of_valid {validComponent : StringView → Bool} {problem : Problem Event}
    (h : ValidProblem validComponent problem) (demands : DemandSummary Event) (budget : UInt32) :
    ¬Refusal (solve validComponent problem demands budget).error := by
  rw [solve_of_valid h]
  split_ifs with hcost
  · cases (exploreProblem problem demands).1 with
    | some selection => simp [Refusal, selectedSolution]
    | none =>
        rcases diagnose_cases (sortedRequests problem.requests)
          (sortedCandidates problem.candidates) demands with hdiagnose | hdiagnose <;>
          simp [Refusal, hdiagnose]
  · simp [Refusal]

/-- The exact meaning of the two validation loops for one problem. -/
structure ValidationExact (validComponent : StringView → Bool) (problem : Problem Event)
    (error : Error) : Prop where
  requests : error = .duplicateRequest ↔ RepeatedEvent problem.requests
  candidates : error = .invalidModel ∨ error = .duplicateCandidate ↔
    ¬RepeatedEvent problem.requests ∧ Defective validComponent problem.candidates
  passed : ¬RepeatedEvent problem.requests ∧ ¬Defective validComponent problem.candidates ↔
    ∃ requests candidates, sortRequests problem.requests = .ok requests ∧
      sortCandidates validComponent problem.candidates = .ok candidates
  sortedRequests : ∀ requests, sortRequests problem.requests = .ok requests →
    requests.Perm problem.requests ∧ requests.Pairwise fun a b => a.event < b.event
  sortedCandidates : ∀ candidates,
    sortCandidates validComponent problem.candidates = .ok candidates →
      candidates.Perm problem.candidates ∧ candidates.Pairwise fun a b => sortKey a ≤ sortKey b

/-- The interleaved checks miss no defect and report none that is not there, and a problem
that passes them leaves the loops with both arrays in order. -/
theorem solve_validation_exact (validComponent : StringView → Bool) (problem : Problem Event)
    (demands : DemandSummary Event) (budget : UInt32) :
    ValidationExact validComponent problem
      (solve validComponent problem demands budget).error := by
  have hpassed := passes_iff validComponent problem
  have hrequests : ∀ requests, sortRequests problem.requests = .ok requests →
      requests.Perm problem.requests ∧ requests.Pairwise fun a b => a.event < b.event :=
    fun _ => sortRequests_strict
  have hcandidates : ∀ candidates,
      sortCandidates validComponent problem.candidates = .ok candidates →
        candidates.Perm problem.candidates ∧
          candidates.Pairwise fun a b => sortKey a ≤ sortKey b :=
    fun _ => sortCandidates_ascending
  by_cases hevents : DistinctEvents problem.requests
  · have hrepeated : ¬RepeatedEvent problem.requests := by
      rw [repeatedEvent_iff, not_not]
      exact hevents
    by_cases hvalid : ValidCandidates validComponent problem.candidates
    · have hrefusal := not_refusal_of_valid ⟨hevents, hvalid⟩ demands budget
      rw [Refusal, not_or] at hrefusal
      have hdefective : ¬Defective validComponent problem.candidates := by
        rw [defective_iff, not_not]
        exact hvalid
      exact ⟨iff_of_false hrefusal.1 hrepeated,
        iff_of_false hrefusal.2 fun h => hdefective h.2, hpassed, hrequests, hcandidates⟩
    · obtain ⟨error, herror, hsolve⟩ := solve_of_invalidCandidates hevents hvalid
      have hdefective := (defective_iff validComponent problem.candidates).mpr hvalid
      rw [hsolve, failedSolution_error]
      refine ⟨iff_of_false ?_ hrepeated, iff_of_true herror ⟨hrepeated, hdefective⟩, hpassed,
        hrequests, hcandidates⟩
      rcases herror with rfl | rfl <;> simp
  · have hrepeated := (repeatedEvent_iff problem.requests).mpr hevents
    rw [solve_of_duplicateRequest hevents, failedSolution_error]
    exact ⟨iff_of_true rfl hrepeated, iff_of_false (by simp) fun h => h.1 hrepeated, hpassed,
      hrequests, hcandidates⟩

end GrevirPeripherals.InterruptSortCheck
