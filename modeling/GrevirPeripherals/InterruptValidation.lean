import GrevirPeripherals.InterruptSolver
import Mathlib.Data.List.Pairwise

/-!
What the two sort-and-check loops of the interrupt solver accept, and the arrays
they leave behind.
-/

namespace GrevirPeripherals.InterruptValidation

open GrevirPeripherals.ExchangeSort
open GrevirPeripherals.InterruptModel
open GrevirPeripherals.InterruptSolver
open GrevirPeripherals.OrderedChecks
open GrevirPeripherals.StandardSort
open GrevirPeripherals.Strings

variable {Event : Type}

/-- The requests name pairwise different events. -/
def DistinctEvents (requests : List (Request Event)) : Prop :=
  requests.Pairwise fun a b => a.event ≠ b.event

instance [DecidableEq Event] (requests : List (Request Event)) :
    Decidable (DistinctEvents requests) :=
  inferInstanceAs (Decidable (requests.Pairwise _))

theorem DistinctEvents.perm {requests requests' : List (Request Event)}
    (h : DistinctEvents requests) (hperm : requests.Perm requests') : DistinctEvents requests' :=
  hperm.pairwise h fun hab => hab.symm

theorem DistinctEvents.eq_of_event_eq {requests : List (Request Event)}
    (h : DistinctEvents requests) {a b : Request Event} (ha : a ∈ requests) (hb : b ∈ requests)
    (hevent : a.event = b.event) : a = b := by
  have : Std.Symm fun a b : Request Event => a.event ≠ b.event := ⟨fun _ _ hab => hab.symm⟩
  by_contra hne
  exact List.Pairwise.forall h ha hb hne hevent

/-- The candidates pass the component checks and no two of them offer the same
configuration for the same request. -/
structure ValidCandidates (validComponent : StringView → Bool)
    (candidates : List (Candidate Event)) : Prop where
  wellFormed : ∀ candidate ∈ candidates, wellFormed validComponent candidate = true
  distinct : candidates.Pairwise fun a b =>
    ¬(a.request = b.request ∧ a.configuration = b.configuration)

theorem ValidCandidates.perm {validComponent : StringView → Bool}
    {candidates candidates' : List (Candidate Event)}
    (h : ValidCandidates validComponent candidates) (hperm : candidates.Perm candidates') :
    ValidCandidates validComponent candidates' where
  wellFormed candidate hcandidate := h.wellFormed candidate (hperm.mem_iff.mpr hcandidate)
  distinct := hperm.pairwise h.distinct fun hab hba => hab ⟨hba.1.symm, hba.2.symm⟩

theorem ValidCandidates.eq_of_configuration_eq {validComponent : StringView → Bool}
    {candidates : List (Candidate Event)} (h : ValidCandidates validComponent candidates)
    {a b : Candidate Event} (ha : a ∈ candidates) (hb : b ∈ candidates)
    (hrequest : a.request = b.request) (hconfiguration : a.configuration = b.configuration) :
    a = b := by
  have : Std.Symm fun a b : Candidate Event =>
      ¬(a.request = b.request ∧ a.configuration = b.configuration) :=
    ⟨fun _ _ hab hba => hab ⟨hba.1.symm, hba.2.symm⟩⟩
  by_contra hne
  exact h.distinct.forall ha hb hne ⟨hrequest, hconfiguration⟩

/-- Distinct configurations make the sort key tell candidates apart. -/
theorem ValidCandidates.eq_of_sortKey_eq {validComponent : StringView → Bool}
    {candidates : List (Candidate Event)} (h : ValidCandidates validComponent candidates)
    {a b : Candidate Event} (ha : a ∈ candidates) (hb : b ∈ candidates)
    (hkey : sortKey a = sortKey b) : a = b := by
  obtain ⟨hrequest, -, -, hconfiguration⟩ := (sortKey_eq_iff a b).mp hkey
  exact h.eq_of_configuration_eq ha hb hrequest hconfiguration

variable [LinearOrder Event]

/-- The rows of the solver: the requests in ascending event order. -/
def sortedRequests (requests : List (Request Event)) : List (Request Event) :=
  exchangeSort (byKey Request.event) requests

def sortedCandidates (candidates : List (Candidate Event)) : List (Candidate Event) :=
  exchangeSort less candidates

theorem sortedRequests_perm (requests : List (Request Event)) :
    (sortedRequests requests).Perm requests :=
  exchangeSort_perm _ requests

theorem sortedCandidates_perm (candidates : List (Candidate Event)) :
    (sortedCandidates candidates).Perm candidates :=
  exchangeSort_perm _ candidates

@[simp]
theorem sortedRequests_length (requests : List (Request Event)) :
    (sortedRequests requests).length = requests.length :=
  (sortedRequests_perm requests).length_eq

@[simp]
theorem mem_sortedRequests (requests : List (Request Event)) (request : Request Event) :
    request ∈ sortedRequests requests ↔ request ∈ requests :=
  (sortedRequests_perm requests).mem_iff

@[simp]
theorem mem_sortedCandidates (candidates : List (Candidate Event)) (candidate : Candidate Event) :
    candidate ∈ sortedCandidates candidates ↔ candidate ∈ candidates :=
  (sortedCandidates_perm candidates).mem_iff

theorem sortedRequests_ascending (requests : List (Request Event)) :
    (sortedRequests requests).Pairwise fun a b => a.event ≤ b.event :=
  exchangeSort_ascending Request.event requests

theorem sortedCandidates_ascending (candidates : List (Candidate Event)) :
    (sortedCandidates candidates).Pairwise fun a b => sortKey a ≤ sortKey b := by
  rw [sortedCandidates, less_eq_byKey]
  exact exchangeSort_ascending sortKey candidates

/-- Comparing each placed request with its predecessor alone finds every duplicate. -/
theorem adjacent_distinct_iff {requests : List (Request Event)}
    (hascending : requests.Pairwise fun a b => a.event ≤ b.event) :
    (∀ placed request rest, requests = placed ++ request :: rest →
      checkRequest placed request = .ok ()) ↔ DistinctEvents requests := by
  constructor
  · intro hchecked
    apply pairwise_ne_of_adjacent hascending
    intro placed request rest hsplit previous hlast heq
    have hcheck := hchecked placed request rest hsplit
    simp [checkRequest, hlast, heq] at hcheck
  · rintro hdistinct placed request rest rfl
    rw [checkRequest]
    split
    next previous hprevious =>
      have hne := (List.pairwise_append.mp hdistinct).2.2 previous
        (List.mem_of_getLast? hprevious) request (by simp)
      simp [hne]
    next => rfl

theorem checkRequest_error {placed : List (Request Event)} {request : Request Event}
    {error : Error} (h : checkRequest placed request = .error error) :
    error = .duplicateRequest := by
  rw [checkRequest] at h
  split at h
  · split at h <;> simp_all
  · simp at h

theorem sortRequests_eq (requests : List (Request Event)) :
    sortRequests requests =
      if DistinctEvents requests then .ok (sortedRequests requests)
      else .error .duplicateRequest := by
  have heq : sortRequests requests =
      checkInOrder checkRequest [] (sortedRequests requests) :=
    exchangeCheck_eq _ checkRequest [] requests
  have hdistinct : DistinctEvents (sortedRequests requests) ↔ DistinctEvents requests :=
    ⟨fun h => h.perm (sortedRequests_perm requests),
      fun h => h.perm (sortedRequests_perm requests).symm⟩
  have hchecked := adjacent_distinct_iff (sortedRequests_ascending requests)
  rw [heq]
  split_ifs with h
  · rw [checkInOrder_eq_ok_iff]
    exact ⟨rfl, hchecked.mpr (hdistinct.mpr h)⟩
  · cases hresult : checkInOrder checkRequest [] (sortedRequests requests) with
    | ok sorted =>
        rw [checkInOrder_eq_ok_iff] at hresult
        exact absurd (hdistinct.mp (hchecked.mp hresult.2)) h
    | error error =>
        obtain ⟨_, _, _, _, herror, _⟩ := (checkInOrder_eq_error_iff _ _ _ _).mp hresult
        rw [checkRequest_error herror]

theorem checkCandidate_eq_ok_iff (validComponent : StringView → Bool)
    (placed : List (Candidate Event)) (candidate : Candidate Event) :
    checkCandidate validComponent placed candidate = .ok () ↔
      wellFormed validComponent candidate = true ∧
        ∀ other ∈ placed, ¬(other.request = candidate.request ∧
          other.configuration = candidate.configuration) := by
  rw [checkCandidate]
  split_ifs with hformed hany
  · simp_all
  · rw [List.any_eq_true] at hany
    obtain ⟨other, hother, hsame⟩ := hany
    simp only [sameConfiguration, Bool.and_eq_true, decide_eq_true_eq] at hsame
    simp only [false_iff, not_and]
    intro _ hall
    exact hall other hother hsame.1.symm hsame.2.symm
  · simp only [true_iff]
    refine ⟨by simpa using hformed, ?_⟩
    rintro other hother ⟨hrequest, hconfiguration⟩
    apply hany
    rw [List.any_eq_true]
    exact ⟨other, hother, by simp [sameConfiguration, hrequest, hconfiguration]⟩

theorem checked_candidates_iff (validComponent : StringView → Bool)
    (candidates : List (Candidate Event)) :
    (∀ placed candidate rest, candidates = placed ++ candidate :: rest →
      checkCandidate validComponent placed candidate = .ok ()) ↔
        ValidCandidates validComponent candidates := by
  constructor
  · intro hchecked
    constructor
    · intro candidate hcandidate
      obtain ⟨placed, rest, hsplit⟩ := List.append_of_mem hcandidate
      exact ((checkCandidate_eq_ok_iff _ _ _).mp (hchecked _ _ _ hsplit)).1
    · rw [List.pairwise_iff_getElem]
      intro i j hi hj hij
      have hsplit : candidates = candidates.take j ++ candidates[j] :: candidates.drop (j + 1) := by
        rw [List.getElem_cons_drop, List.take_append_drop]
      apply ((checkCandidate_eq_ok_iff _ _ _).mp (hchecked _ _ _ hsplit)).2
      exact List.mem_take_iff_getElem.mpr ⟨i, by omega, rfl⟩
  · rintro hvalid placed candidate rest rfl
    rw [checkCandidate_eq_ok_iff]
    refine ⟨hvalid.wellFormed candidate (by simp), ?_⟩
    intro other hother
    exact (List.pairwise_append.mp hvalid.distinct).2.2 other hother candidate (by simp)

theorem sortCandidates_eq_checkInOrder (validComponent : StringView → Bool)
    (candidates : List (Candidate Event)) :
    sortCandidates validComponent candidates =
      checkInOrder (checkCandidate validComponent) [] (sortedCandidates candidates) :=
  exchangeCheck_eq less (checkCandidate validComponent) [] candidates

theorem sortCandidates_eq_ok_iff (validComponent : StringView → Bool)
    (candidates sorted : List (Candidate Event)) :
    sortCandidates validComponent candidates = .ok sorted ↔
      sorted = sortedCandidates candidates ∧ ValidCandidates validComponent candidates := by
  rw [sortCandidates_eq_checkInOrder, checkInOrder_eq_ok_iff]
  simp only [List.nil_append]
  rw [checked_candidates_iff]
  constructor
  · rintro ⟨hsorted, hvalid⟩
    exact ⟨hsorted, hvalid.perm (sortedCandidates_perm candidates)⟩
  · rintro ⟨hsorted, hvalid⟩
    exact ⟨hsorted, hvalid.perm (sortedCandidates_perm candidates).symm⟩

theorem checkCandidate_error {validComponent : StringView → Bool}
    {placed : List (Candidate Event)} {candidate : Candidate Event} {error : Error}
    (h : checkCandidate validComponent placed candidate = .error error) :
    error = .invalidModel ∨ error = .duplicateCandidate := by
  rw [checkCandidate] at h
  split_ifs at h <;> simp_all

theorem sortCandidates_error {validComponent : StringView → Bool}
    {candidates : List (Candidate Event)} {error : Error}
    (h : sortCandidates validComponent candidates = .error error) :
    error = .invalidModel ∨ error = .duplicateCandidate := by
  rw [sortCandidates_eq_checkInOrder, checkInOrder_eq_error_iff] at h
  obtain ⟨_, _, _, _, herror, _⟩ := h
  exact checkCandidate_error herror

/-- The candidate array is sorted in the only way its keys allow. -/
theorem sortedCandidates_congr {validComponent : StringView → Bool}
    {candidates candidates' : List (Candidate Event)}
    (hvalid : ValidCandidates validComponent candidates) (hperm : candidates.Perm candidates') :
    sortedCandidates candidates = sortedCandidates candidates' := by
  rw [sortedCandidates, sortedCandidates, less_eq_byKey]
  apply exchangeSort_congr sortKey hperm
  intro a ha b hb
  exact hvalid.eq_of_sortKey_eq ha hb

theorem sortedRequests_congr {requests requests' : List (Request Event)}
    (hdistinct : DistinctEvents requests) (hperm : requests.Perm requests') :
    sortedRequests requests = sortedRequests requests' := by
  apply exchangeSort_congr Request.event hperm
  intro a ha b hb
  exact hdistinct.eq_of_event_eq ha hb

theorem sortedRequests_strict {requests : List (Request Event)}
    (hdistinct : DistinctEvents requests) :
    (sortedRequests requests).Pairwise fun a b => a.event < b.event := by
  have hsorted := hdistinct.perm (sortedRequests_perm requests).symm
  exact (sortedRequests_ascending requests).imp₂ (fun _ _ => lt_of_le_of_ne) hsorted

end GrevirPeripherals.InterruptValidation
