import GrevirPeripherals.ChoiceProblems
import GrevirPeripherals.OwnerSoundness

/-!
The owner allocator as a solver of choice problems: owners choose among the candidates
that fit them and hold nothing reserved, and what the allocator says about them is exact.
-/

namespace GrevirPeripherals.OwnerVerdict

open GrevirPeripherals.AllocationSearch
open GrevirPeripherals.ChoiceProblems
open GrevirPeripherals.OwnerAllocation
open GrevirPeripherals.OwnerAllocator
open GrevirPeripherals.OwnerEligibility
open GrevirPeripherals.OwnerModel
open GrevirPeripherals.OwnerSolution
open GrevirPeripherals.OwnerValidation
open GrevirPeripherals.StandardSort
open GrevirPeripherals.Strings

variable {Identity : Type}

/-- The choice that a problem leaves to its owners. -/
def choiceProblem (p : Problem Identity) : ChoiceProblem StringView (Candidate Identity) where
  users := {owner | ∃ demand ∈ p.demands, demand.key.owner = owner}
  admits owner c := c ∈ p.candidates ∧ Fitting p.demands owner c ∧ Unreserved p.reservations c
  compatible _ _ a b := DisjointResources a b

theorem solves_iff_allocation (p : Problem Identity) (choice : StringView → Candidate Identity) :
    (choiceProblem p).Solves choice ↔ Allocation p choice := by
  constructor
  · rintro ⟨hadmits, hcompatible⟩
    exact ⟨fun demand hdemand => (hadmits _ ⟨demand, hdemand, rfl⟩).1,
      fun demand hdemand => (hadmits _ ⟨demand, hdemand, rfl⟩).2.1,
      fun demand hdemand => (hadmits _ ⟨demand, hdemand, rfl⟩).2.2,
      fun a ha b hb hne => hcompatible _ ⟨a, ha, rfl⟩ _ ⟨b, hb, rfl⟩ hne⟩
  · rintro ⟨hmem, hfitting, hunreserved, hdisjoint⟩
    constructor
    · rintro _ ⟨demand, hdemand, rfl⟩
      exact ⟨hmem demand hdemand, hfitting demand hdemand, hunreserved demand hdemand⟩
    · rintro _ ⟨a, ha, rfl⟩ _ ⟨b, hb, rfl⟩ hne
      exact hdisjoint a ha b hb hne

/-- What a status says about the choice; a problem with a fault in it is left undecided. -/
def verdict : Status → Verdict
  | .success => .solved
  | .noCandidate => .refused
  | .reserved => .refused
  | .conflict => .refused
  | .invalidIdentity => .undecided
  | .duplicateIdentity => .undecided
  | .invalidModel => .undecided
  | .exhausted => .undecided

variable [LinearOrder Identity] [Inhabited Identity] (sorter : Sorter) (search : Search)
  (p : Problem Identity) (budget : UInt32)

theorem undecided_of_invalid
    (h : ¬(ValidDemands p.demands ∧ ValidCandidates p.demands p.candidates)) :
    verdict (solve sorter search p budget).diagnostic.status = .undecided := by
  by_cases hdemands : ValidDemands p.demands
  · have hcandidates : ¬ValidCandidates p.demands p.candidates := fun hvalid => h ⟨hdemands, hvalid⟩
    rw [solve_of_invalidCandidates sorter search budget hdemands hcandidates]
    rfl
  · obtain ⟨key, -, hsolve⟩ := solve_of_faulty sorter search budget hdemands
    rw [hsolve, fail]
    split_ifs <;> rfl

/-- A problem that is accepted is refused for a reason that the problem bears out, solved,
or too large for the budget. -/
theorem verdict_of_valid
    (h : ValidDemands p.demands ∧ ValidCandidates p.demands p.candidates) :
    Answered (choiceProblem p)
      (verdict (solve sorter search p budget).diagnostic.status = .refused)
      ((solve sorter search p budget).ok = true)
      ((solve sorter search p budget).diagnostic.status = .exhausted) := by
  obtain ⟨hdemands, hcandidates⟩ := h
  by_cases hblocked : ∃ demand ∈ p.demands, NoFreeCandidate p demand.key.owner
  · obtain ⟨key, diagnostic, -, hreport, hsolve⟩ :=
      solve_of_blocked sorter search budget hdemands hcandidates hblocked
    rw [hsolve]
    refine .refused (by cases hreport <;> rfl) ?_
    rintro ⟨choice, hsolves⟩
    have hallocation := (solves_iff_allocation p choice).mp hsolves
    obtain ⟨demand, hdemand, hnone⟩ := hblocked
    exact hnone _ (hallocation.mem demand hdemand) (hallocation.fitting demand hdemand)
      (hallocation.unreserved demand hdemand)
  · have hfree : ∀ demand ∈ p.demands, ¬NoFreeCandidate p demand.key.owner :=
      fun demand hdemand hnone => hblocked ⟨demand, hdemand, hnone⟩
    rcases solve_of_free sorter search budget hdemands hcandidates hfree with
      ⟨visited, choice, hallocation, hsolve⟩ | ⟨visited, hnone, hsolve⟩ | ⟨visited, hsolve⟩
    · rw [hsolve]
      exact .solved rfl ⟨choice, (solves_iff_allocation p choice).mpr hallocation⟩
    · rw [hsolve]
      refine .refused rfl ?_
      rintro ⟨choice, hsolves⟩
      exact hnone ⟨choice, (solves_iff_allocation p choice).mp hsolves⟩
    · rw [hsolve]
      exact .givenUp rfl

/-- The allocator never refuses a choice that can be made, nor claims one that cannot. -/
theorem solve_exact :
    Exact (choiceProblem p) (verdict (solve sorter search p budget).diagnostic.status) := by
  by_cases hvalid : ValidDemands p.demands ∧ ValidCandidates p.demands p.candidates
  · cases verdict_of_valid sorter search p budget hvalid with
    | refused hrefused hnot =>
        rw [hrefused]
        exact .refused hnot
    | solved hok hsolvable =>
        rw [decide_eq_true_iff.mp hok]
        exact .solved hsolvable
    | givenUp hexhausted =>
        rw [hexhausted]
        exact .undecided
  · rw [undecided_of_invalid sorter search p budget hvalid]
    exact .undecided

end GrevirPeripherals.OwnerVerdict
