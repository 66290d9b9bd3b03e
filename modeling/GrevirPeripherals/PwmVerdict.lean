import GrevirPeripherals.ChoiceProblems
import GrevirPeripherals.PwmFrontEnd
import GrevirPeripherals.PwmSoundness

/-!
The PWM allocator as a solver of choice problems: instances choose among the candidates
that fit them and are not reserved, and what the allocator says about them is exact.
-/

namespace GrevirPeripherals.PwmVerdict

open GrevirPeripherals.AllocationSearch
open GrevirPeripherals.ChoiceProblems
open GrevirPeripherals.PwmAllocation
open GrevirPeripherals.PwmAllocator
open GrevirPeripherals.PwmEligibility
open GrevirPeripherals.PwmFitting
open GrevirPeripherals.PwmFrontEnd
open GrevirPeripherals.PwmModel
open GrevirPeripherals.PwmSolution
open GrevirPeripherals.PwmSoundness
open GrevirPeripherals.PwmUnits
open GrevirPeripherals.StandardSort
open GrevirPeripherals.Strings

/-- The choice that a problem leaves to its instances. -/
def choiceProblem (p : Problem) : ChoiceProblem StringView Candidate where
  users := {instanceName | ∃ r ∈ p.requests, r.key.instanceName = instanceName}
  admits instanceName c :=
    c ∈ p.candidates ∧ Fitting p.requests instanceName c ∧ Unreserved p c
  compatible _ _ a b := Independent p.resources a b

theorem solves_iff_allocation (p : Problem) (choice : StringView → Candidate) :
    (choiceProblem p).Solves choice ↔ Allocation p choice := by
  constructor
  · rintro ⟨hadmits, hcompatible⟩
    exact ⟨fun r hr => (hadmits _ ⟨r, hr, rfl⟩).1, fun r hr => (hadmits _ ⟨r, hr, rfl⟩).2.1,
      fun r hr => (hadmits _ ⟨r, hr, rfl⟩).2.2,
      fun a ha b hb hne => hcompatible _ ⟨a, ha, rfl⟩ _ ⟨b, hb, rfl⟩ hne⟩
  · rintro ⟨hmem, hfitting, hunreserved, hindependent⟩
    constructor
    · rintro _ ⟨r, hr, rfl⟩
      exact ⟨hmem r hr, hfitting r hr, hunreserved r hr⟩
    · rintro _ ⟨a, ha, rfl⟩ _ ⟨b, hb, rfl⟩ hne
      exact hindependent a ha b hb hne

/-- What a status says about the choice; a problem with a fault in it is left undecided. -/
def verdict : Status → Verdict
  | .success => .solved
  | .noCandidate => .refused
  | .reserved => .refused
  | .conflict => .refused
  | .invalidIdentity => .undecided
  | .duplicateIdentity => .undecided
  | .invalidRequest => .undecided
  | .modelError => .undecided
  | .exhausted => .undecided

variable (sorter : Sorter) (search : Search) (p : Problem) (budget : UInt32)

theorem undecided_of_invalid (h : ¬ValidProblem sorter p) :
    verdict (solve sorter search p budget).diagnostic.status = .undecided := by
  rw [solve_eq]
  cases haccept : accept sorter p with
  | ok normal => exact absurd ((accept_eq_ok_iff sorter p normal).mp haccept).1 h
  | error diagnostic =>
      change verdict diagnostic.status = .undecided
      by_cases hnames : ValidIdentities p.requests
      · by_cases hbad : ∃ r ∈ p.requests, ¬ValidRequest r
        · obtain ⟨diagnostic', haccept', r, -, herror, -⟩ :=
            accept_of_badRequest sorter hnames hbad
          obtain rfl := Except.error.inj (haccept.symm.trans haccept')
          rw [(checkRequest_report herror).1]
          rfl
        · simp only [not_exists, not_and, not_not] at hbad
          rw [accept_of_validRequests sorter hnames hbad haccept]
          rfl
      · obtain ⟨diagnostic', haccept', hstatus⟩ := accept_of_badNames sorter hnames
        obtain rfl := Except.error.inj (haccept.symm.trans haccept')
        rcases hstatus with hstatus | hstatus <;> rw [hstatus] <;> rfl

/-- A problem that is accepted is refused for a reason that the problem bears out, solved,
or too large for the budget. -/
theorem verdict_of_valid (h : ValidProblem sorter p) :
    Answered (choiceProblem p)
      (verdict (solve sorter search p budget).diagnostic.status = .refused)
      ((solve sorter search p budget).ok = true)
      ((solve sorter search p budget).diagnostic.status = .exhausted) := by
  by_cases hblocked : ∃ r ∈ p.requests, NoFreeCandidate p r.key.instanceName
  · obtain ⟨key, diagnostic, -, hreport, hsolve⟩ :=
      solve_of_blocked sorter search budget h hblocked
    rw [hsolve]
    refine .refused (by cases hreport <;> rfl) ?_
    rintro ⟨choice, hsolves⟩
    have hallocation := (solves_iff_allocation p choice).mp hsolves
    obtain ⟨r, hr, hnone⟩ := hblocked
    exact hnone _ (hallocation.mem r hr) (hallocation.fitting r hr) (hallocation.unreserved r hr)
  · have hfree : ∀ r ∈ p.requests, ¬NoFreeCandidate p r.key.instanceName :=
      fun r hr hnone => hblocked ⟨r, hr, hnone⟩
    rcases solve_of_free sorter search budget h hfree with
      ⟨visited, choice, hallocation, hsolve⟩ | ⟨visited, hnone, hsolve⟩ | ⟨visited, hsolve⟩
    · rw [hsolve]
      exact .solved rfl ⟨choice, (solves_iff_allocation p choice).mpr hallocation⟩
    · rw [hsolve]
      refine .refused rfl ?_
      rintro ⟨choice, hsolves⟩
      exact hnone ⟨choice, (solves_iff_allocation p choice).mp hsolves⟩
    · rw [hsolve]
      exact .givenUp rfl

/-- The allocator never refuses a choice that can be made, nor claims one that cannot. -/
theorem solve_exact :
    Exact (choiceProblem p) (verdict (solve sorter search p budget).diagnostic.status) := by
  by_cases hvalid : ValidProblem sorter p
  · cases verdict_of_valid sorter search p budget hvalid with
    | refused hrefused hnot =>
        rw [hrefused]
        exact .refused hnot
    | solved hok hsolvable =>
        rw [decide_eq_true_iff.mp hok]
        exact .solved hsolvable
    | givenUp hexhausted =>
        rw [hexhausted]
        exact .undecided
  · rw [undecided_of_invalid sorter search p budget hvalid]
    exact .undecided

end GrevirPeripherals.PwmVerdict
