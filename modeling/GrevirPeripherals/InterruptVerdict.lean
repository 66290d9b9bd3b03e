import GrevirPeripherals.ChoiceProblems
import GrevirPeripherals.InterruptDiagnosis

/-!
The interrupt solver as a solver of choice problems: events choose among the candidates that
can serve them, and what the solver says about them is exact.
-/

namespace GrevirPeripherals.InterruptVerdict

open GrevirPeripherals.ChoiceProblems
open GrevirPeripherals.InterruptDiagnosis
open GrevirPeripherals.InterruptModel
open GrevirPeripherals.InterruptSelection
open GrevirPeripherals.InterruptSolution
open GrevirPeripherals.InterruptSolver
open GrevirPeripherals.InterruptValidation
open GrevirPeripherals.Strings

variable {Event : Type}

/-- The choice that a problem leaves to the events that it has requests for. -/
def choiceProblem (problem : Problem Event) (demands : DemandSummary Event) :
    ChoiceProblem Event (Candidate Event) where
  users := {event | ∃ request ∈ problem.requests, request.event = event}
  admits event c := c ∈ problem.candidates ∧
    ∀ request ∈ problem.requests, request.event = event → Eligible demands request c
  compatible event event' c c' := c.timer ≠ c'.timer ∧
    (event ∈ demands.live → event' ∈ demands.live → c.source ≠ c'.source ∧ c.entry ≠ c'.entry)

section Assignments

variable {problem : Problem Event} {demands : DemandSummary Event}

theorem assignment_of_solves (hevents : DistinctEvents problem.requests)
    {choice : Event → Candidate Event} (h : (choiceProblem problem demands).Solves choice) :
    CompatibleAssignment problem.candidates demands problem.requests
      (problem.requests.map fun request => choice request.event) := by
  constructor
  case eligible =>
    rw [List.forall₂_map_right_iff, List.forall₂_same]
    intro request hrequest
    obtain ⟨hmem, heligible⟩ := h.admits _ ⟨request, hrequest, rfl⟩
    exact ⟨hmem, heligible request hrequest rfl⟩
  case compatible =>
    have hzip : problem.requests.zip (problem.requests.map fun request => choice request.event) =
        problem.requests.map fun request => (request, choice request.event) := by
      rw [← List.map_id problem.requests, List.map_map, List.zip_map', List.map_id]
      rfl
    rw [hzip, List.pairwise_map]
    apply hevents.imp_of_mem
    intro a b ha hb hne
    obtain ⟨htimer, hshared⟩ := h.compatible _ ⟨a, ha, rfl⟩ _ ⟨b, hb, rfl⟩ hne
    exact ⟨htimer, fun ha hb => (hshared ha hb).1, fun ha hb => (hshared ha hb).2⟩

/-- An assignment gives each event the candidate of its request. -/
theorem solvable_of_assignment [Inhabited Event] (hevents : DistinctEvents problem.requests)
    {assignment : List (Candidate Event)}
    (h : CompatibleAssignment problem.candidates demands problem.requests assignment) :
    (choiceProblem problem demands).Solvable := by
  classical
  obtain ⟨hlength, heligible⟩ := List.forall₂_iff_zip.mp h.eligible
  have hpair : ∀ request ∈ problem.requests, ∃ c,
      (request, c) ∈ problem.requests.zip assignment := by
    intro request hrequest
    rw [← List.map_fst_zip hlength.le] at hrequest
    obtain ⟨⟨_, c⟩, hc, rfl⟩ := List.mem_map.mp hrequest
    exact ⟨c, hc⟩
  have hchoice : ∀ event, ∃ c, ∀ request ∈ problem.requests, request.event = event →
      (request, c) ∈ problem.requests.zip assignment := by
    intro event
    by_cases hevent : ∃ request ∈ problem.requests, request.event = event
    · obtain ⟨request, hrequest, rfl⟩ := hevent
      obtain ⟨c, hc⟩ := hpair request hrequest
      refine ⟨c, fun other hother heq => ?_⟩
      rw [hevents.eq_of_event_eq hother hrequest heq]
      exact hc
    · exact ⟨default, fun request hrequest heq => absurd ⟨request, hrequest, heq⟩ hevent⟩
  choose choice hchoice using hchoice
  refine ⟨choice, ?_, ?_⟩
  · rintro _ ⟨request, hrequest, rfl⟩
    have hzip := hchoice _ request hrequest rfl
    refine ⟨(heligible hzip).1, fun other hother heq => ?_⟩
    rw [hevents.eq_of_event_eq hother hrequest heq]
    exact (heligible hzip).2
  · rintro _ ⟨a, ha, rfl⟩ _ ⟨b, hb, rfl⟩ hne
    have hsymm : Std.Symm (Compatible demands) :=
      ⟨fun _ _ hxy => ⟨hxy.timer.symm, fun hy hx => (hxy.source hx hy).symm,
        fun hy hx => (hxy.entry hx hy).symm⟩⟩
    have hpairs : (a, choice a.event) ≠ (b, choice b.event) := by
      intro heq
      exact hne (congrArg (fun pair => pair.1.event) heq)
    have hcompatible := h.compatible.forall (hchoice _ a ha rfl) (hchoice _ b hb rfl) hpairs
    exact ⟨hcompatible.timer, fun ha hb => ⟨hcompatible.source ha hb, hcompatible.entry ha hb⟩⟩

theorem solvable_iff [Inhabited Event] (hevents : DistinctEvents problem.requests) :
    (choiceProblem problem demands).Solvable ↔
      ∃ assignment, CompatibleAssignment problem.candidates demands problem.requests
        assignment := by
  constructor
  · rintro ⟨choice, hsolves⟩
    exact ⟨_, assignment_of_solves hevents hsolves⟩
  · rintro ⟨assignment, h⟩
    exact solvable_of_assignment hevents h

end Assignments

/-- What an error says about the choice; a problem with a fault in it is left undecided. -/
def verdict : Error → Verdict
  | .none => .solved
  | .noCandidate => .refused
  | .conflict => .refused
  | .invalidModel => .undecided
  | .duplicateRequest => .undecided
  | .duplicateCandidate => .undecided
  | .exhausted => .undecided

theorem verdict_diagnose [LinearOrder Event] (requests : List (Request Event))
    (candidates : List (Candidate Event)) (demands : DemandSummary Event) :
    verdict (diagnose requests candidates demands) = .refused := by
  rw [diagnose]
  split_ifs <;> rfl

section Solve

variable [LinearOrder Event] [Inhabited Event] (validComponent : StringView → Bool)
  (problem : Problem Event) (demands : DemandSummary Event) (budget : UInt32)

/-- The unlimited search finds a selection where a choice can be made. -/
theorem exploreProblem_isSome_iff {problem : Problem Event}
    (hevents : DistinctEvents problem.requests) (demands : DemandSummary Event) :
    (exploreProblem problem demands).1.isSome ↔ (choiceProblem problem demands).Solvable := by
  have hrows := sortedRequests_perm problem.requests
  have hmem := mem_sortedCandidates problem.candidates
  rw [exploreProblem, exploreRows_isSome_iff, solvable_iff hevents]
  constructor
  · rintro ⟨assignment, hassignment⟩
    exact CompatibleAssignment.exists_perm hrows.symm (hassignment.congr hmem)
  · rintro ⟨assignment, hassignment⟩
    obtain ⟨assignment', hassignment'⟩ := CompatibleAssignment.exists_perm hrows hassignment
    exact ⟨assignment', hassignment'.congr fun candidate => (hmem candidate).symm⟩

theorem undecided_of_invalid (h : ¬ValidProblem validComponent problem) :
    verdict (solve validComponent problem demands budget).error = .undecided := by
  by_cases hevents : DistinctEvents problem.requests
  · have hcandidates : ¬ValidCandidates validComponent problem.candidates :=
      fun hcandidates => h ⟨hevents, hcandidates⟩
    obtain ⟨error, herror, hsolve⟩ := solve_of_invalidCandidates hevents hcandidates
    rw [hsolve]
    rcases herror with rfl | rfl <;> rfl
  · rw [solve_of_duplicateRequest hevents]
    rfl

/-- A problem that is accepted is refused because no choice can be made, solved, or too large
for the budget. -/
theorem verdict_of_valid (h : ValidProblem validComponent problem) :
    Answered (choiceProblem problem demands)
      (verdict (solve validComponent problem demands budget).error = .refused)
      ((solve validComponent problem demands budget).error = .none)
      ((solve validComponent problem demands budget).error = .exhausted) := by
  have hexplored := exploreProblem_isSome_iff h.events demands
  rw [solve_of_valid h]
  split_ifs with hcost
  · cases hanswer : (exploreProblem problem demands).1 with
    | some selection =>
        rw [hanswer] at hexplored
        exact .solved rfl (hexplored.mp rfl)
    | none =>
        rw [hanswer] at hexplored
        exact .refused (verdict_diagnose _ _ _) fun hsolvable => nomatch hexplored.mpr hsolvable
  · exact .givenUp rfl

/-- The solver never refuses a choice that can be made, nor claims one that cannot. -/
theorem solve_exact :
    Exact (choiceProblem problem demands)
      (verdict (solve validComponent problem demands budget).error) := by
  by_cases hvalid : ValidProblem validComponent problem
  · cases verdict_of_valid validComponent problem demands budget hvalid with
    | refused hrefused hnot =>
        rw [hrefused]
        exact .refused hnot
    | solved hnone hsolvable =>
        rw [hnone]
        exact .solved hsolvable
    | givenUp hexhausted =>
        rw [hexhausted]
        exact .undecided
  · rw [undecided_of_invalid validComponent problem demands budget hvalid]
    exact .undecided

end Solve

end GrevirPeripherals.InterruptVerdict
