import GrevirPeripherals.InterruptVerdict

/-!
Relaxing a problem of the interrupt solver: requests and demands go, candidates are added,
released or replaced by more capable ones. What was served is not refused afterwards.
-/

namespace GrevirPeripherals.InterruptRelaxation

open GrevirPeripherals.ChoiceProblems
open GrevirPeripherals.ChoiceProblems.ChoiceProblem
open GrevirPeripherals.InterruptModel
open GrevirPeripherals.InterruptSelection
open GrevirPeripherals.InterruptSolution
open GrevirPeripherals.InterruptSolver
open GrevirPeripherals.InterruptValidation
open GrevirPeripherals.InterruptVerdict
open GrevirPeripherals.Strings

variable {Event : Type}

/-- `c'` is of the same request on the same hardware, and can do all that `c` can. -/
structure Improves (c c' : Candidate Event) : Prop where
  request : c'.request = c.request
  timer : c'.timer = c.timer
  source : c'.source = c.source
  entry : c'.entry = c.entry
  pwm : c.pwm = true → c'.pwm = true
  periodEvent : c.periodEvent = true → c'.periodEvent = true
  reserved : c.reserved = false → c'.reserved = false

/-- Fewer requests, which need PWM less often, fewer demands, and every candidate of a request
that stays has one as good in its place. -/
structure Relaxes (problem problem' : Problem Event) (demands demands' : DemandSummary Event) :
    Prop where
  requests : ∀ r' ∈ problem'.requests, ∃ r ∈ problem.requests,
    r.event = r'.event ∧ (r'.pwmRequired = true → r.pwmRequired = true)
  distinct : DistinctEvents problem'.requests
  demands : ∀ r' ∈ problem'.requests, r'.event ∈ demands'.live → r'.event ∈ demands.live
  candidates : ∀ r' ∈ problem'.requests, ∀ c ∈ problem.candidates, c.request = r'.event →
    ∃ c' ∈ problem'.candidates, Improves c c'

variable {problem problem' : Problem Event} {demands demands' : DemandSummary Event}

theorem Improves.eligible {c c' : Candidate Event} (himproves : Improves c c')
    {r r' : Request Event} (hevent : r.event = r'.event)
    (hpwm : r'.pwmRequired = true → r.pwmRequired = true)
    (hdemands : r'.event ∈ demands'.live → r'.event ∈ demands.live)
    (h : Eligible demands r c) : Eligible demands' r' c' where
  event := himproves.request.trans (h.event.trans hevent)
  free := himproves.reserved h.free
  pwm hrequired := himproves.pwm (h.pwm (hpwm hrequired))
  periodEvent hlive := himproves.periodEvent (h.periodEvent (hevent.symm ▸ hdemands hlive))

section Relaxes

variable (h : Relaxes problem problem' demands demands')

include h

theorem Relaxes.eases :
    Eases Improves (choiceProblem problem demands) (choiceProblem problem' demands') := by
  constructor
  case users =>
    rintro _ ⟨r', hr', rfl⟩
    obtain ⟨r, hr, hevent, -⟩ := h.requests r' hr'
    exact ⟨r, hr, hevent⟩
  case admits =>
    rintro _ ⟨r', hr', rfl⟩ c ⟨hc, heligible⟩
    obtain ⟨r, hr, hevent, hpwm⟩ := h.requests r' hr'
    have hserves := heligible r hr hevent
    obtain ⟨c', hc', himproves⟩ := h.candidates r' hr' c hc (hserves.event.trans hevent)
    refine ⟨c', himproves, hc', ?_⟩
    intro other hother heq
    rw [h.distinct.eq_of_event_eq hother hr' heq]
    exact himproves.eligible hevent hpwm (h.demands r' hr') hserves
  case compatible =>
    rintro _ ⟨r, hr, rfl⟩ _ ⟨s, hs, rfl⟩ - c d c' d' - - hc hd ⟨htimer, hshared⟩
    constructor
    · rwa [hc.timer, hd.timer]
    · intro hlive hlive'
      rw [hc.source, hd.source, hc.entry, hd.entry]
      exact hshared (h.demands r hr hlive) (h.demands s hs hlive')

/-- What was served is not refused after a relaxation, and unless it runs out of its budget
the solver serves it again wherever the new candidates are well formed. -/
theorem serves_of_relaxes [LinearOrder Event] [Inhabited Event]
    {validComponent : StringView → Bool} (validComponent' : StringView → Bool)
    {budget : UInt32} (budget' : UInt32)
    (hnone : (solve validComponent problem demands budget).error = .none) :
    verdict (solve validComponent' problem' demands' budget').error ≠ .refused ∧
      (ValidCandidates validComponent' problem'.candidates →
        (solve validComponent' problem' demands' budget').error = .none ∨
          (solve validComponent' problem' demands' budget').error = .exhausted) := by
  have hexact := solve_exact validComponent problem demands budget
  rw [hnone] at hexact
  obtain ⟨hsolvable⟩ : Exact (choiceProblem problem demands) .solved := hexact
  constructor
  · exact (solve_exact validComponent' problem' demands' budget').not_refused hsolvable h.eases
  · intro hcandidates
    have hvalid : ValidProblem validComponent' problem' := ⟨h.distinct, hcandidates⟩
    exact (verdict_of_valid validComponent' problem' demands' budget' hvalid).of_solvable
      (hsolvable.of_eases h.eases)

end Relaxes

section Board

/-- The first event alone, without its need for PWM, on cheaper candidates of the board. -/
def relaxedBoard : Problem Nat where
  requests := [{ event := 1 }]
  candidates := [boardCandidate 1 "quick" "timer1" "ovf1" 3,
    boardCandidate 1 "wide" "timer2" "ovf2" 0, boardCandidate 2 "slow" "timer1" "ovf1" 0]

theorem relaxes_relaxedBoard :
    Relaxes boardProblem relaxedBoard boardDemands { keys := [1], count := 1 } where
  requests := by
    intro r' hr'
    obtain rfl := List.mem_singleton.mp hr'
    exact ⟨{ event := 1, pwmRequired := true }, by simp [boardProblem], rfl, fun _ => rfl⟩
  distinct := by decide
  demands := by decide
  candidates := by
    intro r' hr' c hc hrequest
    obtain rfl := List.mem_singleton.mp hr'
    simp only [boardProblem, List.mem_cons, List.not_mem_nil, or_false] at hc
    rcases hc with rfl | rfl | rfl | rfl
    · exact absurd hrequest (by decide)
    · exact ⟨boardCandidate 1 "quick" "timer1" "ovf1" 3, by simp [relaxedBoard],
        rfl, rfl, rfl, rfl, id, id, id⟩
    · exact ⟨boardCandidate 1 "wide" "timer2" "ovf2" 0, by simp [relaxedBoard],
        rfl, rfl, rfl, rfl, id, id, id⟩
    · exact absurd hrequest (by decide)

theorem relaxedBoard_served :
    verdict (solve nonemptyName relaxedBoard { keys := [1], count := 1 } 100).error ≠ .refused ∧
      (ValidCandidates nonemptyName relaxedBoard.candidates →
        (solve nonemptyName relaxedBoard { keys := [1], count := 1 } 100).error = .none ∨
          (solve nonemptyName relaxedBoard { keys := [1], count := 1 } 100).error =
            .exhausted) := by
  have hnone : (solve nonemptyName boardProblem boardDemands 100).error = .none := by
    decide +kernel
  exact serves_of_relaxes relaxes_relaxedBoard nonemptyName 100 hnone

end Board

end GrevirPeripherals.InterruptRelaxation
