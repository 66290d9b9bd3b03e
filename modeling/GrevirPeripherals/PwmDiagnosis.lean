import GrevirPeripherals.PwmSoundness

/-!
The diagnostics of the PWM allocator on problems that pass its checks, against
conditions that do not depend on the order of any array.
-/

namespace GrevirPeripherals.PwmDiagnosis

open GrevirPeripherals.AllocationSearch
open GrevirPeripherals.PwmAllocation
open GrevirPeripherals.PwmAllocator
open GrevirPeripherals.PwmEligibility
open GrevirPeripherals.PwmFitting
open GrevirPeripherals.PwmModel
open GrevirPeripherals.PwmNormalForm
open GrevirPeripherals.PwmRequirements
open GrevirPeripherals.PwmSolution
open GrevirPeripherals.PwmSoundness
open GrevirPeripherals.PwmUnits
open GrevirPeripherals.PwmValidation
open GrevirPeripherals.StandardSort
open GrevirPeripherals.Strings

/-- The identities, the configurations and the model pass the checks of `solve`. -/
structure PassesChecks (sorter : Sorter) (p : Problem) : Prop where
  identities : ∀ r ∈ p.requests, checkIdentity p.requests r = .ok ()
  requests : ∀ r ∈ p.requests, checkRequest r = .ok ()
  model : (normalizeModel sorter p).isSome = true
  pins : ∀ r ∈ p.requests, checkPin p.resources r = .ok ()

theorem passesChecks_iff (sorter : Sorter) (p : Problem) :
    PassesChecks sorter p ↔ ValidProblem sorter p := by
  have hmodel : (normalizeModel sorter p).isSome = true ↔ ValidModel sorter p := by
    rw [Option.isSome_iff_ne_none, ne_eq, normalizeModel_eq_none_iff, not_not]
  constructor
  · rintro ⟨hidentities, hrequests, hsome, hpins⟩
    exact ⟨(checkIdentities_iff _).mp hidentities,
      fun r hr => (checkRequest_eq_ok_iff r).mp (hrequests r hr), hmodel.mp hsome,
      fun r hr => (checkPin_eq_ok_iff _ r).mp (hpins r hr)⟩
  · rintro ⟨hidentities, hrequests, hvalid, hpins⟩
    exact ⟨(checkIdentities_iff _).mpr hidentities,
      fun r hr => (checkRequest_eq_ok_iff r).mpr (hrequests r hr), hmodel.mpr hvalid,
      fun r hr => (checkPin_eq_ok_iff _ r).mpr (hpins r hr)⟩

/-- The report on the least instance without a free candidate. -/
structure BlockedReport (p : Problem) (diagnostic : Diagnostic) : Prop where
  request : IsLeast {key | key ∈ p.requests.map Request.key ∧ NoFreeCandidate p key.instanceName}
    diagnostic.request
  reserved_iff : diagnostic.status = .reserved ↔
    ∃ c ∈ p.candidates, Fitting p.requests diagnostic.request.instanceName c
  noCandidate_iff : diagnostic.status = .noCandidate ↔
    ∀ c ∈ p.candidates, ¬Fitting p.requests diagnostic.request.instanceName c
  detail : diagnostic.status = .reserved →
    IsLeast (blockersOf p diagnostic.request.instanceName) diagnostic.detail
  noDetail : diagnostic.status = .noCandidate → diagnostic.detail = 0

/-- The status and report of a plan as a function of the problem alone. -/
structure ExactDiagnosis (p : Problem) (plan : Plan) : Prop where
  blockedStatus :
    plan.diagnostic.status = .noCandidate ∨ plan.diagnostic.status = .reserved ↔
      ∃ r ∈ p.requests, NoFreeCandidate p r.key.instanceName
  blockedReport : (∃ r ∈ p.requests, NoFreeCandidate p r.key.instanceName) →
    BlockedReport p plan.diagnostic
  searchStatus : (∀ r ∈ p.requests, ¬NoFreeCandidate p r.key.instanceName) →
    plan.diagnostic.status ≠ .exhausted →
      (plan.diagnostic.status = .success ↔ ∃ choice, Allocation p choice) ∧
        (plan.diagnostic.status = .conflict ↔ ¬∃ choice, Allocation p choice)

theorem blockedReport_of_instanceReport {p : Problem} {key : Key} {diagnostic : Diagnostic}
    (hleast : IsLeast
      {key | key ∈ p.requests.map Request.key ∧ NoFreeCandidate p key.instanceName} key)
    (hreport : InstanceReport p key diagnostic) : BlockedReport p diagnostic := by
  cases hreport with
  | noCandidate hnone =>
      refine ⟨hleast, iff_of_false (by simp) ?_, iff_of_true rfl hnone, by simp, fun _ => rfl⟩
      rintro ⟨c, hc, hfitting⟩
      exact hnone c hc hfitting
  | reserved detail hdetail =>
      obtain ⟨-, c, hc, hfitting, -⟩ := hdetail.1
      refine ⟨hleast, iff_of_true rfl ⟨c, hc, hfitting⟩, iff_of_false (by simp) ?_,
        fun _ => hdetail, by simp⟩
      intro hnone
      exact hnone c hc hfitting

theorem InstanceReport.status {p : Problem} {key : Key} {diagnostic : Diagnostic}
    (h : InstanceReport p key diagnostic) :
    diagnostic.status = .noCandidate ∨ diagnostic.status = .reserved := by
  cases h with
  | noCandidate _ => exact Or.inl rfl
  | reserved _ _ => exact Or.inr rfl

/-- The verdict of the search, once every instance has a free candidate. -/
theorem exactDiagnosis_of_verdict {p : Problem} {plan : Plan}
    (hfree : ∀ r ∈ p.requests, ¬NoFreeCandidate p r.key.instanceName)
    (hverdict : (plan.diagnostic.status = .success ∧ ∃ choice, Allocation p choice) ∨
      (plan.diagnostic.status = .conflict ∧ ¬∃ choice, Allocation p choice) ∨
      plan.diagnostic.status = .exhausted) :
    ExactDiagnosis p plan := by
  have hnone : ¬∃ r ∈ p.requests, NoFreeCandidate p r.key.instanceName := by
    rintro ⟨r, hr, h⟩
    exact hfree r hr h
  refine ⟨iff_of_false ?_ hnone, fun h => absurd h hnone, ?_⟩
  · rcases hverdict with ⟨h, -⟩ | ⟨h, -⟩ | h <;> simp [h]
  · intro _ hexhausted
    rcases hverdict with ⟨h, hexists⟩ | ⟨h, hnot⟩ | h
    · exact ⟨iff_of_true h hexists, iff_of_false (by simp [h]) (not_not.mpr hexists)⟩
    · exact ⟨iff_of_false (by simp [h]) hnot, iff_of_true h hnot⟩
    · exact absurd h hexhausted

/-- On a problem that passes the checks the plan reports exactly what there is:
an instance without a free candidate, an allocation, or the lack of one. -/
theorem solve_status_exact (sorter : Sorter) (search : Search) {p : Problem} (budget : UInt32)
    (h : PassesChecks sorter p) : ExactDiagnosis p (solve sorter search p budget) := by
  have hvalid := (passesChecks_iff sorter p).mp h
  by_cases hblocked : ∃ r ∈ p.requests, NoFreeCandidate p r.key.instanceName
  · obtain ⟨key, diagnostic, hleast, hreport, hsolve⟩ :=
      solve_of_blocked sorter search budget hvalid hblocked
    rw [hsolve]
    refine ⟨iff_of_true (InstanceReport.status hreport) hblocked,
      fun _ => blockedReport_of_instanceReport hleast hreport, ?_⟩
    obtain ⟨r, hr, hnone⟩ := hblocked
    intro hfree
    exact absurd hnone (hfree r hr)
  · have hfree : ∀ r ∈ p.requests, ¬NoFreeCandidate p r.key.instanceName := by
      intro r hr hnone
      exact hblocked ⟨r, hr, hnone⟩
    apply exactDiagnosis_of_verdict hfree
    rcases solve_of_free sorter search budget hvalid hfree with
      ⟨visited, choice, hallocation, hsolve⟩ | ⟨visited, hnone, hsolve⟩ | ⟨visited, hsolve⟩
    · exact Or.inl ⟨by rw [hsolve], choice, hallocation⟩
    · exact Or.inr (Or.inl ⟨by rw [hsolve]; rfl, hnone⟩)
    · exact Or.inr (Or.inr (by rw [hsolve]; rfl))

section Board

/-- The domain of the second timer is reserved as well. -/
def reservedBoard : Problem :=
  { boardProblem with reservations := [34, 41] }

theorem board_status_exact :
    ExactDiagnosis reservedBoard (solve insertionSorter backtracking reservedBoard 100) :=
  solve_status_exact insertionSorter backtracking 100
    ⟨by decide +kernel, by decide +kernel, by decide +kernel, by decide +kernel⟩

example : (solve insertionSorter backtracking reservedBoard 100).diagnostic =
    ⟨.reserved, (boardRequest "led" "dim" 33).key, 41⟩ := by
  decide +kernel

end Board

end GrevirPeripherals.PwmDiagnosis
