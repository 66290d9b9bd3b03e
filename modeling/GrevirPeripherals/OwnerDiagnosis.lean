import GrevirPeripherals.OwnerAllocation

/-!
The diagnostics of the owner allocator, against conditions on the problem that do
not depend on the order of its arrays.
-/

namespace GrevirPeripherals.OwnerDiagnosis

open GrevirPeripherals.AllocationSearch
open GrevirPeripherals.OwnerAllocation
open GrevirPeripherals.OwnerAllocator
open GrevirPeripherals.OwnerEligibility
open GrevirPeripherals.OwnerModel
open GrevirPeripherals.OwnerSolution
open GrevirPeripherals.OwnerValidation
open GrevirPeripherals.StandardSort

variable {Identity : Type}

/-- A name of a demand is no valid component, or two demands share a key. -/
def IdentityFault (p : Problem Identity) : Prop :=
  (∃ demand ∈ p.demands, ¬WellNamed demand.key) ∨ ¬(p.demands.map UseDemand.key).Nodup

/-- A candidate is not well formed, or two candidates share an identity. -/
def ModelFault [Inhabited Identity] (p : Problem Identity) : Prop :=
  (∃ c ∈ p.candidates, ¬WellFormed p.demands c) ∨
    ¬p.candidates.Pairwise fun a b => a.identity ≠ b.identity

theorem not_identityFault_iff (p : Problem Identity) :
    ¬IdentityFault p ↔ ValidDemands p.demands := by
  rw [IdentityFault, not_or, not_not, List.Nodup, List.pairwise_map]
  constructor
  · rintro ⟨hnamed, hdistinct⟩
    exact ⟨by simpa using hnamed, hdistinct⟩
  · rintro ⟨hnamed, hdistinct⟩
    exact ⟨by simpa using hnamed, hdistinct⟩

theorem not_modelFault_iff [Inhabited Identity] (p : Problem Identity) :
    ¬ModelFault p ↔ ValidCandidates p.demands p.candidates := by
  rw [ModelFault, not_or, not_not]
  constructor
  · rintro ⟨hformed, hdistinct⟩
    exact ⟨by simpa using hformed, hdistinct⟩
  · rintro ⟨hformed, hdistinct⟩
    exact ⟨by simpa using hformed, hdistinct⟩

theorem failure_fail [Inhabited Identity] {p : Problem Identity} {uses : List UseKey}
    {visited : UInt32} (huses : uses.length = p.demands.length) (diagnostic : Diagnostic) :
    (fail uses visited diagnostic : Plan Identity).candidates =
      List.replicate p.demands.length default := by
  rw [← huses]
  rfl

variable [LinearOrder Identity] [Inhabited Identity]

/-- The status and report of a plan, as a function of the problem alone. Each
group of conditions applies where those before it do not. -/
structure ExactDiagnosis (p : Problem Identity) (plan : Plan Identity) : Prop where
  identityStatus :
    plan.diagnostic.status = .invalidIdentity ∨ plan.diagnostic.status = .duplicateIdentity ↔
      IdentityFault p
  identityReport : IdentityFault p → ∃ key, IsLeast {key | Faulty p.demands key} key ∧
    plan.diagnostic =
      ⟨if WellNamed key then .duplicateIdentity else .invalidIdentity, key, 0⟩
  modelStatus : ¬IdentityFault p → (plan.diagnostic.status = .invalidModel ↔ ModelFault p)
  modelReport : plan.diagnostic.status = .invalidModel → plan.diagnostic = ⟨.invalidModel, {}, 0⟩
  ownerStatus : ¬IdentityFault p → ¬ModelFault p →
    (plan.diagnostic.status = .noCandidate ∨ plan.diagnostic.status = .reserved ↔
      ∃ demand ∈ p.demands, NoFreeCandidate p demand.key.owner)
  ownerReport : ¬IdentityFault p → ¬ModelFault p →
    (∃ demand ∈ p.demands, NoFreeCandidate p demand.key.owner) →
      ∃ key,
        IsLeast {key | key ∈ p.demands.map UseDemand.key ∧ NoFreeCandidate p key.owner} key ∧
          OwnerReport p.demands p.candidates key plan.diagnostic
  searchStatus : ¬IdentityFault p → ¬ModelFault p →
    (∀ demand ∈ p.demands, ¬NoFreeCandidate p demand.key.owner) →
      plan.diagnostic.status ≠ .exhausted →
        (plan.diagnostic.status = .success ↔ ∃ choice, Allocation p choice) ∧
          (plan.diagnostic.status = .conflict ↔ ¬∃ choice, Allocation p choice)
  searchReport : plan.diagnostic.status = .conflict ∨ plan.diagnostic.status = .exhausted →
    plan.diagnostic.use = {} ∧ plan.diagnostic.detail = 0
  failure : plan.diagnostic.status ≠ .success →
    plan.candidates = List.replicate p.demands.length default

section Phases

variable {p : Problem Identity} {uses : List UseKey} {visited : UInt32}

theorem exactDiagnosis_of_identityFault (hfault : IdentityFault p)
    (huses : uses.length = p.demands.length) {key : UseKey}
    (hleast : IsLeast {key | Faulty p.demands key} key) :
    ExactDiagnosis p (fail uses visited
      ⟨if WellNamed key then .duplicateIdentity else .invalidIdentity, key, 0⟩) where
  identityStatus := by
    refine iff_of_true ?_ hfault
    simp only [fail]
    split_ifs <;> simp
  identityReport _ := ⟨key, hleast, rfl⟩
  modelStatus h := absurd hfault h
  modelReport h := by
    simp only [fail] at h
    split_ifs at h
  ownerStatus h := absurd hfault h
  ownerReport h := absurd hfault h
  searchStatus h := absurd hfault h
  searchReport h := by
    simp only [fail] at h
    split_ifs at h <;> simp at h
  failure _ := failure_fail huses _

theorem exactDiagnosis_of_modelFault (hnofault : ¬IdentityFault p) (hfault : ModelFault p)
    (huses : uses.length = p.demands.length) :
    ExactDiagnosis p (fail uses visited ⟨.invalidModel, {}, 0⟩) where
  identityStatus := iff_of_false (by simp [fail]) hnofault
  identityReport h := absurd h hnofault
  modelStatus _ := iff_of_true rfl hfault
  modelReport _ := rfl
  ownerStatus _ h := absurd hfault h
  ownerReport _ h := absurd hfault h
  searchStatus _ h := absurd hfault h
  searchReport h := by simp [fail] at h
  failure _ := failure_fail huses _

theorem exactDiagnosis_of_ownerReport (hidentity : ¬IdentityFault p) (hmodel : ¬ModelFault p)
    (hblocked : ∃ demand ∈ p.demands, NoFreeCandidate p demand.key.owner)
    (huses : uses.length = p.demands.length) {key : UseKey} {diagnostic : Diagnostic}
    (hleast : IsLeast {key | key ∈ p.demands.map UseDemand.key ∧ NoFreeCandidate p key.owner} key)
    (hreport : OwnerReport p.demands p.candidates key diagnostic) :
    ExactDiagnosis p (fail uses visited diagnostic) := by
  have hstatus : diagnostic.status = .noCandidate ∨ diagnostic.status = .reserved := by
    cases hreport with
    | noCandidate _ => exact Or.inl rfl
    | reserved _ _ => exact Or.inr rfl
  exact
    { identityStatus := by
        refine iff_of_false ?_ hidentity
        rcases hstatus with h | h <;> simp [fail, h]
      identityReport := fun h => absurd h hidentity
      modelStatus := by
        intro _
        refine iff_of_false ?_ hmodel
        rcases hstatus with h | h <;> simp [fail, h]
      modelReport := by
        rcases hstatus with h | h <;> simp [fail, h]
      ownerStatus := fun _ _ => iff_of_true hstatus hblocked
      ownerReport := fun _ _ _ => ⟨key, hleast, hreport⟩
      searchStatus := by
        obtain ⟨demand, hdemand, hnone⟩ := hblocked
        intro _ _ hfree
        exact absurd hnone (hfree demand hdemand)
      searchReport := by
        rcases hstatus with h | h <;> simp [fail, h]
      failure := fun _ => failure_fail huses _ }

/-- The verdict of the search, once every owner has a free candidate. -/
theorem exactDiagnosis_of_verdict (hidentity : ¬IdentityFault p) (hmodel : ¬ModelFault p)
    (hfree : ∀ demand ∈ p.demands, ¬NoFreeCandidate p demand.key.owner) {plan : Plan Identity}
    (hverdict : (plan.diagnostic = {} ∧ ∃ choice, Allocation p choice) ∨
      (plan.diagnostic = ⟨.conflict, {}, 0⟩ ∧ ¬∃ choice, Allocation p choice) ∨
      plan.diagnostic = ⟨.exhausted, {}, 0⟩)
    (hfailure : plan.diagnostic.status ≠ .success →
      plan.candidates = List.replicate p.demands.length default) :
    ExactDiagnosis p plan := by
  have hdiagnostic : plan.diagnostic = {} ∨ plan.diagnostic = ⟨.conflict, {}, 0⟩ ∨
      plan.diagnostic = ⟨.exhausted, {}, 0⟩ := by
    rcases hverdict with ⟨h, -⟩ | ⟨h, -⟩ | h
    · exact Or.inl h
    · exact Or.inr (Or.inl h)
    · exact Or.inr (Or.inr h)
  have hnone : ¬∃ demand ∈ p.demands, NoFreeCandidate p demand.key.owner := by
    rintro ⟨demand, hdemand, h⟩
    exact hfree demand hdemand h
  exact
    { identityStatus := by
        refine iff_of_false ?_ hidentity
        rcases hdiagnostic with h | h | h <;> simp [h]
      identityReport := fun h => absurd h hidentity
      modelStatus := by
        intro _
        refine iff_of_false ?_ hmodel
        rcases hdiagnostic with h | h | h <;> simp [h]
      modelReport := by
        rcases hdiagnostic with h | h | h <;> simp [h]
      ownerStatus := by
        intro _ _
        refine iff_of_false ?_ hnone
        rcases hdiagnostic with h | h | h <;> simp [h]
      ownerReport := fun _ _ h => absurd h hnone
      searchStatus := by
        intro _ _ _ hexhausted
        rcases hverdict with ⟨h, hexists⟩ | ⟨h, hnot⟩ | h
        · exact ⟨iff_of_true (by simp [h]) hexists, iff_of_false (by simp [h]) (by simpa)⟩
        · exact ⟨iff_of_false (by simp [h]) hnot, iff_of_true (by simp [h]) hnot⟩
        · simp [h] at hexhausted
      searchReport := by
        rcases hdiagnostic with h | h | h <;> simp [h]
      failure := hfailure }

end Phases

/-- Each phase of the solver reports exactly the condition it looks for, and
leaves every selection at its default. -/
theorem solve_diagnosis_exact (sorter : Sorter) (search : Search) (p : Problem Identity)
    (budget : UInt32) : ExactDiagnosis p (solve sorter search p budget) := by
  have huses : (sortedUses sorter p).length = p.demands.length := by
    simpa using (sortedUses_perm sorter p).length_eq
  by_cases hidentity : IdentityFault p
  · have hinvalid : ¬ValidDemands p.demands := by
      rw [← not_identityFault_iff, not_not]
      exact hidentity
    obtain ⟨key, hleast, hsolve⟩ := solve_of_faulty sorter search budget hinvalid
    rw [hsolve]
    exact exactDiagnosis_of_identityFault hidentity huses hleast
  have hdemands := (not_identityFault_iff p).mp hidentity
  by_cases hmodel : ModelFault p
  · have hinvalid : ¬ValidCandidates p.demands p.candidates := by
      rw [← not_modelFault_iff, not_not]
      exact hmodel
    rw [solve_of_invalidCandidates sorter search budget hdemands hinvalid]
    exact exactDiagnosis_of_modelFault hidentity hmodel huses
  have hcandidates := (not_modelFault_iff p).mp hmodel
  by_cases hblocked : ∃ demand ∈ p.demands, NoFreeCandidate p demand.key.owner
  · obtain ⟨key, diagnostic, hleast, hreport, hsolve⟩ :=
      solve_of_blocked sorter search budget hdemands hcandidates hblocked
    rw [hsolve]
    exact exactDiagnosis_of_ownerReport hidentity hmodel hblocked huses hleast hreport
  have hfree : ∀ demand ∈ p.demands, ¬NoFreeCandidate p demand.key.owner := by
    intro demand hdemand hnone
    exact hblocked ⟨demand, hdemand, hnone⟩
  -- What remains is the verdict of the search.
  rcases solve_of_free sorter search budget hdemands hcandidates hfree with
    ⟨visited, choice, hallocation, hsolve⟩ | ⟨visited, hnone, hsolve⟩ | ⟨visited, hsolve⟩
  · rw [hsolve]
    exact exactDiagnosis_of_verdict hidentity hmodel hfree (Or.inl ⟨rfl, choice, hallocation⟩)
      fun hfailed => absurd rfl hfailed
  · rw [hsolve]
    exact exactDiagnosis_of_verdict hidentity hmodel hfree (Or.inr (Or.inl ⟨rfl, hnone⟩))
      fun _ => failure_fail huses _
  · rw [hsolve]
    exact exactDiagnosis_of_verdict hidentity hmodel hfree (Or.inr (Or.inr rfl))
      fun _ => failure_fail huses _

end GrevirPeripherals.OwnerDiagnosis
