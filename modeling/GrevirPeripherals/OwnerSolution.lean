import GrevirPeripherals.OwnerEligibility

/-!
The four ways in which the owner allocator can end, each under a condition on
the problem as it was presented.
-/

namespace GrevirPeripherals.OwnerSolution

open GrevirPeripherals.AllocationSearch
open GrevirPeripherals.OrderedChecks
open GrevirPeripherals.OwnerAllocator
open GrevirPeripherals.OwnerEligibility
open GrevirPeripherals.OwnerModel
open GrevirPeripherals.OwnerValidation
open GrevirPeripherals.StandardSort
open GrevirPeripherals.Strings
open GrevirPeripherals.UnitGrouping

variable {Identity : Type}

section Sorted

variable (sorter : Sorter) (p : Problem Identity)

def sortedDemands : List UseDemand :=
  sorter.sort (byKey UseDemand.key) p.demands

/-- The keys of the plan, in ascending order. -/
def sortedUses : List UseKey :=
  (sortedDemands sorter p).map UseDemand.key

theorem sortedDemands_perm : (sortedDemands sorter p).Perm p.demands :=
  sorter.perm_byKey _ _

theorem sortedDemands_ascending :
    (sortedDemands sorter p).Pairwise fun a b => a.key ≤ b.key :=
  sorter.ascending_byKey _ _

theorem sortedUses_perm : (sortedUses sorter p).Perm (p.demands.map UseDemand.key) :=
  (sortedDemands_perm sorter p).map _

theorem checkDemands_eq_ok {p : Problem Identity} (h : ValidDemands p.demands) :
    checkInOrder checkDemand [] (sortedDemands sorter p) = .ok (sortedDemands sorter p) := by
  rw [checkInOrder_eq_ok_iff]
  exact ⟨rfl, (checked_demands_iff (sortedDemands_ascending sorter p)).mpr
    (h.perm (sortedDemands_perm sorter p).symm)⟩

/-- The unit arrays of the sorted demands. -/
def solverUnits : Units :=
  groupOwners [] (sortedDemands sorter p) ⟨[], []⟩

theorem grouping_solverUnits :
    Grouping (ownersOf (sortedDemands sorter p)) (solverUnits sorter p).unit
      (solverUnits sorter p).first :=
  grouping_of_ascending (sortedDemands_ascending sorter p)

/-- The unit of a demand begins at a demand of the same owner. -/
theorem ownerAt_unit {p : Problem Identity} {i : Nat} (hi : i < (sortedDemands sorter p).length) :
    ownerAt (sortedDemands sorter p) (solverUnits sorter p).first
      ((solverUnits sorter p).unit.getD i 0) = (keyAt (sortedDemands sorter p) i).owner := by
  have hgrouping := grouping_solverUnits sorter p
  have hsize := ownersOf_length (sortedDemands sorter p)
  have hlabel := hgrouping.label_first_unit (hsize.symm ▸ hi)
  have hlt := hgrouping.first_lt _ (hgrouping.unit_lt i (hsize.symm ▸ hi))
  rw [ownersOf_getElem? _ (hsize ▸ hlt), ownersOf_getElem? _ hi] at hlabel
  exact Option.some.inj hlabel

variable [LinearOrder Identity]

def sortedCandidates : List (Candidate Identity) :=
  sorter.sort candidateLess p.candidates

theorem sortedCandidates_perm : (sortedCandidates sorter p).Perm p.candidates := by
  rw [sortedCandidates, candidateLess_eq_byKey]
  exact sorter.perm_byKey _ _

theorem sortedCandidates_ascending :
    (sortedCandidates sorter p).Pairwise fun a b => sortKey a ≤ sortKey b := by
  rw [sortedCandidates, candidateLess_eq_byKey]
  exact sorter.ascending_byKey _ _

variable [Inhabited Identity]

theorem accepted (hdemands : ValidDemands p.demands)
    (hcandidates : ValidCandidates p.demands p.candidates) :
    Accepted (sortedDemands sorter p) (sortedCandidates sorter p) where
  demandsAscending := sortedDemands_ascending sorter p
  validDemands := hdemands.perm (sortedDemands_perm sorter p).symm
  candidatesAscending := sortedCandidates_ascending sorter p
  validCandidates := hcandidates.perm (sortedDemands_perm sorter p).symm
    (sortedCandidates_perm sorter p).symm

end Sorted

/-- Every candidate that fits the owner holds a reserved resource. -/
def NoFreeCandidate (p : Problem Identity) (owner : StringView) : Prop :=
  ∀ c ∈ p.candidates, Fitting p.demands owner c → ¬Unreserved p.reservations c

section Solve

variable [LinearOrder Identity] [Inhabited Identity] (sorter : Sorter) (search : Search)
  {p : Problem Identity} (budget : UInt32)

theorem solve_of_faulty (h : ¬ValidDemands p.demands) :
    ∃ key, IsLeast {key | Faulty p.demands key} key ∧
      solve sorter search p budget = fail (sortedUses sorter p) 0
        ⟨if WellNamed key then .duplicateIdentity else .invalidIdentity, key, 0⟩ := by
  have hperm := sortedDemands_perm sorter p
  have hascending := sortedDemands_ascending sorter p
  cases hcheck : checkInOrder checkDemand [] (sortedDemands sorter p) with
  | ok demands =>
      have hall := ((checkInOrder_eq_ok_iff _ _ _ _).mp hcheck).2
      exact absurd (((checked_demands_iff hascending).mp hall).perm hperm) h
  | error diagnostic =>
      obtain ⟨hleast, hdiagnostic⟩ := checkDemands_error hascending hcheck
      have hset : {key | Faulty (sortedDemands sorter p) key} = {key | Faulty p.demands key} := by
        ext key
        exact ⟨Faulty.perm hperm, Faulty.perm hperm.symm⟩
      rw [hset] at hleast
      refine ⟨diagnostic.use, hleast, ?_⟩
      rw [← hdiagnostic]
      rw [sortedDemands] at hcheck
      simp only [solve, hcheck]
      rfl

theorem solve_of_invalidCandidates (hdemands : ValidDemands p.demands)
    (hcandidates : ¬ValidCandidates p.demands p.candidates) :
    solve sorter search p budget =
      fail (sortedUses sorter p) 0 ⟨.invalidModel, {}, 0⟩ := by
  have hperm := sortedDemands_perm sorter p
  have hcheck := checkDemands_eq_ok sorter hdemands
  have hrejected : checkCandidates (sortedDemands sorter p) (sortedCandidates sorter p) =
      false := by
    rw [← Bool.not_eq_true, checkCandidates_eq_true_iff]
    intro h
    exact hcandidates (h.perm hperm (sortedCandidates_perm sorter p))
  rw [sortedDemands] at hcheck
  rw [sortedDemands, sortedCandidates] at hrejected
  simp only [solve, hcheck, hrejected]
  rfl

def scanUnits (p : Problem Identity) : Except Diagnostic (List (List Bool)) :=
  (List.range (solverUnits sorter p).first.length).mapM fun u =>
    scanUnit (sortedDemands sorter p) p.reservations (sortedCandidates sorter p)
      (keyAt (sortedDemands sorter p) ((solverUnits sorter p).first.getD u 0))

theorem solve_of_valid (hdemands : ValidDemands p.demands)
    (hcandidates : ValidCandidates p.demands p.candidates) :
    solve sorter search p budget =
      match scanUnits sorter p with
      | .error diagnostic => fail (sortedUses sorter p) 0 diagnostic
      | .ok rows =>
          conclude (sortedUses sorter p) (sortedCandidates sorter p) (solverUnits sorter p) <|
            search.run (eligibleTable (sortedDemands sorter p).length
              (sortedCandidates sorter p).length rows) (solverUnits sorter p).first.length
              (admitsColumns (sortedCandidates sorter p) compatible) budget := by
  have haccepted := accepted sorter p hdemands hcandidates
  have hcheck := checkDemands_eq_ok sorter hdemands
  have hchecked := (checkCandidates_eq_true_iff _ _).mpr haccepted.validCandidates
  rw [sortedDemands] at hcheck
  rw [sortedDemands, sortedCandidates] at hchecked
  simp only [solve, hcheck, hchecked]
  rfl

/-- A unit whose row is complete has a free candidate. -/
theorem not_noFreeCandidate_of_ok (hdemands : ValidDemands p.demands)
    (hcandidates : ValidCandidates p.demands p.candidates) {u : Nat}
    (hok : ∃ row, scanUnit (sortedDemands sorter p) p.reservations (sortedCandidates sorter p)
      (keyAt (sortedDemands sorter p) ((solverUnits sorter p).first.getD u 0)) = .ok row) :
    ¬NoFreeCandidate p (ownerAt (sortedDemands sorter p) (solverUnits sorter p).first u) := by
  intro hnone
  obtain ⟨row, hok⟩ := hok
  obtain ⟨-, c, hc, hfree⟩ := (scanUnit_eq_ok_iff _ _ _ _ _).mp hok
  obtain ⟨hfitting, hunreserved⟩ := ((accepted sorter p hdemands hcandidates).isFree_iff hc _).mp
    hfree
  exact hnone c ((sortedCandidates_perm sorter p).mem_iff.mp hc)
    (hfitting.perm (sortedDemands_perm sorter p)) hunreserved

/-- The first failing unit is the least owner without a free candidate. -/
theorem solve_of_blocked (hdemands : ValidDemands p.demands)
    (hcandidates : ValidCandidates p.demands p.candidates)
    (hblocked : ∃ demand ∈ p.demands, NoFreeCandidate p demand.key.owner) :
    ∃ key diagnostic,
      IsLeast {key | key ∈ p.demands.map UseDemand.key ∧ NoFreeCandidate p key.owner} key ∧
        OwnerReport p.demands p.candidates key diagnostic ∧
          solve sorter search p budget = fail (sortedUses sorter p) 0 diagnostic := by
  have haccepted := accepted sorter p hdemands hcandidates
  have hperm := sortedDemands_perm sorter p
  have hcperm := sortedCandidates_perm sorter p
  have hgrouping := grouping_solverUnits sorter p
  have hsize := ownersOf_length (sortedDemands sorter p)
  rw [solve_of_valid sorter search budget hdemands hcandidates]
  cases hscan : scanUnits sorter p with
  | ok rows =>
      obtain ⟨demand, hdemand, hnone⟩ := hblocked
      obtain ⟨i, hi, rfl⟩ := List.getElem_of_mem (hperm.mem_iff.mpr hdemand)
      have hall := ((mapM_range_eq_ok_iff _ _ _).mp hscan).2
      have hu := hgrouping.unit_lt i (hsize.symm ▸ hi)
      have hfree := not_noFreeCandidate_of_ok sorter hdemands hcandidates ⟨_, hall _ hu⟩
      rw [ownerAt_unit sorter hi, keyAt, List.getD_eq_getElem _ _ hi] at hfree
      exact absurd hnone hfree
  | error diagnostic =>
      obtain ⟨u, hu, herror, hearlier⟩ := (mapM_range_eq_error_iff _ _ _).mp hscan
      obtain ⟨hnone, hreport⟩ := haccepted.ownerReport herror
      have hfirst := hsize ▸ hgrouping.first_lt u hu
      refine ⟨keyAt (sortedDemands sorter p) ((solverUnits sorter p).first.getD u 0), diagnostic,
        ⟨⟨?_, ?_⟩, ?_⟩, hreport.perm hperm hcperm, rfl⟩
      · rw [keyAt, List.getD_eq_getElem _ _ hfirst]
        exact List.mem_map_of_mem (hperm.mem_iff.mp (List.getElem_mem hfirst))
      · intro c hc hfitting
        exact hnone c (hcperm.mem_iff.mpr hc) (hfitting.perm hperm.symm)
      · rintro key ⟨hkey, hblockedKey⟩
        obtain ⟨demand, hdemand, rfl⟩ := List.mem_map.mp hkey
        obtain ⟨i, hi, rfl⟩ := List.getElem_of_mem (hperm.mem_iff.mpr hdemand)
        have hi' := hsize.symm ▸ hi
        have hle : u ≤ (solverUnits sorter p).unit.getD i 0 := by
          by_contra hlt
          apply not_noFreeCandidate_of_ok sorter hdemands hcandidates
            (hearlier _ (Nat.lt_of_not_le hlt))
          rw [ownerAt_unit sorter hi, keyAt, List.getD_eq_getElem _ _ hi]
          exact hblockedKey
        have hplace := hgrouping.first_le_of_unit_le hi' hle
        rw [keyAt, List.getD_eq_getElem _ _ hfirst]
        rcases Nat.eq_or_lt_of_le hplace with heq | hlt
        · simp only [heq, le_refl]
        · exact List.pairwise_iff_getElem.mp haccepted.demandsAscending _ _ hfirst hi hlt

end Solve

end GrevirPeripherals.OwnerSolution
