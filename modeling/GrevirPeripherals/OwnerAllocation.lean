import GrevirPeripherals.OwnerSolution

/-!
Allocations of an owner problem: one candidate for every owner, chosen so that
no resource is reserved or used twice. The search over unit numbers decides
whether one exists, and a successful plan is one.
-/

namespace GrevirPeripherals.OwnerAllocation

open GrevirPeripherals.AllocationSearch
open GrevirPeripherals.OrderedChecks
open GrevirPeripherals.OwnerAllocator
open GrevirPeripherals.OwnerEligibility
open GrevirPeripherals.OwnerModel
open GrevirPeripherals.OwnerSolution
open GrevirPeripherals.OwnerValidation
open GrevirPeripherals.StandardSort
open GrevirPeripherals.Strings
open GrevirPeripherals.UnitGrouping

variable {Identity : Type}

/-- A choice of one candidate for every owner that demands something. -/
structure Allocation (p : Problem Identity) (choice : StringView → Candidate Identity) :
    Prop where
  mem : ∀ demand ∈ p.demands, choice demand.key.owner ∈ p.candidates
  fitting : ∀ demand ∈ p.demands, Fitting p.demands demand.key.owner (choice demand.key.owner)
  unreserved : ∀ demand ∈ p.demands, Unreserved p.reservations (choice demand.key.owner)
  disjoint : ∀ a ∈ p.demands, ∀ b ∈ p.demands, a.key.owner ≠ b.key.owner →
    DisjointResources (choice a.key.owner) (choice b.key.owner)

section Units

variable (sorter : Sorter) (p : Problem Identity)

/-- The owner of a unit of the sorted demands. -/
def unitOwner (u : Nat) : StringView :=
  ownerAt (sortedDemands sorter p) (solverUnits sorter p).first u

theorem label_unitOwner {u : Nat} (hu : u < (solverUnits sorter p).first.length) :
    (ownersOf (sortedDemands sorter p))[(solverUnits sorter p).first.getD u 0]? =
      some (unitOwner sorter p u) := by
  have hlt := (grouping_solverUnits sorter p).first_lt u hu
  rw [ownersOf_length] at hlt
  exact ownersOf_getElem? _ hlt

theorem exists_demand_of_unit {u : Nat} (hu : u < (solverUnits sorter p).first.length) :
    ∃ demand ∈ p.demands, demand.key.owner = unitOwner sorter p u := by
  have hmem := List.mem_of_getElem? (label_unitOwner sorter p hu)
  obtain ⟨demand, hdemand, howner⟩ := List.mem_map.mp hmem
  exact ⟨demand, (sortedDemands_perm sorter p).mem_iff.mp hdemand, howner⟩

theorem exists_unit_of_demand {demand : UseDemand} (hdemand : demand ∈ p.demands) :
    ∃ u, u < (solverUnits sorter p).first.length ∧
      unitOwner sorter p u = demand.key.owner := by
  have hmem : demand.key.owner ∈ ownersOf (sortedDemands sorter p) :=
    List.mem_map_of_mem ((sortedDemands_perm sorter p).mem_iff.mpr hdemand)
  obtain ⟨u, hu, hlabel⟩ := (grouping_solverUnits sorter p).exists_unit hmem
  rw [label_unitOwner sorter p hu] at hlabel
  exact ⟨u, hu, Option.some.inj hlabel⟩

theorem unitOwner_ne {u v : Nat} (hu : u < (solverUnits sorter p).first.length)
    (hv : v < (solverUnits sorter p).first.length) (huv : u ≠ v) :
    unitOwner sorter p u ≠ unitOwner sorter p v := by
  intro heq
  apply (grouping_solverUnits sorter p).label_ne hu hv huv
  rw [label_unitOwner sorter p hu, label_unitOwner sorter p hv, heq]

variable [LinearOrder Identity]

/-- A selection of one candidate for each unit. -/
def ServesUnits (choice : Nat → Candidate Identity) : Prop :=
  Serves (sortedCandidates sorter p)
    (fun u c => Fitting (sortedDemands sorter p) (unitOwner sorter p u) c ∧
      Unreserved p.reservations c)
    (fun a b => compatible a b = true) (solverUnits sorter p).first.length choice

theorem Allocation.servesUnits {p : Problem Identity}
    {choice : StringView → Candidate Identity} (h : Allocation p choice) :
    ServesUnits sorter p fun u => choice (unitOwner sorter p u) := by
  constructor
  · intro u hu
    obtain ⟨demand, hdemand, howner⟩ := exists_demand_of_unit sorter p hu
    rw [← howner]
    exact (sortedCandidates_perm sorter p).mem_iff.mpr (h.mem demand hdemand)
  · intro u hu
    obtain ⟨demand, hdemand, howner⟩ := exists_demand_of_unit sorter p hu
    rw [← howner]
    exact ⟨(h.fitting demand hdemand).perm (sortedDemands_perm sorter p).symm,
      h.unreserved demand hdemand⟩
  · intro u v huv hv
    obtain ⟨a, ha, howner⟩ := exists_demand_of_unit sorter p (huv.trans hv)
    obtain ⟨b, hb, howner'⟩ := exists_demand_of_unit sorter p hv
    have hne := unitOwner_ne sorter p (huv.trans hv) hv huv.ne
    rw [← howner, ← howner'] at hne ⊢
    exact (compatible_eq_true_iff _ _).mpr (h.disjoint a ha b hb hne)

theorem ServesUnits.allocation {p : Problem Identity} {choice : Nat → Candidate Identity}
    (h : ServesUnits sorter p choice) {byOwner : StringView → Candidate Identity}
    (hbyOwner : ∀ u, u < (solverUnits sorter p).first.length →
      byOwner (unitOwner sorter p u) = choice u) : Allocation p byOwner := by
  constructor
  · intro demand hdemand
    obtain ⟨u, hu, howner⟩ := exists_unit_of_demand sorter p hdemand
    rw [← howner, hbyOwner u hu]
    exact (sortedCandidates_perm sorter p).mem_iff.mp (h.mem u hu)
  · intro demand hdemand
    obtain ⟨u, hu, howner⟩ := exists_unit_of_demand sorter p hdemand
    rw [← howner, hbyOwner u hu]
    exact (h.admissible u hu).1.perm (sortedDemands_perm sorter p)
  · intro demand hdemand
    obtain ⟨u, hu, howner⟩ := exists_unit_of_demand sorter p hdemand
    rw [← howner, hbyOwner u hu]
    exact (h.admissible u hu).2
  · intro a ha b hb hne
    obtain ⟨u, hu, howner⟩ := exists_unit_of_demand sorter p ha
    obtain ⟨v, hv, howner'⟩ := exists_unit_of_demand sorter p hb
    rw [← howner, ← howner'] at hne ⊢
    rw [hbyOwner u hu, hbyOwner v hv, ← compatible_eq_true_iff]
    rcases Nat.lt_trichotomy u v with huv | rfl | hvu
    · exact h.compatible u v huv hv
    · exact absurd rfl hne
    · rw [compatible_comm]
      exact h.compatible v u hvu hu

/-- A selection for the units binds every use of an owner to one candidate. -/
theorem ServesUnits.exists_allocation [Inhabited Identity] {p : Problem Identity}
    {choice : Nat → Candidate Identity} (h : ServesUnits sorter p choice) :
    ∃ byOwner, Allocation p byOwner ∧
      (solverUnits sorter p).unit.map (fun u => (choice u).identity) =
        (sortedUses sorter p).map fun key => (byOwner key.owner).identity := by
  obtain ⟨byOwner, hbyOwner, hmap⟩ := (grouping_solverUnits sorter p).exists_byLabel choice
  refine ⟨byOwner, ?_, ?_⟩
  · exact ServesUnits.allocation sorter h fun u hu =>
      hbyOwner u hu _ (label_unitOwner sorter p hu)
  · have hidentities := congrArg (List.map Candidate.identity) hmap
    rw [List.map_map, ownersOf, List.map_map, List.map_map] at hidentities
    rw [sortedUses, List.map_map]
    exact hidentities

end Units

section Solve

variable [LinearOrder Identity] [Inhabited Identity] (sorter : Sorter) (search : Search)
  {p : Problem Identity} (budget : UInt32)

/-- Past the eligibility table the search decides, unless it runs out of budget. -/
theorem solve_of_free (hdemands : ValidDemands p.demands)
    (hcandidates : ValidCandidates p.demands p.candidates)
    (hfree : ∀ demand ∈ p.demands, ¬NoFreeCandidate p demand.key.owner) :
    (∃ visited choice, Allocation p choice ∧
        solve sorter search p budget =
          { diagnostic := {}
            uses := sortedUses sorter p
            candidates := (sortedUses sorter p).map fun key => (choice key.owner).identity
            visited := visited }) ∨
      (∃ visited, (¬∃ choice, Allocation p choice) ∧
        solve sorter search p budget = fail (sortedUses sorter p) visited ⟨.conflict, {}, 0⟩) ∨
      ∃ visited,
        solve sorter search p budget =
          fail (sortedUses sorter p) visited ⟨.exhausted, {}, 0⟩ := by
  have haccepted := accepted sorter p hdemands hcandidates
  rw [solve_of_valid sorter search budget hdemands hcandidates]
  cases hscan : scanUnits sorter p with
  | error diagnostic =>
      obtain ⟨u, hu, herror, -⟩ := (mapM_range_eq_error_iff _ _ _).mp hscan
      obtain ⟨demand, hdemand, howner⟩ := exists_demand_of_unit sorter p hu
      refine absurd ?_ (hfree demand hdemand)
      intro c hc hfitting
      rw [howner] at hfitting
      exact (haccepted.ownerReport herror).1 c
        ((sortedCandidates_perm sorter p).mem_iff.mpr hc)
        (hfitting.perm (sortedDemands_perm sorter p).symm)
  | ok rows =>
      have htable := haccepted.tabulates (sortedDemands sorter p).length
        (sortedCandidates sorter p).length hscan
      simp only [conclude]
      generalize hanswer : search.run _ _ _ budget = answer
      rcases search.verdict htable compatible_comm hanswer with
        ⟨hsuccess, hserves⟩ | ⟨hsuccess, hexhausted, hnone⟩ | ⟨hsuccess, hexhausted⟩
      · obtain ⟨choice, hallocation, hidentities⟩ := ServesUnits.exists_allocation sorter hserves
        refine Or.inl ⟨answer.visited, choice, hallocation, ?_⟩
        simp only [hsuccess, hidentities, Bool.not_true, Bool.false_eq_true, if_false]
      · refine Or.inr (Or.inl ⟨answer.visited, ?_, ?_⟩)
        · rintro ⟨choice, hallocation⟩
          exact hnone ⟨_, hallocation.servesUnits sorter⟩
        · simp only [hsuccess, hexhausted, Bool.not_false, if_true]
          rfl
      · refine Or.inr (Or.inr ⟨answer.visited, ?_⟩)
        simp only [hsuccess, hexhausted, Bool.not_false, if_true]

end Solve

end GrevirPeripherals.OwnerAllocation
