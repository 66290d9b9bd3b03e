import GrevirPeripherals.OwnerVerdict

/-!
The owner allocator on owners that fall into parts whose candidates share no resource. The
owners of all parts can be placed together exactly if those of every part can be.
-/

namespace GrevirPeripherals.OwnerParts

open GrevirPeripherals.AllocationSearch
open GrevirPeripherals.ChoiceProblems
open GrevirPeripherals.ChoiceProblems.ChoiceProblem (Splits)
open GrevirPeripherals.OwnerAllocator
open GrevirPeripherals.OwnerEligibility
open GrevirPeripherals.OwnerModel
open GrevirPeripherals.OwnerSolution
open GrevirPeripherals.OwnerSoundness
open GrevirPeripherals.OwnerValidation
open GrevirPeripherals.OwnerVerdict
open GrevirPeripherals.StandardSort
open GrevirPeripherals.Strings

variable {Identity ι : Type} [DecidableEq ι]

section Parts

variable (p : Problem Identity) (label : StringView → ι)

/-- The demands and candidates of the owners with one label. -/
def partOf (i : ι) : Problem Identity where
  demands := p.demands.filter fun demand => label demand.key.owner = i
  candidates := p.candidates.filter fun c => label c.owner = i
  reservations := p.reservations

/-- Candidates of owners with different labels hold no resource in common. -/
def Separated : Prop :=
  ∀ c ∈ p.candidates, ∀ d ∈ p.candidates, label c.owner ≠ label d.owner → DisjointResources c d

variable {p label}

theorem mem_demands_partOf {i : ι} {demand : UseDemand} :
    demand ∈ (partOf p label i).demands ↔ demand ∈ p.demands ∧ label demand.key.owner = i := by
  rw [partOf, List.mem_filter, decide_eq_true_iff]

theorem mem_candidates_partOf {i : ι} {c : Candidate Identity} :
    c ∈ (partOf p label i).candidates ↔ c ∈ p.candidates ∧ label c.owner = i := by
  rw [partOf, List.mem_filter, decide_eq_true_iff]

/-- An owner has all of its demands in its own part. -/
theorem demandsOf_partOf (p : Problem Identity) (label : StringView → ι) (owner : StringView) :
    demandsOf (partOf p label (label owner)).demands owner = demandsOf p.demands owner := by
  rw [demandsOf, demandsOf, partOf, List.filter_filter]
  apply List.filter_congr
  intro demand _
  rw [Bool.and_eq_left_iff_imp, decide_eq_true_iff, decide_eq_true_iff]
  exact congrArg label

theorem fitting_partOf_iff (owner : StringView) (c : Candidate Identity) :
    Fitting (partOf p label (label owner)).demands owner c ↔ Fitting p.demands owner c := by
  constructor
  · rintro ⟨howner, huses⟩
    rw [demandsOf_partOf p label] at huses
    exact ⟨howner, huses⟩
  · rintro ⟨howner, huses⟩
    rw [← demandsOf_partOf p label] at huses
    exact ⟨howner, huses⟩

/-- The choice of all owners is the choices of the parts. -/
theorem splits (hseparated : Separated p label) :
    Splits label (choiceProblem p) fun i => choiceProblem (partOf p label i) := by
  constructor
  case users =>
    intro owner i
    constructor
    · rintro ⟨demand, hdemand, rfl⟩
      obtain ⟨hmem, hlabel⟩ := mem_demands_partOf.mp hdemand
      exact ⟨⟨demand, hmem, rfl⟩, hlabel⟩
    · rintro ⟨⟨demand, hdemand, rfl⟩, hlabel⟩
      exact ⟨demand, mem_demands_partOf.mpr ⟨hdemand, hlabel⟩, rfl⟩
  case admits =>
    rintro owner - c
    constructor
    · rintro ⟨hc, hfitting, hunreserved⟩
      exact ⟨(mem_candidates_partOf.mp hc).1, (fitting_partOf_iff owner c).mp hfitting, hunreserved⟩
    · rintro ⟨hc, hfitting, hunreserved⟩
      exact ⟨mem_candidates_partOf.mpr ⟨hc, congrArg label hfitting.sameOwner⟩,
        (fitting_partOf_iff owner c).mpr hfitting, hunreserved⟩
  case compatible => exact fun _ _ _ _ _ _ _ => Iff.rfl
  case separated =>
    rintro a - b - hlabel c d ⟨hc, hfitting, -⟩ ⟨hd, hfitting', -⟩
    apply hseparated c hc d hd
    rwa [hfitting.sameOwner, hfitting'.sameOwner]

theorem validDemands_partOf (h : ValidDemands p.demands) (i : ι) :
    ValidDemands (partOf p label i).demands where
  wellNamed demand hdemand := h.wellNamed demand (mem_demands_partOf.mp hdemand).1
  distinct := h.distinct.filter _

/-- The demands of all owners are in order if those of every part are. -/
theorem validDemands_of_parts
    (h : ∀ i, ValidDemands (partOf p label i).demands) : ValidDemands p.demands where
  wellNamed demand hdemand := (h _).wellNamed demand (mem_demands_partOf.mpr ⟨hdemand, rfl⟩)
  distinct := pairwise_of_parts (f := fun demand : UseDemand => label demand.key.owner)
    (r := fun a b => a.key ≠ b.key)
    (fun _ _ hne heq => hne (congrArg (fun key : UseKey => label key.owner) heq))
    fun i => (h i).distinct

/-- A candidate binds uses of its own owner only, so the part has what it is checked against. -/
theorem validCandidates_partOf [Inhabited Identity] (h : ValidCandidates p.demands p.candidates)
    (i : ι) : ValidCandidates (partOf p label i).demands (partOf p label i).candidates := by
  refine ⟨?_, h.distinct.filter _⟩
  intro c hc
  obtain ⟨hmem, rfl⟩ := mem_candidates_partOf.mp hc
  have hformed := h.wellFormed c hmem
  refine { hformed with bindings := ?_ }
  intro b hb
  obtain ⟨howner, hname, hendpoint, demand, hdemand, huse⟩ := hformed.bindings b hb
  refine ⟨howner, hname, hendpoint, demand, mem_demands_partOf.mpr ⟨hdemand, ?_⟩, huse⟩
  have hkey : demand.key = b.key := congrArg Prod.fst huse
  rw [hkey, howner]

end Parts

section Solve

variable [LinearOrder Identity] [Inhabited Identity]

/-- What the plan of all owners has to do with the plans of the parts. -/
structure Composes (p : Problem Identity) (label : StringView → ι) (whole : Plan Identity)
    (parts : ι → Plan Identity) : Prop where
  solved : whole.ok = true → ∀ i,
    (parts i).ok = true ∨ (parts i).diagnostic.status = .exhausted
  refused : verdict whole.diagnostic.status = .refused → ∃ i,
    verdict (parts i).diagnostic.status = .refused ∨ (parts i).diagnostic.status = .exhausted
  joined : ValidCandidates p.demands p.candidates → (∀ i, (parts i).ok = true) →
    whole.ok = true ∨ whole.diagnostic.status = .exhausted
  uses : whole.ok = true → ∀ i, (parts i).ok = true →
    whole.uses.filter (fun key => label key.owner = i) = (parts i).uses

/-- Two plans that succeed list the uses of a part in the same order. -/
theorem uses_partOf {sorter : Sorter} {search : Search} {p : Problem Identity}
    {label : StringView → ι} {budget budget' : UInt32} {i : ι}
    (hok : (solve sorter search p budget).ok = true)
    (hpart : (solve sorter search (partOf p label i) budget').ok = true) :
    (solve sorter search p budget).uses.filter (fun key => label key.owner = i) =
      (solve sorter search (partOf p label i) budget').uses := by
  obtain ⟨hdemands, -, visited, choice, -, hsolve⟩ := exists_allocation_of_ok sorter search hok
  obtain ⟨hdemands', -, visited', choice', -, hsolve'⟩ :=
    exists_allocation_of_ok sorter search hpart
  rw [hsolve, hsolve']
  have hperm : ((sortedUses sorter p).filter fun key => label key.owner = i).Perm
      (sortedUses sorter (partOf p label i)) := by
    refine ((sortedUses_perm sorter p).filter _).trans ?_
    rw [List.filter_map]
    exact (sortedUses_perm sorter (partOf p label i)).symm
  apply hperm.eq_of_pairwise fun a b _ _ (hab : a < b) (hba : b < a) => absurd hba hab.asymm
  · exact (sortedUses_strict sorter hdemands).filter _
  · exact sortedUses_strict sorter hdemands'

/-- The allocator places the owners of all parts where it places those of every part, and
refuses them only where it does not place those of some part. -/
theorem places_by_parts (sorter : Sorter) (search : Search) (p : Problem Identity)
    (label : StringView → ι) (budget : UInt32) (budgets : ι → UInt32)
    (hseparated : Separated p label) :
    Composes p label (solve sorter search p budget)
      fun i => solve sorter search (partOf p label i) (budgets i) := by
  have hiff := (splits hseparated).solvable_iff
  have hvalid {i : ι} (hdemands : ValidDemands p.demands)
      (hcandidates : ValidCandidates p.demands p.candidates) :=
    verdict_of_valid sorter search (partOf p label i) (budgets i)
      ⟨validDemands_partOf hdemands i, validCandidates_partOf hcandidates i⟩
  constructor
  case solved =>
    intro hok i
    obtain ⟨hdemands, hcandidates, -, choice, hallocation, -⟩ :=
      exists_allocation_of_ok sorter search hok
    have hsolvable := hiff.mp ⟨choice, (solves_iff_allocation p choice).mpr hallocation⟩ i
    exact (hvalid hdemands hcandidates).of_solvable hsolvable
  case refused =>
    intro hrefused
    have hproblem : ValidDemands p.demands ∧ ValidCandidates p.demands p.candidates := by
      by_contra hinvalid
      rw [undecided_of_invalid sorter search p budget hinvalid] at hrefused
      contradiction
    have hnot := (solve_exact sorter search p budget).not_solvable hrefused
    rw [hiff, not_forall] at hnot
    obtain ⟨i, hpart⟩ := hnot
    exact ⟨i, (hvalid hproblem.1 hproblem.2).of_not_solvable hpart⟩
  case joined =>
    intro hcandidates hparts
    have hdemands : ValidDemands p.demands :=
      validDemands_of_parts fun i => (exists_allocation_of_ok sorter search (hparts i)).1
    have hsolvable : (choiceProblem p).Solvable := hiff.mpr fun i => by
      obtain ⟨-, -, -, choice, hallocation, -⟩ := exists_allocation_of_ok sorter search (hparts i)
      exact ⟨choice, (solves_iff_allocation _ choice).mpr hallocation⟩
    have hproblem := And.intro hdemands hcandidates
    exact (verdict_of_valid sorter search p budget hproblem).of_solvable hsolvable
  case uses => exact fun hok i hpart => uses_partOf hok hpart

end Solve

section Board

/-- The two owners of the board share nothing, so each is a part of its own. -/
theorem board_placed_by_parts :
    Composes boardProblem id (solve insertionSorter backtracking boardProblem 100)
      fun owner => solve insertionSorter backtracking (partOf boardProblem id owner) 100 := by
  apply places_by_parts insertionSorter backtracking boardProblem id 100 (fun _ => 100)
  intro c hc d hd hne
  rw [← compatible_eq_true_iff]
  have hapart : ∀ c ∈ boardProblem.candidates, ∀ d ∈ boardProblem.candidates,
      c.owner ≠ d.owner → compatible c d = true := by
    decide +kernel
  exact hapart c hc d hd hne

end Board

end GrevirPeripherals.OwnerParts
