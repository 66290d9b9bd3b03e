import GrevirPeripherals.OwnerAllocation

/-!
What a successful owner plan guarantees: it binds every use, and no two owners
come to share a resource of any category.
-/

namespace GrevirPeripherals.OwnerSoundness

open GrevirPeripherals.AllocationSearch
open GrevirPeripherals.OwnerAllocation
open GrevirPeripherals.OwnerAllocator
open GrevirPeripherals.OwnerEligibility
open GrevirPeripherals.OwnerModel
open GrevirPeripherals.OwnerSolution
open GrevirPeripherals.OwnerValidation
open GrevirPeripherals.StandardSort
open GrevirPeripherals.Strings

variable {Identity : Type}

theorem sortedUses_strict (sorter : Sorter) {p : Problem Identity}
    (hdemands : ValidDemands p.demands) : (sortedUses sorter p).Pairwise (· < ·) := by
  have hdistinct := (hdemands.perm (sortedDemands_perm sorter p).symm).distinct
  apply List.pairwise_map.mpr
  exact (sortedDemands_ascending sorter p).imp₂ (fun _ _ => lt_of_le_of_ne) hdistinct

theorem ok_fail_iff [Inhabited Identity] (uses : List UseKey) (visited : UInt32)
    (diagnostic : Diagnostic) :
    (fail uses visited diagnostic : Plan Identity).ok = true ↔
      diagnostic.status = .success :=
  decide_eq_true_iff

variable [LinearOrder Identity]

theorem filter_identity_eq {candidates : List (Candidate Identity)}
    (hdistinct : candidates.Pairwise fun a b => a.identity ≠ b.identity)
    {c : Candidate Identity} (hc : c ∈ candidates) :
    candidates.filter (fun other => other.identity = c.identity) = [c] := by
  induction candidates with
  | nil => contradiction
  | cons x rest ih =>
      rw [List.pairwise_cons] at hdistinct
      rcases List.mem_cons.mp hc with rfl | hc
      · rw [List.filter_cons_of_pos (by simp), List.cons.injEq, List.filter_eq_nil_iff]
        refine ⟨rfl, ?_⟩
        intro other hother
        simpa using Ne.symm (hdistinct.1 other hother)
      · have hne := hdistinct.1 c hc
        rw [List.filter_cons_of_neg (by simpa using hne)]
        exact ih hdistinct.2 hc

theorem status_ne_success_of_ownerReport {demands : List UseDemand}
    {candidates : List (Candidate Identity)} {key : UseKey} {diagnostic : Diagnostic}
    (h : OwnerReport demands candidates key diagnostic) :
    diagnostic.status ≠ .success := by
  cases h <;> simp

variable [Inhabited Identity]

/-- For every owner a candidate that is the only one with its identity, belongs
to the owner, answers its demands one to one, and shares no resource with a
reservation or with the candidate of another owner. -/
structure ExclusiveAllocation (p : Problem Identity)
    (choice : StringView → Candidate Identity) : Prop where
  identity : ∀ demand ∈ p.demands, (choice demand.key.owner).identity ≠ default
  unique : ∀ demand ∈ p.demands,
    p.candidates.filter (fun c => c.identity = (choice demand.key.owner).identity) =
      [choice demand.key.owner]
  owner : ∀ demand ∈ p.demands, (choice demand.key.owner).owner = demand.key.owner
  bindings : ∀ demand ∈ p.demands,
    ((choice demand.key.owner).liveBindings.map useOfBinding).Perm
      ((demandsOf p.demands demand.key.owner).map useOfDemand)
  unreserved : ∀ demand ∈ p.demands, ∀ r ∈ p.reservations,
    ¬Occupies (choice demand.key.owner) r
  disjoint : ∀ a ∈ p.demands, ∀ b ∈ p.demands, a.key.owner ≠ b.key.owner →
    ∀ resource, ¬(Occupies (choice a.key.owner) resource ∧
      Occupies (choice b.key.owner) resource)

theorem Allocation.exclusive {p : Problem Identity} (hdemands : ValidDemands p.demands)
    (hcandidates : ValidCandidates p.demands p.candidates)
    {choice : StringView → Candidate Identity} (h : Allocation p choice) :
    ExclusiveAllocation p choice where
  identity demand hdemand :=
    (hcandidates.wellFormed _ (h.mem demand hdemand)).identity
  unique demand hdemand := filter_identity_eq hcandidates.distinct (h.mem demand hdemand)
  owner demand hdemand := (h.fitting demand hdemand).sameOwner
  bindings demand hdemand :=
    (h.fitting demand hdemand).uses_perm hdemands
      (hcandidates.wellFormed _ (h.mem demand hdemand))
  unreserved := h.unreserved
  disjoint a ha b hb hne := by
    rintro resource ⟨hleft, hright⟩
    exact h.disjoint a ha b hb hne resource hleft hright

variable (sorter : Sorter) (search : Search) {p : Problem Identity} {budget : UInt32}

/-- A plan without an error comes from an allocation of a valid problem. -/
theorem exists_allocation_of_ok (hok : (solve sorter search p budget).ok = true) :
    ValidDemands p.demands ∧ ValidCandidates p.demands p.candidates ∧
      ∃ visited choice, Allocation p choice ∧
        solve sorter search p budget =
          { diagnostic := {}
            uses := sortedUses sorter p
            candidates := (sortedUses sorter p).map fun key => (choice key.owner).identity
            visited := visited } := by
  by_cases hdemands : ValidDemands p.demands
  · by_cases hcandidates : ValidCandidates p.demands p.candidates
    · refine ⟨hdemands, hcandidates, ?_⟩
      by_cases hblocked : ∃ demand ∈ p.demands, NoFreeCandidate p demand.key.owner
      · obtain ⟨key, diagnostic, -, hreport, hsolve⟩ :=
          solve_of_blocked sorter search budget hdemands hcandidates hblocked
        rw [hsolve, ok_fail_iff] at hok
        exact absurd hok (status_ne_success_of_ownerReport hreport)
      · have hfree : ∀ demand ∈ p.demands, ¬NoFreeCandidate p demand.key.owner := by
          intro demand hdemand hnone
          exact hblocked ⟨demand, hdemand, hnone⟩
        rcases solve_of_free sorter search budget hdemands hcandidates hfree with
          hsuccess | ⟨visited, -, hsolve⟩ | ⟨visited, hsolve⟩
        · exact hsuccess
        · rw [hsolve, ok_fail_iff] at hok
          contradiction
        · rw [hsolve, ok_fail_iff] at hok
          contradiction
    · rw [solve_of_invalidCandidates sorter search budget hdemands hcandidates,
        ok_fail_iff] at hok
      contradiction
  · obtain ⟨key, -, hsolve⟩ := solve_of_faulty sorter search budget hdemands
    rw [hsolve, ok_fail_iff] at hok
    split_ifs at hok

/-- A successful plan lists the demanded keys in ascending order and gives all
uses of an owner the identity of its candidate in an exclusive allocation. -/
theorem solve_exclusive (hok : (solve sorter search p budget).ok = true) :
    (solve sorter search p budget).uses.Perm (p.demands.map UseDemand.key) ∧
      (solve sorter search p budget).uses.Pairwise (· < ·) ∧
      (∀ identity ∈ (solve sorter search p budget).candidates, identity ≠ default) ∧
      ∃ choice,
        (solve sorter search p budget).candidates =
          (solve sorter search p budget).uses.map (fun key => (choice key.owner).identity) ∧
        ExclusiveAllocation p choice := by
  obtain ⟨hdemands, hcandidates, visited, choice, hallocation, hsolve⟩ :=
    exists_allocation_of_ok sorter search hok
  have hexclusive := Allocation.exclusive hdemands hcandidates hallocation
  rw [hsolve]
  refine ⟨sortedUses_perm sorter p, sortedUses_strict sorter hdemands, ?_, choice, rfl,
    hexclusive⟩
  intro identity hidentity
  obtain ⟨key, hkey, rfl⟩ := List.mem_map.mp hidentity
  obtain ⟨demand, hdemand, rfl⟩ := List.mem_map.mp ((sortedUses_perm sorter p).mem_iff.mp hkey)
  exact hexclusive.identity demand hdemand

section Board

/-- One owner with a PWM output and a period event, one with a period event. -/
def boardDemand (owner localName : String) (kind : UseKind) : UseDemand where
  key := { owner := text owner, localName := text localName }
  kind := kind

def boardProblem : Problem Nat where
  demands := [boardDemand "drive" "output" .pwm, boardDemand "drive" "period" .periodEvent,
    boardDemand "clock" "tick" .periodEvent]
  candidates :=
    [{ owner := text "drive"
       identity := 22
       timer := 2
       bindings := [{ key := (boardDemand "drive" "output" .pwm).key, endpoint := 201, pin := 301 },
         { key := (boardDemand "drive" "period" .pwm).key, kind := .periodEvent, endpoint := 202 },
         {}, {}]
       bindingCount := 2
       exclusiveRoles := [402, 403, 0, 0, 0, 0, 0, 0]
       roleCount := 2 },
      { owner := text "clock"
        identity := 11
        timer := 1
        bindings :=
          [{ key := (boardDemand "clock" "tick" .pwm).key, kind := .periodEvent, endpoint := 101 },
            {}, {}, {}]
        bindingCount := 1
        exclusiveRoles := [401, 0, 0, 0, 0, 0, 0, 0]
        roleCount := 1 }]
  reservations := [302]

theorem board_exclusive :
    ∃ choice,
      (solve insertionSorter backtracking boardProblem 100).candidates =
        (solve insertionSorter backtracking boardProblem 100).uses.map
          (fun key => (choice key.owner).identity) ∧
      ExclusiveAllocation boardProblem choice :=
  (solve_exclusive insertionSorter backtracking (by decide +kernel)).2.2.2

example : (solve insertionSorter backtracking boardProblem 100).candidates = [11, 22, 22] := by
  decide +kernel

end Board

end GrevirPeripherals.OwnerSoundness
