import GrevirPeripherals.InterruptBudget
import Mathlib.Data.List.Perm.Subperm

/-!
`validates` of `interrupt_allocator.hpp`, the check of a plan against a problem
that may be enumerated in another order than the one the plan was computed from.
-/

namespace GrevirPeripherals.InterruptPlanCheck

open GrevirPeripherals.InterruptBudget
open GrevirPeripherals.InterruptModel
open GrevirPeripherals.InterruptPlan
open GrevirPeripherals.InterruptSelection
open GrevirPeripherals.InterruptSolution
open GrevirPeripherals.InterruptSolver
open GrevirPeripherals.InterruptValidation
open GrevirPeripherals.Strings

variable {Event : Type} [LinearOrder Event]

/-- The inner loop of the catalog test; a second request for the key ends it. -/
def namedOnce (key : Event) (found : Bool) : List (Request Event) → Bool
  | [] => found
  | request :: requests =>
      if request.event = key then if found then false else namedOnce key true requests
      else namedOnce key found requests

/-- `bindings[i]`. -/
def bindingAt [Inhabited Event] (plan : SelectedPlan Event) (i : Nat) : Binding Event :=
  plan.bindings.getD i default

/-- The budget of a call of `solve` that does not name one. -/
def defaultBudget : UInt32 :=
  100000

/-- `catalog` holds the keys of the event catalog of the specification. -/
def validates [Inhabited Event] (validComponent : StringView → Bool) (catalog : List Event)
    (problem : Problem Event) (demands : DemandSummary Event) (plan : SelectedPlan Event) :
    Bool :=
  let size := problem.requests.length
  if size ≠ catalog.length then false
  else if !catalog.all fun key => namedOnce key false problem.requests then false
  else
    let solution := solve validComponent problem demands defaultBudget
    if solution.error ≠ .none || size < plan.count
        || plan.count ≠ solution.interrupts.count
        || plan.allocationOk ≠ solution.interrupts.allocationOk
        || plan.searchExhausted ≠ solution.interrupts.searchExhausted then false
    else (List.range plan.count).all fun i => bindingAt plan i = bindingAt solution.interrupts i

section Catalog

theorem namedOnce_eq_true_iff (key : Event) (found : Bool) (requests : List (Request Event)) :
    namedOnce key found requests = true ↔
      (requests.map Request.event).count key + found.toNat = 1 := by
  induction requests generalizing found with
  | nil => cases found <;> simp [namedOnce]
  | cons request requests ih =>
      rw [namedOnce, List.map_cons, List.count_cons]
      by_cases hkey : request.event = key
      · cases found with
        | true => simp [hkey]
        | false => simp [hkey, ih]
      · simp [hkey, ih]

/-- Every key of the catalog is requested once, and nothing else is requested. -/
structure NamesCatalog (catalog : List Event) (requests : List (Request Event)) : Prop where
  once : ∀ key ∈ catalog, (requests.map Request.event).count key = 1
  known : ∀ request ∈ requests, request.event ∈ catalog

theorem NamesCatalog.of_perm {catalog : List Event} (hcatalog : catalog.Nodup)
    {requests : List (Request Event)} (h : (requests.map Request.event).Perm catalog) :
    NamesCatalog catalog requests where
  once key hkey := by
    rw [h.count_eq, List.count_eq_one_of_mem hcatalog hkey]
  known request hrequest := h.mem_iff.mp (List.mem_map_of_mem hrequest)

/-- Of as many requests as there are keys, each key finding one, none is left over. -/
theorem namesCatalog_of_once {catalog : List Event} (hcatalog : catalog.Nodup)
    {requests : List (Request Event)} (hlength : requests.length = catalog.length)
    (honce : ∀ key ∈ catalog, (requests.map Request.event).count key = 1) :
    NamesCatalog catalog requests := by
  have hsubset : catalog ⊆ requests.map Request.event := by
    intro key hkey
    have hcount := honce key hkey
    exact List.count_pos_iff.mp (by omega)
  have hperm : catalog.Perm (requests.map Request.event) := by
    apply (hcatalog.subperm hsubset).perm_of_length_le
    rw [List.length_map, hlength]
  exact .of_perm hcatalog hperm.symm

end Catalog

section Validates

variable [Inhabited Event] {validComponent : StringView → Bool} {catalog : List Event}

/-- The plans agree in everything a reader of the live bindings can see. -/
structure Agrees (plan selected : SelectedPlan Event) : Prop where
  count : plan.count = selected.count
  allocationOk : plan.allocationOk = selected.allocationOk
  searchExhausted : plan.searchExhausted = selected.searchExhausted
  bindings : ∀ i, i < plan.count → bindingAt plan i = bindingAt selected i

theorem validates_eq_true_iff (problem : Problem Event) (demands : DemandSummary Event)
    (plan : SelectedPlan Event) :
    validates validComponent catalog problem demands plan = true ↔
      (problem.requests.length = catalog.length ∧
        ∀ key ∈ catalog, (problem.requests.map Request.event).count key = 1) ∧
      (solve validComponent problem demands defaultBudget).error = .none ∧
      plan.count ≤ problem.requests.length ∧
      Agrees plan (solve validComponent problem demands defaultBudget).interrupts := by
  have hcatalog : (catalog.all fun key => namedOnce key false problem.requests) = true ↔
      ∀ key ∈ catalog, (problem.requests.map Request.event).count key = 1 := by
    simp only [List.all_eq_true, namedOnce_eq_true_iff, Bool.toNat_false, Nat.add_zero]
  simp only [validates]
  split_ifs with hlength hnamed hrejected
  · exact iff_of_false (by simp) fun h => hlength h.1.1
  · refine iff_of_false (by simp) fun h => ?_
    rw [Bool.not_eq_true', ← Bool.not_eq_true, hcatalog] at hnamed
    exact hnamed h.1.2
  · refine iff_of_false (by simp) ?_
    rintro ⟨-, herror, hcount, hagrees⟩
    simp only [herror, hagrees.allocationOk, hagrees.searchExhausted, hcount.not_gt] at hrejected
    simp [hagrees.count] at hrejected
  · simp only [Bool.or_eq_true, decide_eq_true_eq, not_or, not_not, Nat.not_lt] at hrejected
    obtain ⟨⟨⟨⟨herror, hcount⟩, hcount'⟩, hallocation⟩, hexhausted⟩ := hrejected
    rw [Bool.not_eq_true', Bool.not_eq_false, hcatalog] at hnamed
    simp only [List.all_eq_true, List.mem_range, decide_eq_true_eq]
    constructor
    · intro hbindings
      exact ⟨⟨not_not.mp hlength, hnamed⟩, herror, hcount,
        ⟨hcount', hallocation, hexhausted, hbindings⟩⟩
    · rintro ⟨-, -, -, hagrees⟩
      exact hagrees.bindings

/-- A plan that `solve` selects has room for its bindings. -/
theorem count_le_of_solve_none {problem : Problem Event} {demands : DemandSummary Event}
    {budget : UInt32} (hkeys : demands.live.Nodup)
    (h : (solve validComponent problem demands budget).error = .none) :
    (solve validComponent problem demands budget).interrupts.count ≤ problem.requests.length := by
  obtain ⟨-, selection, visited, -, hsolve⟩ := exists_selection_of_solve_none h
  rw [hsolve, selectedSolution_interrupts hkeys]
  refine (bindingsOf_length_le _ _).trans ?_
  rw [List.length_zip, sortedRequests_length]
  exact Nat.min_le_left _ _

/-- The plan selected for one enumeration of a problem validates under every other,
and a plan that validates is the one selected. -/
theorem validates_exact (hcatalog : catalog.Nodup) :
    (∀ (problem problem' : Problem Event) (demands demands' : DemandSummary Event),
      (problem.requests.map Request.event).Perm catalog → demands.live.Nodup →
      problem.requests.Perm problem'.requests → problem.candidates.Perm problem'.candidates →
      demands.live.Perm demands'.live →
      (solve validComponent problem demands defaultBudget).error = .none →
        validates validComponent catalog problem' demands'
          (solve validComponent problem demands defaultBudget).interrupts = true) ∧
      ∀ (problem : Problem Event) (demands : DemandSummary Event) (plan : SelectedPlan Event),
        validates validComponent catalog problem demands plan = true →
          NamesCatalog catalog problem.requests ∧
            (solve validComponent problem demands defaultBudget).error = .none ∧
            Agrees plan (solve validComponent problem demands defaultBudget).interrupts := by
  constructor
  · intro problem problem' demands demands' hperm hkeys hrequests hcandidates hkeys' hnone
    obtain ⟨hvalid, -⟩ := exists_selection_of_solve_none hnone
    have hsame := solve_congr_of_valid hvalid hrequests hcandidates hkeys' defaultBudget
    have hcount := count_le_of_solve_none hkeys hnone
    have hevents : (problem'.requests.map Request.event).Perm catalog :=
      (hrequests.map _).symm.trans hperm
    rw [validates_eq_true_iff, ← hsame, ← hrequests.length_eq]
    refine ⟨⟨?_, (NamesCatalog.of_perm hcatalog hevents).once⟩, hnone, hcount, rfl, rfl, rfl,
      fun _ _ => rfl⟩
    simpa using hperm.length_eq
  · intro problem demands plan hvalidates
    obtain ⟨⟨hlength, honce⟩, hnone, -, hagrees⟩ := (validates_eq_true_iff _ _ _).mp hvalidates
    exact ⟨namesCatalog_of_once hcatalog hlength honce, hnone, hagrees⟩

theorem board_validates :
    validates nonemptyName [1, 2]
      { requests := boardProblem.requests.reverse
        candidates := boardProblem.candidates.reverse }
      { keys := [2, 1], count := 2 }
      (solve nonemptyName boardProblem boardDemands defaultBudget).interrupts = true :=
  have hkeys : boardDemands.live.Perm (DemandSummary.live { keys := [2, 1], count := 2 }) :=
    List.Perm.swap 2 1 []
  (validates_exact (by decide)).1 _ _ _ _ (by decide) (by decide) (List.reverse_perm _).symm
    (List.reverse_perm _).symm hkeys (by decide +kernel)

end Validates

end GrevirPeripherals.InterruptPlanCheck
