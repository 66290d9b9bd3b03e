import GrevirPeripherals.InterruptSelection

/-!
The interrupt plan that a solution carries: one binding for each requested and
demanded event, taken from the selected candidates.
-/

namespace GrevirPeripherals.InterruptPlan

open GrevirPeripherals.BacktrackingSearch (explore_sound)
open GrevirPeripherals.InterruptModel
open GrevirPeripherals.InterruptSearch
open GrevirPeripherals.InterruptSelection
open GrevirPeripherals.InterruptSolution
open GrevirPeripherals.InterruptSolver
open GrevirPeripherals.InterruptValidation
open GrevirPeripherals.Strings

section PlanOf

variable {Event : Type} [Inhabited Event]

/-- A plan with room for `size` bindings into which `entries` have been written. -/
def planOf (size : Nat) (entries : List (Binding Event)) : SelectedPlan Event where
  bindings := entries ++ List.replicate (size - entries.length) default
  count := entries.length
  allocationOk := true
  searchExhausted := false

theorem planOf_append {size : Nat} {entries : List (Binding Event)} (binding : Binding Event)
    (hroom : entries.length < size) :
    SelectedPlan.append (planOf size entries) binding = planOf size (entries ++ [binding]) := by
  have hsplit : size - entries.length = (size - (entries.length + 1)) + 1 := by omega
  simp [SelectedPlan.append, planOf, hsplit, List.replicate_succ]

/-- `bindings[0..count)`. -/
def liveBindings (plan : SelectedPlan Event) : List (Binding Event) :=
  plan.bindings.take plan.count

theorem liveBindings_planOf (size : Nat) (entries : List (Binding Event)) :
    liveBindings (planOf size entries) = entries := by
  simp [liveBindings, planOf]

end PlanOf

section Emission

variable {Event : Type} [LinearOrder Event]

/-- Each occurrence of the event among the keys appends one binding. -/
theorem emitBindings_eq_iterate (request : Request Event) (candidate : Candidate Event)
    (keys : List Event) (plan : SelectedPlan Event) :
    emitBindings request candidate keys plan =
      (fun plan => SelectedPlan.append plan (bindingOf request candidate))^[
        keys.count request.event] plan := by
  induction keys generalizing plan with
  | nil => rfl
  | cons key keys ih =>
      rw [emitBindings, ih, List.count_cons]
      by_cases hkey : key = request.event
      · simp [hkey]
      · simp [hkey]

/-- The bindings of rows that have received candidates. -/
def bindingsOf (demands : DemandSummary Event) (pairs : List (Request Event × Candidate Event)) :
    List (Binding Event) :=
  (pairs.filter fun pair => demanded demands pair.1.event).map fun pair =>
    bindingOf pair.1 pair.2

theorem bindingsOf_length_le (demands : DemandSummary Event)
    (pairs : List (Request Event × Candidate Event)) :
    (bindingsOf demands pairs).length ≤ pairs.length := by
  simpa [bindingsOf] using List.length_filter_le _ pairs

/-- Every binding comes from a demanded row and its candidate. -/
theorem mem_bindingsOf_iff (demands : DemandSummary Event)
    (pairs : List (Request Event × Candidate Event)) (binding : Binding Event) :
    binding ∈ bindingsOf demands pairs ↔
      ∃ pair ∈ pairs, pair.1.event ∈ demands.live ∧ binding = bindingOf pair.1 pair.2 := by
  simp only [bindingsOf, List.mem_map, List.mem_filter, demanded_eq_true_iff, and_assoc,
    @eq_comm _ binding]

theorem pairwise_bindingsOf (demands : DemandSummary Event)
    {pairs : List (Request Event × Candidate Event)}
    {r : Request Event × Candidate Event → Request Event × Candidate Event → Prop}
    {s : Binding Event → Binding Event → Prop} (hpairs : pairs.Pairwise r)
    (hr : ∀ x y, x.1.event ∈ demands.live → y.1.event ∈ demands.live → r x y →
      s (bindingOf x.1 x.2) (bindingOf y.1 y.2)) :
    (bindingsOf demands pairs).Pairwise s := by
  rw [bindingsOf, List.pairwise_map]
  apply (hpairs.filter _).imp_of_mem
  intro x y hx hy hxy
  have hx' := (demanded_eq_true_iff demands _).mp (List.mem_filter.mp hx).2
  have hy' := (demanded_eq_true_iff demands _).mp (List.mem_filter.mp hy).2
  exact hr x y hx' hy' hxy

variable [Inhabited Event]

theorem emitRows_planOf {demands : DemandSummary Event} (hkeys : demands.live.Nodup)
    (size : Nat) (pairs : List (Request Event × Candidate Event)) (entries : List (Binding Event))
    (hroom : entries.length + pairs.length ≤ size) :
    emitRows demands pairs (planOf size entries) =
      planOf size (entries ++ bindingsOf demands pairs) := by
  induction pairs generalizing entries with
  | nil => simp [emitRows, bindingsOf]
  | cons pair pairs ih =>
      obtain ⟨request, candidate⟩ := pair
      rw [List.length_cons] at hroom
      rw [emitRows, emitBindings_eq_iterate]
      by_cases hlive : request.event ∈ demands.live
      · have hcount : demands.live.count request.event = 1 :=
          List.count_eq_one_of_mem hkeys hlive
        have hdemanded := (demanded_eq_true_iff demands request.event).mpr hlive
        rw [hcount, Function.iterate_one, planOf_append _ (by omega), ih _ (by simp; omega)]
        simp [bindingsOf, hdemanded]
      · have hcount : demands.live.count request.event = 0 := List.count_eq_zero_of_not_mem hlive
        have hdemanded : demanded demands request.event = false := by
          rw [← Bool.not_eq_true, demanded_eq_true_iff]
          exact hlive
        rw [hcount, Function.iterate_zero, id_eq, ih _ (by omega)]
        simp [bindingsOf, hdemanded]

theorem selectedSolution_interrupts {demands : DemandSummary Event} (hkeys : demands.live.Nodup)
    (requests : List (Request Event)) (selection : List (Candidate Event)) (visited : UInt32) :
    (selectedSolution demands requests selection visited).interrupts =
      planOf requests.length (bindingsOf demands (requests.zip selection)) := by
  have hempty : ({ SelectedPlan.empty requests.length with allocationOk := true } :
      SelectedPlan Event) = planOf requests.length [] := by
    simp [SelectedPlan.empty, planOf]
  rw [selectedSolution, hempty, emitRows_planOf hkeys, List.nil_append]
  rw [List.length_zip, List.length_nil]
  omega

end Emission

section Plan

variable {Event : Type}

/-- All fields of a binding are those of one candidate that serves its event. -/
structure TakenFrom (binding : Binding Event) (candidate : Candidate Event) : Prop where
  event : candidate.request = binding.event
  owner : binding.owner = candidate.owner
  configuration : binding.configuration = candidate.configuration
  source : binding.source = candidate.source
  selector : binding.selector = candidate.selector
  entry : binding.entry = candidate.entry
  snapshotPolicy : binding.snapshotPolicy = candidate.snapshotPolicy
  acknowledgePolicy : binding.acknowledgePolicy = candidate.acknowledgePolicy
  free : candidate.reserved = false
  periodEvent : candidate.periodEvent = true

/-- The plan of a solution is the one its configurations call for: exactly the
requested and demanded events, in ascending order, each served by the candidate
selected at the row of its request, and nothing shared. -/
structure ExclusivePlan [LinearOrder Event] (problem : Problem Event)
    (demands : DemandSummary Event) (solution : Solution Event) : Prop where
  allocationOk : solution.interrupts.allocationOk = true
  capacity : solution.interrupts.bindings.length = problem.requests.length
  count_le : solution.interrupts.count ≤ problem.requests.length
  ascending : (liveBindings solution.interrupts).Pairwise fun a b => a.event < b.event
  events : ∀ event, event ∈ (liveBindings solution.interrupts).map Binding.event ↔
    event ∈ problem.requests.map Request.event ∧ event ∈ demands.live
  selected : ∃ assignment : List (Candidate Event),
    List.Forall₂ (fun request candidate =>
        candidate ∈ problem.candidates ∧ Eligible demands request candidate)
      (ascendingRequests problem.requests) assignment ∧
    solution.configurations = assignment.map Candidate.configuration ∧
    (assignment.Pairwise fun a b => a.timer ≠ b.timer) ∧
    ∀ binding ∈ liveBindings solution.interrupts,
      ∃ (row : Nat) (request : Request Event) (candidate : Candidate Event),
      (ascendingRequests problem.requests)[row]? = some request ∧
        request.event = binding.event ∧ assignment[row]? = some candidate ∧
          solution.configurations[row]? = some binding.configuration ∧
            TakenFrom binding candidate
  sources : (liveBindings solution.interrupts).Pairwise fun a b => a.source ≠ b.source
  entries : (liveBindings solution.interrupts).Pairwise fun a b => a.entry ≠ b.entry

end Plan

section Exactness

variable {Event : Type} [LinearOrder Event] [Inhabited Event]

theorem exclusivePlan_of_selectedSolution {problem : Problem Event}
    {demands : DemandSummary Event} (hevents : DistinctEvents problem.requests)
    (hkeys : demands.live.Nodup) {assignment : List (Candidate Event)}
    (h : CompatibleAssignment problem.candidates demands (sortedRequests problem.requests)
      assignment) (visited : UInt32) :
    ExclusivePlan problem demands
      (selectedSolution demands (sortedRequests problem.requests) assignment visited) := by
  have hlength := h.eligible.length_eq
  have hinterrupts := selectedSolution_interrupts hkeys (sortedRequests problem.requests)
    assignment visited
  have hrows : ((sortedRequests problem.requests).zip assignment).map Prod.fst =
      sortedRequests problem.requests := List.map_fst_zip hlength.le
  have hassignment : ((sortedRequests problem.requests).zip assignment).map Prod.snd =
      assignment := List.map_snd_zip hlength.ge
  have hentries := bindingsOf_length_le demands
    ((sortedRequests problem.requests).zip assignment)
  rw [List.length_zip, ← hlength, min_self, sortedRequests_length] at hentries
  rw [sortedRequests_length] at hinterrupts
  constructor
  · rw [hinterrupts]
    rfl
  · rw [hinterrupts, planOf]
    simp only [List.length_append, List.length_replicate]
    omega
  · rw [hinterrupts]
    exact hentries
  · rw [hinterrupts, liveBindings_planOf]
    have hstrict := sortedRequests_strict hevents
    rw [← hrows, List.pairwise_map] at hstrict
    exact pairwise_bindingsOf demands hstrict fun _ _ _ _ hxy => hxy
  · intro event
    rw [hinterrupts, liveBindings_planOf, List.mem_map]
    constructor
    · rintro ⟨binding, hbinding, rfl⟩
      obtain ⟨pair, hpair, hlive, rfl⟩ := (mem_bindingsOf_iff _ _ _).mp hbinding
      have hmem := (mem_sortedRequests _ _).mp (List.of_mem_zip hpair).1
      exact ⟨List.mem_map_of_mem hmem, hlive⟩
    · rintro ⟨hrequest, hlive⟩
      obtain ⟨request, hmem, rfl⟩ := List.mem_map.mp hrequest
      rw [← mem_sortedRequests, ← hrows, List.mem_map] at hmem
      obtain ⟨pair, hpair, rfl⟩ := hmem
      exact ⟨_, (mem_bindingsOf_iff _ _ _).mpr ⟨pair, hpair, hlive, rfl⟩, rfl⟩
  · refine ⟨assignment, ?_, rfl, ?_, ?_⟩
    · rw [← sortedRequests_eq_ascending hevents]
      exact h.eligible
    · have htimers := h.compatible.imp fun hxy => hxy.timer
      rw [← hassignment, List.pairwise_map]
      exact htimers
    · intro binding hbinding
      rw [hinterrupts, liveBindings_planOf, mem_bindingsOf_iff] at hbinding
      obtain ⟨pair, hpair, hlive, rfl⟩ := hbinding
      obtain ⟨-, heligible⟩ := List.forall₂_zip h.eligible hpair
      obtain ⟨row, hrow⟩ := List.mem_iff_getElem?.mp hpair
      rw [List.getElem?_zip_eq_some] at hrow
      refine ⟨row, pair.1, pair.2, ?_, rfl, hrow.2, ?_, ?_⟩
      · rw [← sortedRequests_eq_ascending hevents]
        exact hrow.1
      · simp [selectedSolution, hrow.2, bindingOf]
      · exact ⟨heligible.event, rfl, rfl, rfl, rfl, rfl, rfl, rfl, heligible.free,
          heligible.periodEvent hlive⟩
  · rw [hinterrupts, liveBindings_planOf]
    exact pairwise_bindingsOf demands h.compatible fun _ _ hx hy hxy => hxy.source hx hy
  · rw [hinterrupts, liveBindings_planOf]
    exact pairwise_bindingsOf demands h.compatible fun _ _ hx hy hxy => hxy.entry hx hy

/-- Every failure of the solver leaves the plan and the configurations empty. -/
theorem solve_eq_failedSolution {validComponent : StringView → Bool} {problem : Problem Event}
    {demands : DemandSummary Event} {budget : UInt32}
    (h : (solve validComponent problem demands budget).error ≠ .none) :
    ∃ error visited, solve validComponent problem demands budget =
      failedSolution problem.requests.length error visited := by
  by_cases hevents : DistinctEvents problem.requests
  · by_cases hcandidates : ValidCandidates validComponent problem.candidates
    · rw [solve_of_valid ⟨hevents, hcandidates⟩] at h ⊢
      split_ifs at h ⊢ with hcost
      · cases hanswer : (exploreProblem problem demands).1 with
        | some selection =>
            rw [hanswer] at h
            exact absurd rfl h
        | none => exact ⟨_, _, rfl⟩
      · exact ⟨_, _, rfl⟩
    · obtain ⟨error, -, hsolve⟩ := solve_of_invalidCandidates hevents hcandidates
      exact ⟨error, 0, hsolve demands budget⟩
  · exact ⟨_, _, solve_of_duplicateRequest hevents demands budget⟩

/-- The plan of a successful run is exact and exclusive; that of a failed run is empty. -/
theorem solve_plan_exact (validComponent : StringView → Bool) (problem : Problem Event)
    (demands : DemandSummary Event) (budget : UInt32) (hkeys : demands.live.Nodup) :
    ((solve validComponent problem demands budget).error = .none →
        ExclusivePlan problem demands (solve validComponent problem demands budget)) ∧
      ((solve validComponent problem demands budget).error ≠ .none →
        (solve validComponent problem demands budget).interrupts =
            SelectedPlan.empty problem.requests.length ∧
          (solve validComponent problem demands budget).configurations =
            List.replicate problem.requests.length []) := by
  constructor
  · intro hnone
    obtain ⟨hvalid, selection, visited, hanswer, hsolve⟩ := exists_selection_of_solve_none hnone
    rw [hsolve]
    have hselection := explore_sound admits hanswer
    have hassignment := (compatibleAssignment_of_isSelection _ demands hselection).congr
      (mem_sortedCandidates problem.candidates)
    exact exclusivePlan_of_selectedSolution hvalid.events hkeys hassignment visited
  · intro herror
    obtain ⟨error, visited, hsolve⟩ := solve_eq_failedSolution herror
    rw [hsolve]
    exact ⟨rfl, rfl⟩

theorem board_plan_exact :
    ExclusivePlan boardProblem boardDemands
      (solve nonemptyName boardProblem boardDemands 100) :=
  (solve_plan_exact nonemptyName boardProblem boardDemands 100 (by decide)).1 (by decide +kernel)

end Exactness

end GrevirPeripherals.InterruptPlan
