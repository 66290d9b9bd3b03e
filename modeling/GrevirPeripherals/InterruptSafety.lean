import GrevirPeripherals.CheckedExchange
import GrevirPeripherals.InterruptPlan
import Mathlib.Algebra.BigOperators.Group.List.Basic
import Mathlib.Algebra.GroupWithZero.Nat

/-!
`grevir::timer::solve` of `interrupt_allocator.hpp` with every array access checked. It
runs through unless the demand summary counts keys that it does not have, or repeats keys
so often that the plan has no room for their bindings.
-/

namespace GrevirPeripherals.InterruptSafety

open GrevirPeripherals.CheckedExchange
open GrevirPeripherals.CheckedExecution
open GrevirPeripherals.InterruptModel
open GrevirPeripherals.InterruptPlan
open GrevirPeripherals.InterruptSolution
open GrevirPeripherals.InterruptSolver
open GrevirPeripherals.InterruptValidation
open GrevirPeripherals.Strings

variable {Event : Type}

section Sorting

variable [LinearOrder Event]

/-- `requests[i - 1].event == requests[i].event`, unless `i` is the first position. -/
def checkRequestAt (requests : List (Request Event)) (i : Nat) : Checked (Except Error Unit) := do
  if i = 0 then return .ok ()
  else
    let previous ← readAt requests (i - 1)
    let request ← readAt requests i
    return if previous.event = request.event then .error .duplicateRequest else .ok ()

def sortRequestsChecked (requests : List (Request Event)) :
    Checked (Except Error (List (Request Event))) :=
  exchangeCheckFrom (fun a b => a.event < b.event) checkRequestAt 0 requests.length requests

def checkCandidateAt (validComponent : StringView → Bool) (candidates : List (Candidate Event))
    (i : Nat) : Checked (Except Error Unit) := do
  let candidate ← readAt candidates i
  if !wellFormed validComponent candidate then return .error .invalidModel
  else if ← anyBelow candidates i fun earlier => .ok (sameConfiguration candidate earlier) then
    return .error .duplicateCandidate
  else return .ok ()

def sortCandidatesChecked (validComponent : StringView → Bool)
    (candidates : List (Candidate Event)) : Checked (Except Error (List (Candidate Event))) :=
  exchangeCheckFrom less (checkCandidateAt validComponent) 0 candidates.length candidates

theorem checkRequestAt_eq (before : List (Request Event)) (request : Request Event)
    (after : List (Request Event)) :
    checkRequestAt (before ++ request :: after) before.length =
      .ok (checkRequest before request) := by
  rcases List.eq_nil_or_concat before with rfl | ⟨earlier, previous, rfl⟩
  · rfl
  · have hprevious := readAt_length earlier previous (request :: after)
    have hrequest := readAt_length (earlier.concat previous) request after
    rw [checkRequestAt, hrequest]
    simp only [List.concat_eq_append, List.append_assoc, List.singleton_append,
      List.length_append, List.length_singleton, Nat.add_sub_cancel, hprevious]
    simp [checkRequest]

theorem sortRequestsChecked_eq (requests : List (Request Event)) :
    sortRequestsChecked requests = .ok (sortRequests requests) :=
  exchangeCheckFrom_eq checkRequestAt_eq [] requests

theorem checkCandidateAt_eq (validComponent : StringView → Bool)
    (before : List (Candidate Event)) (candidate : Candidate Event)
    (after : List (Candidate Event)) :
    checkCandidateAt validComponent (before ++ candidate :: after) before.length =
      .ok (checkCandidate validComponent before candidate) := by
  have hany : anyBelow (before ++ candidate :: after) before.length
      (fun earlier => .ok (sameConfiguration candidate earlier)) =
        .ok (((before ++ candidate :: after).take before.length).any
          (sameConfiguration candidate)) :=
    anyBelow_eq_ok (by simp) fun _ _ => rfl
  rw [List.take_left] at hany
  rw [checkCandidateAt, readAt_length, ok_bind, hany, checkCandidate]
  cases wellFormed validComponent candidate with
  | false => rfl
  | true => cases before.any (sameConfiguration candidate) <;> rfl

theorem sortCandidatesChecked_eq (validComponent : StringView → Bool)
    (candidates : List (Candidate Event)) :
    sortCandidatesChecked validComponent candidates =
      .ok (sortCandidates validComponent candidates) :=
  exchangeCheckFrom_eq (checkCandidateAt_eq validComponent) [] candidates

end Sorting

section Demands

variable [LinearOrder Event] {demands : DemandSummary Event}

/-- The loop over `demands.keys[0..count)` that sets `demanded`. -/
def demandedChecked (demands : DemandSummary Event) (event : Event) : Checked Bool := do
  let live ← readRun demands.keys 0 demands.count
  return live.any fun key => key = event

theorem demandedChecked_eq_ok (hcount : demands.count ≤ demands.keys.length) (event : Event) :
    demandedChecked demands event = .ok (demanded demands event) := by
  rw [demandedChecked, readRun_eq_ok (by omega), List.drop_zero]
  rfl

theorem demandedChecked_eq_error (hcount : demands.keys.length < demands.count) (event : Event) :
    demandedChecked demands event = .error .outOfRange := by
  rw [demandedChecked, readRun_eq_error (Nat.zero_le _) (by omega)]
  rfl

end Demands

section State

/-- The arrays of the search have one entry for each row, and what is selected is a
position of the candidate array. -/
structure Sized (candidates : List (Candidate Event)) (size : Nat) (state : SearchState) :
    Prop where
  selected : state.selected.length = size
  selectedDemanded : state.selectedDemanded.length = size
  position : candidates ≠ [] → ∀ c ∈ state.selected, c < candidates.length

variable {candidates : List (Candidate Event)} {size : Nat} {state : SearchState}

theorem sized_initial (candidates : List (Candidate Event)) (size : Nat) :
    Sized candidates size (SearchState.initial size) where
  selected := by simp [SearchState.initial]
  selectedDemanded := by simp [SearchState.initial]
  position hne c hc := by
    rw [List.eq_of_mem_replicate hc]
    exact List.length_pos_iff.mpr hne

theorem Sized.select (h : Sized candidates size state) (row : Nat) (demanded : Bool) {c : Nat}
    (hc : c < candidates.length) : Sized candidates size (state.select row c demanded) where
  selected := by simpa [SearchState.select] using h.selected
  selectedDemanded := by simpa [SearchState.select] using h.selectedDemanded
  position hne c' hc' := by
    rcases List.mem_or_eq_of_mem_set hc' with hmem | rfl
    · exact h.position hne c' hmem
    · exact hc

/-- The comparison with `candidates[selected[earlier]]`; the flag of the earlier row is
read only where it matters. -/
def clashesChecked (candidates : List (Candidate Event)) (state : SearchState) (demanded : Bool)
    (candidate : Candidate Event) (earlier : Nat) : Checked Bool := do
  let c ← readAt state.selected earlier
  let used ← readAt candidates c
  if used.timer = candidate.timer then return true
  else if !demanded then return false
  else
    let usedDemanded ← readAt state.selectedDemanded earlier
    return usedDemanded && (used.source = candidate.source || used.entry = candidate.entry)

def compatibleChecked (candidates : List (Candidate Event)) (state : SearchState) (row : Nat)
    (demanded : Bool) (candidate : Candidate Event) : Checked Bool := do
  let clashing ← (List.range row).mapM (clashesChecked candidates state demanded candidate)
  return !clashing.any id

theorem compatibleChecked_eq [Inhabited Event] (h : Sized candidates size state)
    (hne : candidates ≠ []) {row : Nat} (hrow : row < size) (demanded : Bool)
    (candidate : Candidate Event) :
    compatibleChecked candidates state row demanded candidate =
      .ok (compatible candidates state row demanded candidate) := by
  have hclash : ∀ earlier ∈ List.range row,
      clashesChecked candidates state demanded candidate earlier =
        .ok (clashes demanded (state.selectedDemanded.getD earlier false)
          (candidateAt candidates (state.selected.getD earlier 0)) candidate) := by
    intro earlier hearlier
    have hlt : earlier < size := (List.mem_range.mp hearlier).trans hrow
    have hselected : earlier < state.selected.length := h.selected ▸ hlt
    have hposition : state.selected.getD earlier 0 < candidates.length := by
      rw [List.getD_eq_getElem _ _ hselected]
      exact h.position hne _ (List.getElem_mem hselected)
    rw [clashesChecked, readAt_eq_getD hselected 0, ok_bind, readAt_eq_getD hposition default,
      ok_bind, readAt_eq_getD (h.selectedDemanded ▸ hlt) false, ok_bind, candidateAt, clashes]
    generalize candidates.getD (state.selected.getD earlier 0) default = used
    generalize state.selectedDemanded.getD earlier false = usedDemanded
    cases demanded <;> split_ifs <;> simp_all
  rw [compatibleChecked, mapM_eq_ok hclash, ok_bind, compatible, List.any_map]
  rfl

end State

section Search

variable [LinearOrder Event] (candidates : List (Candidate Event)) (demands : DemandSummary Event)
  (budget : UInt32)

def tryCandidatesChecked (request : Request Event) (demanded : Bool) (row : Nat)
    (self : SearchState → Checked (Bool × SearchState)) :
    List Nat → SearchState → Checked (Bool × SearchState)
  | [], state => .ok (false, state)
  | c :: rest, state => do
      let candidate ← readAt candidates c
      if skipped request demanded candidate then
        tryCandidatesChecked request demanded row self rest state
      else if state.visited = budget then
        return (false, { state with exhausted := true })
      else if !(← compatibleChecked candidates state.visit row demanded candidate) then
        tryCandidatesChecked request demanded row self rest state.visit
      else
        let selected ← writeAt state.selected row c
        let selectedDemanded ← writeAt state.selectedDemanded row demanded
        let next ← self { state.visit with
          selected := selected, selectedDemanded := selectedDemanded }
        if next.1 then return (true, next.2)
        else if next.2.exhausted then return (false, next.2)
        else tryCandidatesChecked request demanded row self rest next.2

def searchChecked : List (Request Event) → Nat → SearchState → Checked (Bool × SearchState)
  | [], _, state => .ok (true, state)
  | request :: requests, row, state => do
      let demanded ← demandedChecked demands request.event
      tryCandidatesChecked candidates budget request demanded row
        (searchChecked requests (row + 1)) (List.range candidates.length) state

variable {candidates demands budget} {size row : Nat} [Inhabited Event]

/-- The call runs through, answers as the unchecked one does and leaves arrays of the same
kind. -/
def RunsThrough (candidates : List (Candidate Event)) (size : Nat)
    (call : SearchState → Checked (Bool × SearchState))
    (unchecked : SearchState → Bool × SearchState) : Prop :=
  ∀ state, Sized candidates size state →
    call state = .ok (unchecked state) ∧ Sized candidates size (unchecked state).2

theorem tryCandidatesChecked_runsThrough (hrow : row < size) (request : Request Event)
    (demanded : Bool) {self : SearchState → Checked (Bool × SearchState)}
    {unchecked : SearchState → Bool × SearchState}
    (hself : RunsThrough candidates size self unchecked) {positions : List Nat}
    (hpositions : ∀ c ∈ positions, c < candidates.length) :
    RunsThrough candidates size
      (tryCandidatesChecked candidates budget request demanded row self positions)
      (tryCandidates candidates budget request demanded row unchecked positions) := by
  induction positions with
  | nil => exact fun state hstate => ⟨rfl, hstate⟩
  | cons c rest ih =>
      rw [List.forall_mem_cons] at hpositions
      obtain ⟨hc, hrest⟩ := hpositions
      have ih := ih hrest
      intro state hstate
      have hvisit : Sized candidates size state.visit := ⟨hstate.1, hstate.2, hstate.3⟩
      have hne : candidates ≠ [] := List.ne_nil_of_length_pos (Nat.zero_lt_of_lt hc)
      rw [tryCandidatesChecked, tryCandidates, readAt_eq_getD hc default, ok_bind, candidateAt]
      split_ifs with hskipped hbudget hcompatible
      · exact ih state hstate
      · exact ⟨rfl, hstate.1, hstate.2, hstate.3⟩
      · rw [compatibleChecked_eq hvisit hne hrow, ok_bind, if_pos hcompatible]
        exact ih state.visit hvisit
      · obtain ⟨hcall, hsized⟩ := hself _ (hvisit.select row demanded hc)
        rw [compatibleChecked_eq hvisit hne hrow, ok_bind, if_neg hcompatible,
          writeAt_eq_ok (hstate.selected ▸ hrow), ok_bind,
          writeAt_eq_ok (hstate.selectedDemanded ▸ hrow), ok_bind]
        change self (state.visit.select row c demanded) = _ at hcall
        change (self (state.visit.select row c demanded) >>= _) = _ ∧ _
        rw [hcall, ok_bind]
        generalize unchecked (state.visit.select row c demanded) = next at hsized ⊢
        obtain ⟨found, state'⟩ := next
        cases found with
        | true => exact ⟨rfl, hsized⟩
        | false =>
            cases hexhausted : state'.exhausted with
            | true => exact ⟨by simp [hexhausted], by simpa [hexhausted] using hsized⟩
            | false => simpa [hexhausted] using ih state' hsized

theorem searchChecked_runsThrough (hcount : demands.count ≤ demands.keys.length)
    (requests : List (Request Event)) (hrow : row + requests.length ≤ size) :
    RunsThrough candidates size (searchChecked candidates demands budget requests row)
      (search candidates demands budget requests row) := by
  induction requests generalizing row with
  | nil => exact fun state hstate => ⟨rfl, hstate⟩
  | cons request requests ih =>
      rw [List.length_cons] at hrow
      intro state hstate
      rw [searchChecked, search, demandedChecked_eq_ok hcount, ok_bind]
      exact tryCandidatesChecked_runsThrough (by omega) request _ (ih (by omega))
        (fun c hc => List.mem_range.mp hc) state hstate

end Search

section Diagnosis

variable [LinearOrder Event] (candidates : List (Candidate Event)) (demands : DemandSummary Event)

/-- The loops of the diagnosis, which end at the first request without a candidate. -/
def diagnoseChecked : List (Request Event) → Checked Error
  | [] => .ok .conflict
  | request :: requests => do
      let flags ← candidates.mapM fun candidate => do
        let demanded ← demandedChecked demands request.event
        return eligible request demanded candidate
      if flags.any id then diagnoseChecked requests else return .noCandidate

variable {demands}

theorem diagnoseChecked_eq (hcount : demands.count ≤ demands.keys.length)
    (requests : List (Request Event)) :
    diagnoseChecked candidates demands requests =
      .ok (diagnose requests candidates demands) := by
  induction requests with
  | nil => rfl
  | cons request requests ih =>
      have hflags : candidates.mapM (fun candidate => do
            let demanded ← demandedChecked demands request.event
            return eligible request demanded candidate) =
          .ok (candidates.map (eligible request (demanded demands request.event))) := by
        apply mapM_eq_ok
        intro candidate _
        rw [demandedChecked_eq_ok hcount]
        rfl
      rw [diagnoseChecked, hflags, ok_bind, ih, List.any_map, Function.id_comp, diagnose,
        diagnose, List.any_cons]
      cases candidates.any (eligible request (demanded demands request.event)) <;> simp

end Diagnosis

section Emission

/-- `bindings[count++] = binding`. -/
def appendChecked (plan : SelectedPlan Event) (binding : Binding Event) :
    Checked (SelectedPlan Event) := do
  let bindings ← writeAt plan.bindings plan.count binding
  return { plan with bindings := bindings, count := plan.count + 1 }

theorem appendChecked_eq_ok {plan : SelectedPlan Event} (binding : Binding Event)
    (h : plan.count < plan.bindings.length) :
    appendChecked plan binding = .ok (SelectedPlan.append plan binding) := by
  rw [appendChecked, writeAt_eq_ok h]
  rfl

theorem appendChecked_eq_error {plan : SelectedPlan Event} (binding : Binding Event)
    (h : plan.bindings.length ≤ plan.count) :
    appendChecked plan binding = .error .outOfRange := by
  rw [appendChecked, writeAt, if_neg (Nat.not_lt.mpr h)]
  rfl

variable [LinearOrder Event]

def emitBindingsChecked (request : Request Event) (candidate : Candidate Event) :
    List Event → SelectedPlan Event → Checked (SelectedPlan Event)
  | [], plan => .ok plan
  | key :: keys, plan => do
      let plan ←
        if key = request.event then appendChecked plan (bindingOf request candidate) else pure plan
      emitBindingsChecked request candidate keys plan

def emitChecked (candidates : List (Candidate Event)) (demands : DemandSummary Event)
    (selected : List Nat) : List (Request Event) → Nat → Solution Event → Checked (Solution Event)
  | [], _, result => .ok result
  | request :: requests, row, result => do
      let c ← readAt selected row
      let candidate ← readAt candidates c
      let configurations ← writeAt result.configurations row candidate.configuration
      let live ← readRun demands.keys 0 demands.count
      let interrupts ← emitBindingsChecked request candidate live result.interrupts
      emitChecked candidates demands selected requests (row + 1)
        { result with configurations := configurations, interrupts := interrupts }

/-- The bindings that the requests ask for, one for each time that a key repeats an event. -/
def bindingCount (demands : DemandSummary Event) (requests : List (Request Event)) : Nat :=
  (requests.map fun request => demands.live.count request.event).sum

theorem bindingCount_perm {requests requests' : List (Request Event)}
    (hperm : requests.Perm requests') (demands : DemandSummary Event) :
    bindingCount demands requests = bindingCount demands requests' :=
  (hperm.map _).sum_eq

theorem bindingCount_le_of_nodup {demands : DemandSummary Event} (hkeys : demands.live.Nodup)
    (requests : List (Request Event)) :
    bindingCount demands requests ≤ requests.length := by
  induction requests with
  | nil => exact Nat.le_refl 0
  | cons request requests ih =>
      have hcount := List.nodup_iff_count_le_one.mp hkeys request.event
      rw [bindingCount, List.map_cons, List.sum_cons, List.length_cons]
      change demands.live.count request.event + bindingCount demands requests ≤ _
      omega

theorem emitBindings_count (request : Request Event) (candidate : Candidate Event)
    (keys : List Event) (plan : SelectedPlan Event) :
    (emitBindings request candidate keys plan).count =
        plan.count + keys.count request.event ∧
      (emitBindings request candidate keys plan).bindings.length = plan.bindings.length := by
  induction keys generalizing plan with
  | nil => exact ⟨rfl, rfl⟩
  | cons key keys ih =>
      rw [emitBindings, List.count_cons, (ih _).1, (ih _).2]
      by_cases hkey : key = request.event
      · simp [hkey, SelectedPlan.append]
        omega
      · simp [hkey]

/-- The loop over the keys runs into the end of the plan exactly when it has not enough
room. -/
theorem emitBindingsChecked_eq (request : Request Event) (candidate : Candidate Event)
    (keys : List Event) {plan : SelectedPlan Event} (hplan : plan.count ≤ plan.bindings.length) :
    emitBindingsChecked request candidate keys plan =
      if plan.count + keys.count request.event ≤ plan.bindings.length then
        .ok (emitBindings request candidate keys plan)
      else .error .outOfRange := by
  induction keys generalizing plan with
  | nil => rw [List.count_nil, Nat.add_zero, if_pos hplan]; rfl
  | cons key keys ih =>
      rw [emitBindingsChecked, emitBindings, List.count_cons]
      by_cases hkey : key = request.event
      · simp only [hkey, if_true, beq_self_eq_true]
        rcases Nat.lt_or_eq_of_le hplan with hroom | hfull
        · have hnext : (SelectedPlan.append plan (bindingOf request candidate)).count ≤
              (SelectedPlan.append plan (bindingOf request candidate)).bindings.length := by
            rw [SelectedPlan.append, List.length_set]
            exact hroom
          rw [appendChecked_eq_ok _ hroom, ok_bind, ih hnext]
          simp only [SelectedPlan.append, List.length_set, Nat.add_assoc, Nat.add_comm 1]
        · rw [appendChecked_eq_error _ hfull.ge, if_neg (by omega)]
          rfl
      · simp only [hkey, if_false, beq_iff_eq, Nat.add_zero]
        exact ih hplan

theorem emitChecked_eq {candidates : List (Candidate Event)} {demands : DemandSummary Event}
    [Inhabited Event] (hcount : demands.count ≤ demands.keys.length) {size : Nat}
    {state : SearchState} (hsized : Sized candidates size state) (hne : size ≠ 0 → candidates ≠ [])
    (requests : List (Request Event)) {row : Nat} (hrow : row + requests.length = size)
    {result : Solution Event} (hconfigurations : result.configurations.length = size)
    (hplan : result.interrupts.count ≤ result.interrupts.bindings.length) :
    emitChecked candidates demands state.selected requests row result =
      if result.interrupts.count + bindingCount demands requests ≤
          result.interrupts.bindings.length then
        .ok (emit candidates demands state.selected requests row result)
      else .error .outOfRange := by
  induction requests generalizing row result with
  | nil => rw [bindingCount, List.map_nil, List.sum_nil, Nat.add_zero, if_pos hplan]; rfl
  | cons request requests ih =>
      rw [List.length_cons] at hrow
      have hselected : row < state.selected.length := by rw [hsized.selected]; omega
      have hposition : state.selected.getD row 0 < candidates.length := by
        rw [List.getD_eq_getElem _ _ hselected]
        exact hsized.position (hne (by omega)) _ (List.getElem_mem hselected)
      have hrowConfigurations : row < result.configurations.length := by
        rw [hconfigurations]
        omega
      rw [emitChecked, readAt_eq_getD hselected 0, ok_bind, readAt_eq_getD hposition default,
        ok_bind, writeAt_eq_ok hrowConfigurations, ok_bind, readRun_eq_ok (by omega), ok_bind,
        List.drop_zero, emitBindingsChecked_eq _ _ _ hplan, bindingCount, List.map_cons,
        List.sum_cons, ← Nat.add_assoc]
      change (if result.interrupts.count + demands.live.count request.event ≤
        result.interrupts.bindings.length then _ else _) >>= _ = _
      rcases Nat.lt_or_ge result.interrupts.bindings.length
        (result.interrupts.count + demands.live.count request.event) with hfull | hroom
      · rw [if_neg (by omega), if_neg (by omega)]
        rfl
      · obtain ⟨hemitted, hlength⟩ := emitBindings_count request
          (candidateAt candidates (state.selected.getD row 0)) demands.live result.interrupts
        have hnext (next : Solution Event) (hconfigurations : next.configurations.length = size)
            (hemitted : next.interrupts.count =
              result.interrupts.count + demands.live.count request.event)
            (hlength : next.interrupts.bindings.length = result.interrupts.bindings.length) :
            emitChecked candidates demands state.selected requests (row + 1) next =
              if result.interrupts.count + demands.live.count request.event +
                  bindingCount demands requests ≤ result.interrupts.bindings.length then
                .ok (emit candidates demands state.selected requests (row + 1) next)
              else .error .outOfRange := by
          rw [ih (by omega) hconfigurations (by rw [hemitted, hlength]; exact hroom), hemitted,
            hlength]
        rw [if_pos hroom, ok_bind]
        exact hnext _ (by simpa using hconfigurations) hemitted hlength

end Emission

section Solve

variable [LinearOrder Event] [Inhabited Event]

def concludeChecked (requests : List (Request Event)) (candidates : List (Candidate Event))
    (demands : DemandSummary Event) (result : Solution Event) (answer : Bool × SearchState) :
    Checked (Solution Event) := do
  let result := { result with visited := answer.2.visited }
  if !answer.1 then
    if answer.2.exhausted then return fail result .exhausted
    else
      let error ← diagnoseChecked candidates demands requests
      return fail result error
  else
    emitChecked candidates demands answer.2.selected requests 0
      { result with interrupts := { result.interrupts with allocationOk := true } }

def solveChecked (validComponent : StringView → Bool) (problem : Problem Event)
    (demands : DemandSummary Event) (budget : UInt32) : Checked (Solution Event) := do
  let size := problem.requests.length
  let result : Solution Event := Solution.initial size
  match ← sortRequestsChecked problem.requests with
  | .error error => return fail result error
  | .ok requests =>
      match ← sortCandidatesChecked validComponent problem.candidates with
      | .error error => return fail result error
      | .ok candidates =>
          let answer ← searchChecked candidates demands budget requests 0
            (SearchState.initial size)
          concludeChecked requests candidates demands result answer

/-- The summary counts keys past the end of its array, and the search gets to read them. -/
def CountsMissingKeys (validComponent : StringView → Bool) (problem : Problem Event)
    (demands : DemandSummary Event) : Prop :=
  ValidProblem validComponent problem ∧ problem.requests ≠ [] ∧
    demands.keys.length < demands.count

/-- The requests can be served, but the summary repeats keys and the plan is too small. -/
def OverrunsPlan (validComponent : StringView → Bool) (problem : Problem Event)
    (demands : DemandSummary Event) (budget : UInt32) : Prop :=
  (solve validComponent problem demands budget).error = .none ∧
    problem.requests.length < bindingCount demands problem.requests

variable {validComponent : StringView → Bool} {problem : Problem Event}
  {demands : DemandSummary Event} {budget : UInt32}

theorem concludeChecked_eq {requests : List (Request Event)} {candidates : List (Candidate Event)}
    (hcount : demands.count ≤ demands.keys.length) {answer : Bool × SearchState}
    (hsized : Sized candidates requests.length answer.2)
    (hne : answer.1 = true → requests.length ≠ 0 → candidates ≠ []) :
    concludeChecked requests candidates demands (Solution.initial requests.length) answer =
      if answer.1 = true ∧ requests.length < bindingCount demands requests then
        .error .outOfRange
      else .ok (conclude requests candidates demands (Solution.initial requests.length)
        answer) := by
  obtain ⟨found, state⟩ := answer
  rw [concludeChecked, conclude]
  cases found with
  | false =>
      simp only [Bool.not_false, if_true, Bool.false_eq_true, false_and, if_false]
      split_ifs
      · rfl
      · rw [diagnoseChecked_eq candidates hcount]
        rfl
  | true =>
      simp only [Bool.not_true, Bool.false_eq_true, if_false, true_and]
      rw [emitChecked_eq hcount hsized (hne rfl) requests (Nat.zero_add _)
        (by simp [Solution.initial])
        (by simp [Solution.initial, SelectedPlan.empty])]
      simp only [Solution.initial, SelectedPlan.empty, List.length_replicate, Nat.zero_add]
      split_ifs with hroom hover hover
      · omega
      · rfl
      · rfl
      · omega

theorem solveChecked_of_invalid (hinvalid : ¬ValidProblem validComponent problem) :
    solveChecked validComponent problem demands budget =
      .ok (solve validComponent problem demands budget) := by
  rw [solveChecked, solve, sortRequestsChecked_eq, ok_bind, sortRequests_eq]
  split_ifs with hevents
  · simp only [sortCandidatesChecked_eq, ok_bind]
    cases hsorted : sortCandidates validComponent problem.candidates with
    | error error => rfl
    | ok candidates =>
        have hcandidates := ((sortCandidates_eq_ok_iff _ _ _).mp hsorted).2
        exact absurd ⟨hevents, hcandidates⟩ hinvalid
  · rfl

theorem solveChecked_of_valid (hvalid : ValidProblem validComponent problem) :
    solveChecked validComponent problem demands budget =
      (searchChecked (sortedCandidates problem.candidates) demands budget
          (sortedRequests problem.requests) 0 (SearchState.initial problem.requests.length) >>=
        concludeChecked (sortedRequests problem.requests) (sortedCandidates problem.candidates)
          demands (Solution.initial problem.requests.length)) := by
  have hcandidates := (sortCandidates_eq_ok_iff validComponent problem.candidates _).mpr
    ⟨rfl, hvalid.candidates⟩
  rw [solveChecked, sortRequestsChecked_eq, ok_bind, sortRequests_eq, if_pos hvalid.events]
  simp only [sortCandidatesChecked_eq, ok_bind, hcandidates]

/-- A row is only ever filled from the candidate array. -/
theorem candidates_ne_nil_of_found {candidates : List (Candidate Event)}
    {requests : List (Request Event)} {row : Nat} {state : SearchState}
    (hfound : (search candidates demands budget requests row state).1 = true)
    (hrequests : requests.length ≠ 0) : candidates ≠ [] := by
  rintro rfl
  cases requests with
  | nil => exact hrequests rfl
  | cons request requests => simp [search, tryCandidates] at hfound

theorem conclude_error_eq_none_iff (requests : List (Request Event))
    (candidates : List (Candidate Event)) (demands : DemandSummary Event)
    (answer : Bool × SearchState) :
    (conclude requests candidates demands (Solution.initial requests.length) answer).error =
      .none ↔ answer.1 = true := by
  obtain ⟨found, state⟩ := answer
  cases found with
  | true => simp [conclude_found, selectedSolution]
  | false =>
      rw [conclude_failed, failedSolution_error]
      split_ifs <;> simp [diagnose_ne_none]

theorem solveChecked_of_counted (hvalid : ValidProblem validComponent problem)
    (hcount : demands.count ≤ demands.keys.length) :
    solveChecked validComponent problem demands budget =
      if (solve validComponent problem demands budget).error = .none ∧
          problem.requests.length < bindingCount demands problem.requests then
        .error .outOfRange
      else .ok (solve validComponent problem demands budget) := by
  have hlength := sortedRequests_length problem.requests
  have hruns : RunsThrough (sortedCandidates problem.candidates) problem.requests.length
      (searchChecked (sortedCandidates problem.candidates) demands budget
        (sortedRequests problem.requests) 0)
      (search (sortedCandidates problem.candidates) demands budget
        (sortedRequests problem.requests) 0) :=
    searchChecked_runsThrough hcount _ (by omega)
  obtain ⟨hsearch, hsized⟩ := hruns _ (sized_initial _ _)
  rw [solveChecked_of_valid hvalid, hsearch, ok_bind, solve_eq_conclude hvalid,
    ← bindingCount_perm (sortedRequests_perm problem.requests) demands, ← hlength]
  rw [← hlength] at hsized
  simp only [concludeChecked_eq hcount hsized candidates_ne_nil_of_found,
    conclude_error_eq_none_iff]

theorem solveChecked_of_missingKeys
    (h : CountsMissingKeys validComponent problem demands) :
    solveChecked validComponent problem demands budget = .error .outOfRange := by
  obtain ⟨hvalid, hne, hmissing⟩ := h
  have hlength := sortedRequests_length problem.requests
  rw [solveChecked_of_valid hvalid]
  cases hsorted : sortedRequests problem.requests with
  | nil =>
      rw [hsorted] at hlength
      exact absurd (List.length_eq_zero_iff.mp hlength.symm) hne
  | cons request requests =>
      rw [searchChecked, demandedChecked_eq_error hmissing]
      rfl

theorem solveChecked_of_no_requests (hvalid : ValidProblem validComponent problem)
    (hrequests : problem.requests = []) :
    solveChecked validComponent problem demands budget =
      .ok (solve validComponent problem demands budget) := by
  have hsorted : sortedRequests problem.requests = [] := by
    rw [← List.length_eq_zero_iff, sortedRequests_length, hrequests, List.length_nil]
  rw [solveChecked_of_valid hvalid, solve_eq_conclude hvalid, hsorted, hrequests]
  rfl

/-- Which evaluations of the solver leave an array. -/
structure FaultsExactly (validComponent : StringView → Bool) (problem : Problem Event)
    (demands : DemandSummary Event) (budget : UInt32) : Prop where
  faults : CountsMissingKeys validComponent problem demands ∨
      OverrunsPlan validComponent problem demands budget →
    solveChecked validComponent problem demands budget = .error .outOfRange
  runs : ¬(CountsMissingKeys validComponent problem demands ∨
      OverrunsPlan validComponent problem demands budget) →
    solveChecked validComponent problem demands budget =
      .ok (solve validComponent problem demands budget)
  distinct : demands.count ≤ demands.keys.length → demands.live.Nodup →
    solveChecked validComponent problem demands budget =
      .ok (solve validComponent problem demands budget)

/-- The solver leaves an array exactly where the summary counts keys that it does not have
or repeats keys until the plan is too small, and a summary of distinct keys does neither. -/
theorem solve_faults_exactly (validComponent : StringView → Bool) (problem : Problem Event)
    (demands : DemandSummary Event) (budget : UInt32) :
    FaultsExactly validComponent problem demands budget := by
  have hruns (hnot : ¬(CountsMissingKeys validComponent problem demands ∨
      OverrunsPlan validComponent problem demands budget)) :
      solveChecked validComponent problem demands budget =
        .ok (solve validComponent problem demands budget) := by
    rw [not_or] at hnot
    by_cases hvalid : ValidProblem validComponent problem
    · rcases eq_or_ne problem.requests [] with hrequests | hne
      · exact solveChecked_of_no_requests hvalid hrequests
      · have hcount : demands.count ≤ demands.keys.length :=
          not_lt.mp fun hmissing => hnot.1 ⟨hvalid, hne, hmissing⟩
        rw [solveChecked_of_counted hvalid hcount]
        exact if_neg hnot.2
    · exact solveChecked_of_invalid hvalid
  refine ⟨?_, hruns, ?_⟩
  · rintro (hmissing | hover)
    · exact solveChecked_of_missingKeys hmissing
    · obtain ⟨hvalid, -⟩ := InterruptSelection.exists_selection_of_solve_none hover.1
      rcases Nat.lt_or_ge demands.keys.length demands.count with hmissing | hcount
      · have hne : problem.requests ≠ [] := by
          intro hrequests
          have hlt := hover.2
          rw [hrequests] at hlt
          exact Nat.lt_irrefl 0 hlt
        exact solveChecked_of_missingKeys ⟨hvalid, hne, hmissing⟩
      · rw [solveChecked_of_counted hvalid hcount]
        exact if_pos hover
  · intro hcount hkeys
    apply hruns
    rintro (hmissing | hover)
    · exact Nat.not_lt.mpr hcount hmissing.2.2
    · exact Nat.not_lt.mpr (bindingCount_le_of_nodup hkeys problem.requests) hover.2

/-- The demonstration board with a key that its summary repeats. -/
example : solveChecked nonemptyName InterruptSelection.boardProblem
    { keys := [1, 2, 1], count := 3 } 100 = .error .outOfRange := by
  decide +kernel

end Solve

end GrevirPeripherals.InterruptSafety
