import GrevirPeripherals.ExchangeSort
import GrevirPeripherals.InterruptModel

/-!
`grevir::timer::solve` of `interrupt_allocator.hpp`, loop by loop. The component
check of the interrupt package is a parameter.
-/

namespace GrevirPeripherals.InterruptSolver

open GrevirPeripherals.ExchangeSort
open GrevirPeripherals.InterruptModel
open GrevirPeripherals.Strings

variable {Event : Type} [LinearOrder Event]

/-- A request has reached its position; only its predecessor is compared. -/
def checkRequest (placed : List (Request Event)) (request : Request Event) :
    Except Error Unit :=
  match placed.getLast? with
  | some previous =>
      if previous.event = request.event then .error .duplicateRequest else .ok ()
  | none => .ok ()

def sortRequests (requests : List (Request Event)) : Except Error (List (Request Event)) :=
  exchangeCheck (fun a b => a.event < b.event) checkRequest [] requests

def wellFormed (validComponent : StringView → Bool) (candidate : Candidate Event) : Bool :=
  !(!validComponent candidate.configuration
    || !validComponent candidate.timer
    || !validComponent candidate.owner
    || (candidate.periodEvent &&
      (!validComponent candidate.source
        || !validComponent candidate.selector
        || !validComponent candidate.entry
        || !validComponent candidate.snapshotPolicy
        || !validComponent candidate.acknowledgePolicy)))

def sameConfiguration (a b : Candidate Event) : Bool :=
  a.request = b.request && a.configuration = b.configuration

def checkCandidate (validComponent : StringView → Bool) (placed : List (Candidate Event))
    (candidate : Candidate Event) : Except Error Unit :=
  if !wellFormed validComponent candidate then .error .invalidModel
  else if placed.any (sameConfiguration candidate) then .error .duplicateCandidate
  else .ok ()

def sortCandidates (validComponent : StringView → Bool) (candidates : List (Candidate Event)) :
    Except Error (List (Candidate Event)) :=
  exchangeCheck less (checkCandidate validComponent) [] candidates

/-- The loop over `demands.keys[0..count)` that sets `demanded`. -/
def demanded (demands : DemandSummary Event) (event : Event) : Bool :=
  demands.live.any fun key => key = event

/-- The condition under which the search passes over a candidate. -/
def skipped (request : Request Event) (demanded : Bool) (candidate : Candidate Event) : Bool :=
  candidate.request ≠ request.event || candidate.reserved
    || (request.pwmRequired && !candidate.pwm)
    || (demanded && !candidate.periodEvent)

/-- The condition of the diagnosis, which repeats the filter in positive form. -/
def eligible (request : Request Event) (demanded : Bool) (candidate : Candidate Event) : Bool :=
  candidate.request = request.event && !candidate.reserved
    && (!request.pwmRequired || candidate.pwm)
    && (!demanded || candidate.periodEvent)

def clashes (demanded usedDemanded : Bool) (used candidate : Candidate Event) : Bool :=
  used.timer = candidate.timer
    || (demanded && usedDemanded &&
      (used.source = candidate.source || used.entry = candidate.entry))

/-- The variables the recursive lambda captures by reference. -/
structure SearchState where
  selected : List Nat
  selectedDemanded : List Bool
  visited : UInt32
  exhausted : Bool
deriving DecidableEq

def SearchState.initial (size : Nat) : SearchState where
  selected := List.replicate size 0
  selectedDemanded := List.replicate size false
  visited := 0
  exhausted := false

def SearchState.visit (state : SearchState) : SearchState :=
  { state with visited := state.visited + 1 }

def SearchState.select (state : SearchState) (row c : Nat) (demanded : Bool) : SearchState :=
  { state with
    selected := state.selected.set row c
    selectedDemanded := state.selectedDemanded.set row demanded }

/-- `problem.candidates[c]`. -/
def candidateAt [Inhabited Event] (candidates : List (Candidate Event)) (c : Nat) :
    Candidate Event :=
  candidates.getD c default

section Search

variable [Inhabited Event] (candidates : List (Candidate Event)) (demands : DemandSummary Event)
  (budget : UInt32)

/-- The comparison with `candidates[selected[earlier]]` for every earlier row. -/
def compatible (state : SearchState) (row : Nat) (demanded : Bool)
    (candidate : Candidate Event) : Bool :=
  !(List.range row).any fun earlier =>
    clashes demanded (state.selectedDemanded.getD earlier false)
      (candidateAt candidates (state.selected.getD earlier 0)) candidate

/-- The loop over `c` in one call of the lambda; `self` is the call for the next row. -/
def tryCandidates (request : Request Event) (demanded : Bool) (row : Nat)
    (self : SearchState → Bool × SearchState) : List Nat → SearchState → Bool × SearchState
  | [], state => (false, state)
  | c :: rest, state =>
      let candidate := candidateAt candidates c
      if skipped request demanded candidate then
        tryCandidates request demanded row self rest state
      else if state.visited = budget then
        (false, { state with exhausted := true })
      else if !compatible candidates state.visit row demanded candidate then
        tryCandidates request demanded row self rest state.visit
      else
        let next := self (state.visit.select row c demanded)
        if next.1 then (true, next.2)
        else if next.2.exhausted then (false, next.2)
        else tryCandidates request demanded row self rest next.2

def search : List (Request Event) → Nat → SearchState → Bool × SearchState
  | [], _, state => (true, state)
  | request :: requests, row, state =>
      tryCandidates candidates budget request (demanded demands request.event) row
        (search requests (row + 1)) (List.range candidates.length) state

end Search

/-- The error of a search that failed within its budget. -/
def diagnose (requests : List (Request Event)) (candidates : List (Candidate Event))
    (demands : DemandSummary Event) : Error :=
  if requests.any fun request =>
      !candidates.any (eligible request (demanded demands request.event)) then
    .noCandidate
  else .conflict

theorem diagnose_ne_none (requests : List (Request Event)) (candidates : List (Candidate Event))
    (demands : DemandSummary Event) : diagnose requests candidates demands ≠ .none := by
  rw [diagnose]
  split <;> simp

theorem diagnose_ne_exhausted (requests : List (Request Event))
    (candidates : List (Candidate Event)) (demands : DemandSummary Event) :
    diagnose requests candidates demands ≠ .exhausted := by
  rw [diagnose]
  split <;> simp

def bindingOf (request : Request Event) (candidate : Candidate Event) : Binding Event where
  event := request.event
  owner := candidate.owner
  configuration := candidate.configuration
  source := candidate.source
  selector := candidate.selector
  entry := candidate.entry
  snapshotPolicy := candidate.snapshotPolicy
  acknowledgePolicy := candidate.acknowledgePolicy
  trailingNumber := 0
  trailingFlag := false

/-- `bindings[count++] = binding`. -/
def SelectedPlan.append (plan : SelectedPlan Event) (binding : Binding Event) :
    SelectedPlan Event :=
  { plan with
    bindings := plan.bindings.set plan.count binding
    count := plan.count + 1 }

/-- The inner emission loop, over the live demand keys. -/
def emitBindings (request : Request Event) (candidate : Candidate Event) :
    List Event → SelectedPlan Event → SelectedPlan Event
  | [], plan => plan
  | key :: keys, plan =>
      emitBindings request candidate keys
        (if key = request.event then SelectedPlan.append plan (bindingOf request candidate)
          else plan)

section Solve

variable [Inhabited Event]

/-- The emission loop over the rows. -/
def emit (candidates : List (Candidate Event)) (demands : DemandSummary Event)
    (selected : List Nat) : List (Request Event) → Nat → Solution Event → Solution Event
  | [], _, result => result
  | request :: requests, row, result =>
      let candidate := candidateAt candidates (selected.getD row 0)
      emit candidates demands selected requests (row + 1)
        { result with
          configurations := result.configurations.set row candidate.configuration
          interrupts := emitBindings request candidate demands.live result.interrupts }

def fail (result : Solution Event) (error : Error) : Solution Event :=
  { result with
    error := error
    interrupts := SelectedPlan.empty result.configurations.length }

/-- Everything after the search: the diagnosis of a failure or the emission. -/
def conclude (requests : List (Request Event)) (candidates : List (Candidate Event))
    (demands : DemandSummary Event) (result : Solution Event) (answer : Bool × SearchState) :
    Solution Event :=
  let result := { result with visited := answer.2.visited }
  if !answer.1 then
    if answer.2.exhausted then fail result .exhausted
    else fail result (diagnose requests candidates demands)
  else
    emit candidates demands answer.2.selected requests 0
      { result with interrupts := { result.interrupts with allocationOk := true } }

def solve (validComponent : StringView → Bool) (problem : Problem Event)
    (demands : DemandSummary Event) (budget : UInt32) : Solution Event :=
  let size := problem.requests.length
  let result : Solution Event := Solution.initial size
  match sortRequests problem.requests with
  | .error error => fail result error
  | .ok requests =>
      match sortCandidates validComponent problem.candidates with
      | .error error => fail result error
      | .ok candidates =>
          conclude requests candidates demands result
            (search candidates demands budget requests 0 (SearchState.initial size))

end Solve

end GrevirPeripherals.InterruptSolver
