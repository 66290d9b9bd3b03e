import GrevirPeripherals.PwmAllocation
import GrevirPeripherals.PwmCandidateSorting
import GrevirPeripherals.PwmSafeUnits

/-!
`grevir::pwm::solve` with every division, product, array access and sort checked. On
every problem and budget it runs through and computes what the unchecked solver does.
-/

namespace GrevirPeripherals.PwmSafety

open GrevirPeripherals.AllocationSearch
open GrevirPeripherals.CheckedExecution
open GrevirPeripherals.OrderedChecks
open GrevirPeripherals.PwmAllocation (allocate_eq scanUnits)
open GrevirPeripherals.PwmAllocator
open GrevirPeripherals.PwmCandidateSorting
open GrevirPeripherals.PwmEligibility
open GrevirPeripherals.PwmModel
open GrevirPeripherals.PwmNormalForm
open GrevirPeripherals.PwmNumeric
open GrevirPeripherals.PwmRequirements
open GrevirPeripherals.PwmSafeArithmetic
open GrevirPeripherals.PwmSafeModel
open GrevirPeripherals.PwmSafeUnits
open GrevirPeripherals.PwmSoundness (boardProblem)
open GrevirPeripherals.PwmUnits
open GrevirPeripherals.PwmValidation
open GrevirPeripherals.ScanLoops
open GrevirPeripherals.StandardSort
open GrevirPeripherals.Strings
open GrevirPeripherals.UnitGrouping

section Requests

def checkRequestChecked (r : Request) : Checked (Except Diagnostic Unit) := do
  if r.config.error ≠ .none then
    return .error ⟨.invalidRequest, r.key, r.config.error.code⟩
  else if !r.config.frequency.valid || !r.config.step.valid then
    return .error ⟨.invalidRequest, r.key, 0⟩
  else
    let bounded ← atMostChecked r.config.step { numerator := 1, denominator := 1 }
    if !bounded || r.config.pin = 0 then return .error ⟨.invalidRequest, r.key, 0⟩
    else if ← emptyChecked r.config.frequency then
      return .error ⟨.invalidRequest, r.key, ConfigError.conflict.code⟩
    else return .ok ()

theorem checkRequestChecked_eq (r : Request) :
    checkRequestChecked r = .ok (checkRequest r) := by
  rw [checkRequestChecked, checkRequest, atMostChecked_eq, ok_bind, emptyChecked_eq, ok_bind]
  by_cases herror : r.config.error ≠ .none
  · rw [if_pos herror, if_pos herror]
    rfl
  · rw [if_neg herror, if_neg herror]
    cases r.config.frequency.valid <;> cases r.config.step.valid <;>
      cases atMost r.config.step { numerator := 1, denominator := 1 } <;>
        cases decide (r.config.pin = 0) <;> cases r.config.frequency.empty <;> rfl

end Requests

section Search

/-- The search stays within its arrays, so its callback is only ever called with columns
of the table; all such calls are tried first. -/
def searchChecked (search : Search) (eligible : List (List Bool)) (units columns : Nat)
    (admits : Nat → Nat → Checked Bool) (budget : UInt32) : Checked SearchResult := do
  let _ ← (List.range columns).mapM fun a => (List.range columns).mapM fun b => admits a b
  return search.run eligible units (fun a b => (admits a b).toOption.getD false) budget

theorem searchChecked_eq {search : Search} (hsearch : StaysWithin search)
    {eligible : List (List Bool)} {columns : Nat} {admits : Nat → Nat → Checked Bool}
    {admits' : Nat → Nat → Bool} (hrows : ∀ row ∈ eligible, row.length ≤ columns)
    (hadmits : ∀ a b, a < columns → b < columns → admits a b = .ok (admits' a b)) (units : Nat)
    (budget : UInt32) :
    searchChecked search eligible units columns admits budget =
      .ok (search.run eligible units admits' budget) := by
  have hall : ∀ a ∈ List.range columns, (List.range columns).mapM (fun b => admits a b) =
      .ok ((List.range columns).map fun b => admits' a b) := by
    intro a ha
    apply mapM_eq_ok
    intro b hb
    exact hadmits a b (List.mem_range.mp ha) (List.mem_range.mp hb)
  have hsame : search.run eligible units (fun a b => (admits a b).toOption.getD false) budget =
      search.run eligible units admits' budget := by
    apply hsearch.congr eligible columns units _ _ budget hrows
    intro a b ha hb
    rw [hadmits a b ha hb]
    rfl
  rw [searchChecked, mapM_eq_ok hall, ok_bind, hsame]
  rfl

/-- `compatible(p, p.candidates[a], p.candidates[b])`. -/
def admitsChecked (resources : List Resource) (candidates : List Candidate) (a b : Nat) :
    Checked Bool := do
  let x ← readAt candidates a
  let y ← readAt candidates b
  compatibleChecked resources x y

theorem admitsChecked_eq (resources : List Resource) {candidates : List Candidate}
    (hcount : ∀ c ∈ candidates, c.count ≤ c.endpoints.length) {a b : Nat}
    (ha : a < candidates.length) (hb : b < candidates.length) :
    admitsChecked resources candidates a b =
      .ok (admitsColumns candidates (compatible resources) a b) := by
  rw [admitsChecked, readAt_eq_ok ha, ok_bind, readAt_eq_ok hb, ok_bind, admitsColumns,
    List.getD_eq_getElem _ _ ha, List.getD_eq_getElem _ _ hb]
  exact compatibleChecked_eq resources (hcount _ (List.getElem_mem ha))
    (hcount _ (List.getElem_mem hb))

end Search

section Plan

/-- The last loop: `candidates[search.selected[unit[i]]].key` for every request. -/
def concludeChecked (requests : List Key) (candidates : List Candidate) (unit : List Nat)
    (answer : SearchResult) : Checked Plan := do
  if !answer.success then
    return fail requests answer.visited
      ⟨if answer.exhausted then .exhausted else .conflict, {}, 0⟩
  else
    let keys ← fill requests.length 0 fun i => do
      let u ← readAt unit i
      let column ← readAt answer.selected u
      let c ← readAt candidates column
      return c.key
    return { diagnostic := {}, requests := requests, candidates := keys, visited := answer.visited }

theorem map_range_getD {α β : Type} (f : α → β) (l : List α) (d : α) :
    (List.range l.length).map (fun i => f (l.getD i d)) = l.map f := by
  apply List.ext_getElem
  · simp
  · intro i hi hi'
    rw [List.length_map] at hi'
    rw [List.getElem_map, List.getElem_map, List.getElem_range, List.getD_eq_getElem _ _ hi']

theorem concludeChecked_eq {requests : List Key} {candidates : List Candidate} {units : Units}
    {answer : SearchResult} (hunit : units.unit.length = requests.length)
    (hselected : answer.success = true → ∀ u ∈ units.unit, u < answer.selected.length ∧
      answer.selected.getD u 0 < candidates.length) :
    concludeChecked requests candidates units.unit answer =
      .ok (conclude requests candidates units answer) := by
  rw [concludeChecked, conclude]
  cases hsuccess : answer.success with
  | false => rfl
  | true =>
      have hkeys : fill requests.length 0 (fun i => do
            let u ← readAt units.unit i
            let column ← readAt answer.selected u
            let c ← readAt candidates column
            return c.key) =
          .ok ((List.range requests.length).map fun i =>
            (candidates.getD (answer.selected.getD (units.unit.getD i 0) 0) default).key) := by
        apply fill_eq_ok
        intro i hi
        have hi' : i < units.unit.length := hunit ▸ hi
        obtain ⟨hu, hcolumn⟩ := hselected hsuccess _ (List.getElem_mem hi')
        rw [readAt_eq_ok hi', ok_bind, readAt_eq_getD hu 0, ok_bind,
          readAt_eq_getD hcolumn default, ok_bind, List.getD_eq_getElem _ _ hi']
        rfl
      simp only [Bool.not_true, Bool.false_eq_true, if_false, hkeys, ok_bind]
      rw [← hunit, map_range_getD (fun u =>
        (candidates.getD (answer.selected.getD u 0) default).key)]
      rfl

/-- `p.requests[first[u]].key`. -/
def unitKeyChecked (requests : List Request) (first : List Nat) (u : Nat) : Checked Key := do
  let i ← readAt first u
  let r ← readAt requests i
  return r.key

def allocateChecked (search : Search) (keys : List Key) (p : Problem) (budget : UInt32) :
    Checked Plan := do
  let size := p.requests.length
  let columns := p.candidates.length
  let arrays ← groupUnitsChecked p.requests 0 size
    { unit := List.replicate size 0, first := List.replicate size 0, units := 0 }
  match ← scanUnitsChecked (reservedByChecked p.resources p.reservations) p.candidates
      (fun u c => fitsChecked p.requests arrays.unit c u) (unitKeyChecked p.requests arrays.first)
      0 arrays.units (List.replicate size (List.replicate columns false)) with
  | .error diagnostic => return fail keys 0 diagnostic
  | .ok eligible =>
      let answer ← searchChecked search eligible arrays.units columns
        (admitsChecked p.resources p.candidates) budget
      concludeChecked keys p.candidates arrays.unit answer

section Allocate

variable {p : Problem}

theorem length_unit (requests : List Request) :
    (solverUnits requests).unit.length = requests.length := by
  rw [(grouping_solverUnits requests).length, instancesOf_length]

theorem length_first_le (requests : List Request) :
    (solverUnits requests).first.length ≤ requests.length := by
  have hle := (grouping_solverUnits requests).length_first_le
  rwa [instancesOf_length] at hle

/-- The grouping loop starts with zeros and fills all of `unit`. -/
theorem groupUnitsChecked_solverUnits (requests : List Request) :
    groupUnitsChecked requests 0 requests.length
        { unit := List.replicate requests.length 0
          first := List.replicate requests.length 0
          units := 0 } =
      .ok { unit := (solverUnits requests).unit
            first := padded requests.length 0 (solverUnits requests).first
            units := (solverUnits requests).first.length } := by
  have hloop := groupUnitsChecked_eq [] requests rfl ⟨[], []⟩ grouping_nil le_rfl
  have harrays : unitArrays requests.length (solverUnits requests) =
      { unit := (solverUnits requests).unit
        first := padded requests.length 0 (solverUnits requests).first
        units := (solverUnits requests).first.length } := by
    rw [unitArrays, padded_of_length_eq (length_unit requests)]
  rw [← harrays]
  exact hloop

theorem unitKeyChecked_eq (requests : List Request) {u : Nat}
    (hu : u < (solverUnits requests).first.length) :
    unitKeyChecked requests (padded requests.length 0 (solverUnits requests).first) u =
      .ok (keyAt requests ((solverUnits requests).first.getD u 0)) := by
  have hlt := (grouping_solverUnits requests).first_lt u hu
  rw [instancesOf_length] at hlt
  rw [unitKeyChecked, readAt_padded hu 0, ok_bind, readAt_eq_getD hlt default, ok_bind]
  rfl

theorem length_row {rows : List (List Bool)} (hrows : scanUnits p = .ok rows) :
    ∀ row ∈ eligibleTable p.requests.length p.candidates.length rows,
      row.length ≤ p.candidates.length := by
  obtain ⟨hlength, hall⟩ := (mapM_range_eq_ok_iff _ _ _).mp hrows
  intro row hrow
  rcases List.mem_append.mp hrow with hrow | hrow
  · obtain ⟨u, hu, rfl⟩ := List.getElem_of_mem hrow
    have hok := hall u (hlength ▸ hu)
    rw [List.getD_eq_getElem _ _ hu] at hok
    rw [((scanUnit_eq_ok_iff _ _ _ _ _).mp hok).1, leaderRow_length]
  · rw [List.eq_of_mem_replicate hrow, List.length_replicate]

variable (hcount : ∀ c ∈ p.candidates, c.count ≤ c.endpoints.length)

include hcount

theorem scanUnitsChecked_solverUnits :
    scanUnitsChecked (reservedByChecked p.resources p.reservations) p.candidates
        (fun u c => fitsChecked p.requests (solverUnits p.requests).unit c u)
        (unitKeyChecked p.requests (padded p.requests.length 0 (solverUnits p.requests).first))
        0 (solverUnits p.requests).first.length
        (List.replicate p.requests.length (List.replicate p.candidates.length false)) =
      .ok ((scanUnits p).map (eligibleTable p.requests.length p.candidates.length)) := by
  have hscan := scanUnitsChecked_eq (length_first_le p.requests)
    (fun u c hc => fitsChecked_eq (solverUnits p.requests) (length_unit p.requests)
      (hcount c hc) u)
    (fun c hc => reservedByChecked_eq p.resources (hcount c hc) p.reservations)
    (fun u hu => unitKeyChecked_eq p.requests hu) [] (Nat.zero_add _)
  rw [padded_nil, List.length_nil, ← List.range_eq_range'] at hscan
  exact hscan

variable {search : Search} (hsearch : StaysWithin search)

include hsearch

theorem allocateChecked_eq (budget : UInt32) :
    allocateChecked search (p.requests.map Request.key) p budget =
      .ok (allocate search p budget) := by
  rw [allocateChecked, allocate_eq, groupUnitsChecked_solverUnits, ok_bind,
    scanUnitsChecked_solverUnits hcount, ok_bind]
  cases hrows : scanUnits p with
  | error diagnostic => rfl
  | ok rows =>
      have hlength := length_row hrows
      have hanswer := searchChecked_eq hsearch hlength
        (fun a b ha hb => admitsChecked_eq p.resources hcount ha hb)
        (solverUnits p.requests).first.length budget
      simp only [Except.map]
      rw [hanswer, ok_bind, concludeChecked_eq]
      · rw [length_unit, List.length_map]
      · -- each unit is below the number of units, and its column is eligible
        intro hsuccess u hu
        obtain ⟨i, hi, rfl⟩ := List.getElem_of_mem hu
        have hgrouping := grouping_solverUnits p.requests
        have hlt := hgrouping.unit_lt i (by rwa [← hgrouping.length])
        rw [List.getD_eq_getElem _ _ hi] at hlt
        refine ⟨hlt.trans_le (hsearch.selected _ _ _ _ hsuccess), ?_⟩
        exact lt_of_entry hlength ((search.sound _ _ _ _ hsuccess).eligible _ hlt)

end Allocate

end Plan

section Solve

/-- The first loop: `result.requests[i] = p.requests[i].key`. -/
def keysChecked (requests : List Request) : Checked (List Key) :=
  fill requests.length {} fun i => do
    let r ← readAt requests i
    return r.key

theorem keysChecked_eq (requests : List Request) :
    keysChecked requests = .ok (requests.map Request.key) := by
  have hread : ∀ i, i < requests.length → (do
      let r ← readAt requests i
      return r.key) = (.ok (requests.getD i default).key : Checked Key) := by
    intro i hi
    rw [readAt_eq_getD hi default, ok_bind]
    rfl
  rw [keysChecked, fill_eq_ok _ hread, map_range_getD]

def solveChecked (sorter : Sorter) (search : Search) (p : Problem) (budget : UInt32) :
    Checked Plan := do
  let requests ← sortBy sorter (fun a b => .ok (byKey Request.key a b)) p.requests
  let keys ← keysChecked requests
  match requests.mapM (checkIdentity requests) with
  | .error diagnostic => return fail keys 0 diagnostic
  | .ok _ =>
      match ← checkAll checkRequestChecked requests with
      | .error diagnostic => return fail keys 0 diagnostic
      | .ok _ =>
          match ← normalizeModelChecked sorter { p with requests := requests } with
          | none => return fail keys 0 ⟨.modelError, {}, 0⟩
          | some normal =>
              match requests.mapM (checkPin normal.resources) with
              | .error diagnostic => return fail keys 0 diagnostic
              | .ok _ => allocateChecked search keys normal budget

theorem count_le_of_normalizeModel {sorter : Sorter} {p normal : Problem}
    (h : normalizeModel sorter p = some normal) :
    ∀ c ∈ normal.candidates, c.count ≤ c.endpoints.length := by
  obtain ⟨hvalid, rfl⟩ := (normalizeModel_eq_some_iff sorter p normal).mp h
  intro c hc
  obtain ⟨c', hc', rfl⟩ := (mem_normalCandidates_iff hvalid c).mp hc
  exact (arranged_normalForm sorter (hvalid.candidates c' hc')).count_le

/-- Whatever the problem and the budget, no operation of the solver fails its check. -/
theorem solve_never_faults (sorter : Sorter) (search : Search) (hsearch : StaysWithin search)
    (p : Problem) (budget : UInt32) :
    solveChecked sorter search p budget = .ok (solve sorter search p budget) := by
  simp only [solveChecked, solve, sortBy_byKey, ok_bind, keysChecked_eq,
    checkAll_eq_ok fun r _ => checkRequestChecked_eq r, normalizeModelChecked_eq]
  generalize sorter.sort (byKey Request.key) p.requests = requests
  cases requests.mapM (checkIdentity requests) with
  | error diagnostic => rfl
  | ok _ =>
      cases requests.mapM checkRequest with
      | error diagnostic => rfl
      | ok _ =>
          cases hnormal : normalizeModel sorter { p with requests := requests } with
          | none => rfl
          | some normal =>
              have hcount := count_le_of_normalizeModel hnormal
              have hrequests : normal.requests = requests := by
                rw [((normalizeModel_eq_some_iff sorter _ normal).mp hnormal).2]
                rfl
              have hallocate := allocateChecked_eq hcount hsearch budget
              rw [hrequests] at hallocate
              simp only
              cases requests.mapM (checkPin normal.resources) with
              | error diagnostic => rfl
              | ok _ => exact hallocate

/-- The demonstration board with a cyclic resource tree, a count past the end of its array
and frequencies with a zero denominator. -/
def malformedProblem : Problem :=
  { boardProblem with
    candidates := [{ key := 5, timer := 1, counterBits := 8, configuration := 7
                     frequency := ⟨4294967295, 0⟩, count := 9 },
      { key := 6, timer := 1, counterBits := 8, configuration := 7, frequency := ⟨0, 0⟩ }]
    resources := [⟨1, 2, .channel⟩, ⟨2, 1, .channel⟩, ⟨1, 0, .timer⟩]
    reservations := [1, 2, 2] }

theorem malformed_never_faults :
    solveChecked insertionSorter backtracking malformedProblem 4294967295 =
      .ok (solve insertionSorter backtracking malformedProblem 4294967295) :=
  solve_never_faults insertionSorter backtracking backtracking_staysWithin malformedProblem
    4294967295

end Solve

end GrevirPeripherals.PwmSafety
