import GrevirPeripherals.CheckedExchange
import GrevirPeripherals.CheckedValidation
import GrevirPeripherals.OwnerSoundness
import GrevirPeripherals.PwmSafety

/-!
`grevir::timer::solve` of `owner_allocator.hpp` with every array access and sort checked.
The counts of the candidates are checked before the arrays are read up to them, so the
solver runs through on every problem.
-/

namespace GrevirPeripherals.OwnerSafety

open GrevirPeripherals.AllocationSearch
open GrevirPeripherals.CheckedExchange
open GrevirPeripherals.CheckedExecution
open GrevirPeripherals.CheckedValidation
open GrevirPeripherals.OrderedChecks
open GrevirPeripherals.OwnerAllocator
open GrevirPeripherals.OwnerEligibility
open GrevirPeripherals.OwnerModel
open GrevirPeripherals.OwnerSolution
open GrevirPeripherals.OwnerSoundness (boardProblem)
open GrevirPeripherals.OwnerValidation
open GrevirPeripherals.PwmSafety (map_range_getD searchChecked searchChecked_eq)
open GrevirPeripherals.PwmSafeUnits
  (UnitArrays markEligible markEligible_eq partialTable unitArrays)
open GrevirPeripherals.StandardSort
open GrevirPeripherals.Strings
open GrevirPeripherals.UnitGrouping

section Demands

def checkDemandAt (demands : List UseDemand) (i : Nat) : Checked (Except Diagnostic Unit) := do
  let demand ← readAt demands i
  if !validComponent demand.key.owner || !validComponent demand.key.localName then
    return .error ⟨.invalidIdentity, demand.key, 0⟩
  else if i = 0 then return .ok ()
  else
    let previous ← readAt demands (i - 1)
    return if demand.key = previous.key then .error ⟨.duplicateIdentity, demand.key, 0⟩
      else .ok ()

theorem checkDemandAt_eq (before : List UseDemand) (demand : UseDemand)
    (after : List UseDemand) :
    checkDemandAt (before ++ demand :: after) before.length =
      .ok (checkDemand before demand) := by
  rw [checkDemandAt, readAt_length, ok_bind, checkDemand]
  split_ifs with hinvalid hfirst
  · rfl
  · obtain rfl := List.length_eq_zero_iff.mp hfirst
    rfl
  · obtain ⟨earlier, previous, rfl⟩ := (List.eq_nil_or_concat before).resolve_left
      fun hnil => hfirst (by rw [hnil, List.length_nil])
    have hprevious := readAt_length earlier previous (demand :: after)
    simp only [List.concat_eq_append, List.append_assoc, List.singleton_append,
      List.length_append, List.length_singleton, Nat.add_sub_cancel, hprevious]
    simp

/-- `i == 0 || p.demands[i].key.owner != p.demands[i - 1].key.owner`. -/
def opensUnit (demands : List UseDemand) (i : Nat) (demand : UseDemand) : Checked Bool := do
  if i = 0 then return true
  else
    let previous ← readAt demands (i - 1)
    return demand.key.owner ≠ previous.key.owner

def groupOwnersChecked (demands : List UseDemand) : Nat → Nat → UnitArrays → Checked UnitArrays
  | _, 0, arrays => .ok arrays
  | i, remaining + 1, arrays => do
      let demand ← readAt demands i
      if ← opensUnit demands i demand then
        let first ← writeAt arrays.first arrays.units i
        let unit ← writeAt arrays.unit i (arrays.units + 1 - 1)
        groupOwnersChecked demands (i + 1) remaining
          { unit := unit, first := first, units := arrays.units + 1 }
      else
        let unit ← writeAt arrays.unit i (arrays.units - 1)
        groupOwnersChecked demands (i + 1) remaining { arrays with unit := unit }

/-- Whether `groupOwners` begins a unit at the demand. -/
def opensAfter (placed : List UseDemand) (demand : UseDemand) : Bool :=
  match placed.getLast? with
  | some previous => decide (demand.key.owner ≠ previous.key.owner)
  | none => true

theorem opensUnit_eq (before : List UseDemand) (demand : UseDemand) (after : List UseDemand) :
    opensUnit (before ++ demand :: after) before.length demand =
      .ok (opensAfter before demand) := by
  rcases List.eq_nil_or_concat before with rfl | ⟨earlier, previous, rfl⟩
  · rfl
  · have hprevious := readAt_length earlier previous (demand :: after)
    rw [opensUnit, opensAfter]
    simp only [List.concat_eq_append, List.append_assoc, List.singleton_append,
      List.length_append, List.length_singleton, Nat.add_sub_cancel, hprevious]
    simp

theorem groupOwners_cons (placed : List UseDemand) (demand : UseDemand) (rest : List UseDemand)
    (units : Units) :
    groupOwners placed (demand :: rest) units =
      groupOwners (placed ++ [demand]) rest
        (if opensAfter placed demand then
          ⟨units.unit ++ [units.first.length], units.first ++ [placed.length]⟩
        else ⟨units.unit ++ [units.first.length - 1], units.first⟩) := by
  let first := if opensAfter placed demand then units.first ++ [placed.length] else units.first
  change groupOwners (placed ++ [demand]) rest ⟨units.unit ++ [first.length - 1], first⟩ = _
  split_ifs with hopens
  · simp [first, hopens]
  · simp [first, hopens]

theorem groupOwnersChecked_eq {demands : List UseDemand} (placed rest : List UseDemand)
    (hsplit : demands = placed ++ rest) (units : Units)
    (hunit : units.unit.length = placed.length) (hfirst : units.first.length ≤ placed.length) :
    groupOwnersChecked demands placed.length rest.length (unitArrays demands.length units) =
      .ok (unitArrays demands.length (groupOwners placed rest units)) := by
  induction rest generalizing placed units with
  | nil => rfl
  | cons demand rest ih =>
      have hlt : placed.length < demands.length := by simp [hsplit]
      have hread : readAt demands placed.length = .ok demand := by
        subst hsplit
        exact readAt_length placed demand rest
      have hopens := opensUnit_eq placed demand rest
      rw [← hsplit] at hopens
      have hwrite : ∀ u, writeAt (padded demands.length 0 units.unit) placed.length u =
          .ok (padded demands.length 0 (units.unit ++ [u])) := by
        intro u
        rw [← hunit]
        exact writeAt_padded (hunit ▸ hlt) u
      have hwriteFirst : writeAt (padded demands.length 0 units.first) units.first.length
          placed.length = .ok (padded demands.length 0 (units.first ++ [placed.length])) :=
        writeAt_padded (hfirst.trans_lt hlt) _
      have hrest (u : Nat) (first : List Nat) (hle : first.length ≤ placed.length + 1) :
          groupOwnersChecked demands (placed.length + 1) rest.length
              (unitArrays demands.length ⟨units.unit ++ [u], first⟩) =
            .ok (unitArrays demands.length
              (groupOwners (placed ++ [demand]) rest ⟨units.unit ++ [u], first⟩)) := by
        have hnext := ih (placed ++ [demand]) (by simp [hsplit]) ⟨units.unit ++ [u], first⟩
          (by simp [hunit]) (by simpa using hle)
        rwa [List.length_append, List.length_singleton] at hnext
      rw [List.length_cons, groupOwnersChecked, hread, ok_bind, hopens, ok_bind]
      cases hcase : opensAfter placed demand with
      | true =>
          have hnext := hrest units.first.length (units.first ++ [placed.length])
            (by simpa using hfirst)
          simp only [groupOwners_cons, hcase, if_true]
          rw [← hnext]
          simp [unitArrays, hwriteFirst, hwrite]
      | false =>
          have hnext := hrest (units.first.length - 1) units.first (hfirst.trans (Nat.le_succ _))
          simp only [groupOwners_cons, hcase, Bool.false_eq_true, if_false]
          rw [← hnext]
          simp [unitArrays, hwrite]

end Demands

section Candidates

variable {Identity : Type}

/-- The counts of a candidate stay within its arrays. -/
def Counted (c : Candidate Identity) : Prop :=
  c.bindingCount ≤ c.bindings.length ∧ c.roleCount ≤ c.exclusiveRoles.length

section Validation

variable [DecidableEq Identity] [Inhabited Identity]

def validCandidateChecked (demands : List UseDemand) (c : Candidate Identity) :
    Checked Bool := do
  if !validComponent c.owner || c.identity = default || c.timer = 0 || c.bindingCount = 0
      || c.bindings.length < c.bindingCount || c.exclusiveRoles.length < c.roleCount then
    return false
  else if !(← checkEachBelow (fun b => .ok (validBinding demands c.owner b)) sharesUse c.bindings
      c.bindingCount) then
    return false
  else
    checkEachBelow (fun role => .ok (decide (role ≠ 0))) (fun role earlier => role = earlier)
      c.exclusiveRoles c.roleCount

/-- No count is trusted before it has been compared with the array. -/
theorem validCandidateChecked_eq (demands : List UseDemand) (c : Candidate Identity) :
    validCandidateChecked demands c = .ok (validCandidate demands c) := by
  rw [validCandidateChecked, validCandidate]
  split_ifs with hrefused
  · simp only [hrefused, Bool.not_true, Bool.false_and]
    rfl
  · have hcounts : Counted c := by
      simp only [Bool.or_eq_true, decide_eq_true_eq, not_or, Nat.not_lt] at hrefused
      exact ⟨hrefused.1.2, hrefused.2⟩
    rw [Bool.not_eq_true] at hrefused
    rw [checkEachBelow_eq (fun _ => rfl) _ hcounts.1, ok_bind,
      checkEachBelow_eq (fun _ => rfl) _ hcounts.2, hrefused, Candidate.liveBindings,
      Candidate.liveRoles]
    cases checkEach (validBinding demands c.owner) sharesUse [] (c.bindings.take c.bindingCount)
      <;> rfl

def checkCandidatesChecked (demands : List UseDemand) (candidates : List (Candidate Identity)) :
    Checked Bool :=
  checkEachBelow (validCandidateChecked demands) (fun c earlier => c.identity = earlier.identity)
    candidates candidates.length

theorem checkCandidatesChecked_eq (demands : List UseDemand)
    (candidates : List (Candidate Identity)) :
    checkCandidatesChecked demands candidates = .ok (checkCandidates demands candidates) := by
  rw [checkCandidatesChecked, checkEachBelow_eq (validCandidateChecked_eq demands) _ le_rfl,
    List.take_length]
  rfl

theorem counted_of_checkCandidates {demands : List UseDemand}
    {candidates : List (Candidate Identity)} (h : checkCandidates demands candidates = true) :
    ∀ c ∈ candidates, Counted c := by
  intro c hc
  have hvalid := ((checkEach_iff _ _ _).mp h).1 c hc
  simp only [validCandidate, Bool.and_eq_true, Bool.not_eq_true', Bool.or_eq_false_iff,
    decide_eq_false_iff_not, Nat.not_lt] at hvalid
  exact ⟨hvalid.1.1.1.2, hvalid.1.1.2⟩

end Validation

def countMatchedChecked (c : Candidate Identity) (owner : StringView) :
    List UseDemand → Nat → Checked (Option Nat)
  | [], matched => .ok (some matched)
  | demand :: rest, matched => do
      if demand.key.owner ≠ owner then countMatchedChecked c owner rest matched
      else
        let bindings ← readRun c.bindings 0 c.bindingCount
        if !bindings.any fun b => b.key = demand.key && b.kind = demand.kind then return none
        else countMatchedChecked c owner rest (matched + 1)

def fitsChecked (demands : List UseDemand) (c : Candidate Identity) (owner : StringView) :
    Checked Bool := do
  if c.owner ≠ owner then return false
  else
    let matched ← countMatchedChecked c owner demands 0
    return matched = some c.bindingCount

def eachResourceChecked (c : Candidate Identity) : Checked (List Nat) := do
  let bindings ← readRun c.bindings 0 c.bindingCount
  let roles ← readRun c.exclusiveRoles 0 c.roleCount
  return c.timer ::
    ((bindings.flatMap fun b => b.endpoint :: if b.pin ≠ 0 then [b.pin] else []) ++ roles)

def compatibleChecked (a b : Candidate Identity) : Checked Bool := do
  let left ← eachResourceChecked a
  let right ← eachResourceChecked b
  return !left.any fun l => right.any fun r => l = r

def isReservedChecked (reservations : List Nat) (c : Candidate Identity) : Checked Bool := do
  let flags ← reservations.mapM fun r => do
    let occupied ← eachResourceChecked c
    return occupied.any fun o => r = o
  return flags.any id

variable {c : Candidate Identity} (hcounted : Counted c)

include hcounted

theorem readBindings_eq : readRun c.bindings 0 c.bindingCount = .ok c.liveBindings := by
  rw [readRun_eq_ok (by rw [Nat.zero_add]; exact hcounted.1), List.drop_zero]
  rfl

theorem countMatchedChecked_eq (owner : StringView) (demands : List UseDemand) (matched : Nat) :
    countMatchedChecked c owner demands matched = .ok (countMatched c owner demands matched) := by
  induction demands generalizing matched with
  | nil => rfl
  | cons demand rest ih =>
      rw [countMatchedChecked, countMatched, readBindings_eq hcounted, ok_bind, ih, ih]
      split_ifs <;> rfl

theorem fitsChecked_eq (demands : List UseDemand) (owner : StringView) :
    fitsChecked demands c owner = .ok (fits demands c owner) := by
  rw [fitsChecked, fits, countMatchedChecked_eq hcounted, ok_bind]
  split_ifs <;> rfl

theorem eachResourceChecked_eq : eachResourceChecked c = .ok (eachResource c) := by
  rw [eachResourceChecked, readBindings_eq hcounted, ok_bind,
    readRun_eq_ok (by rw [Nat.zero_add]; exact hcounted.2), List.drop_zero]
  rfl

theorem compatibleChecked_eq {d : Candidate Identity} (hcounted' : Counted d) :
    compatibleChecked c d = .ok (compatible c d) := by
  rw [compatibleChecked, eachResourceChecked_eq hcounted, ok_bind,
    eachResourceChecked_eq hcounted']
  rfl

theorem isReservedChecked_eq (reservations : List Nat) :
    isReservedChecked reservations c = .ok (isReserved reservations c) := by
  have hflags : reservations.mapM (fun r => do
        let occupied ← eachResourceChecked c
        return occupied.any fun o => r = o) =
      .ok (reservations.map fun r => (eachResource c).any fun o => r = o) := by
    apply mapM_eq_ok
    intro r _
    rw [eachResourceChecked_eq hcounted]
    rfl
  rw [isReservedChecked, hflags, ok_bind, List.any_map]
  rfl

end Candidates

section Table

variable {Identity : Type}

/-- The eligibility table and the variables of the loop over the candidates. -/
structure TableScan where
  table : List (List Bool)
  any : Bool
  blocked : Nat

/-- `p.demands[first[u]].key`. -/
def unitKeyChecked (demands : List UseDemand) (first : List Nat) (u : Nat) : Checked UseKey := do
  let i ← readAt first u
  let demand ← readAt demands i
  return demand.key

section Loops

variable (demands : List UseDemand) (reservations first : List Nat)
  (candidates : List (Candidate Identity))

def scanCandidatesChecked (u : Nat) : Nat → Nat → TableScan → Checked TableScan
  | _, 0, scan => .ok scan
  | c, remaining + 1, scan => do
      let candidate ← readAt candidates c
      let key ← unitKeyChecked demands first u
      if !(← fitsChecked demands candidate key.owner) then
        scanCandidatesChecked u (c + 1) remaining scan
      else if ← isReservedChecked reservations candidate then
        scanCandidatesChecked u (c + 1) remaining { scan with blocked := candidate.timer }
      else
        let table ← markEligible scan.table u c
        scanCandidatesChecked u (c + 1) remaining { scan with table := table, any := true }

def scanUnitsChecked :
    Nat → Nat → List (List Bool) → Checked (Except Diagnostic (List (List Bool)))
  | _, 0, table => .ok (.ok table)
  | u, remaining + 1, table => do
      let scan ← scanCandidatesChecked demands reservations first candidates u 0 candidates.length
        { table := table, any := false, blocked := 0 }
      if !scan.any then
        let key ← unitKeyChecked demands first u
        return .error ⟨if scan.blocked = 0 then .noCandidate else .reserved, key, scan.blocked⟩
      else scanUnitsChecked (u + 1) remaining scan.table

end Loops

def tableScan (size columns : Nat) (rows : List (List Bool)) (scan : Scan) : TableScan where
  table := partialTable size columns rows scan.row
  any := scan.any
  blocked := scan.blocked

variable {demands : List UseDemand} (reservations : List Nat) {first : List Nat}
  {candidates : List (Candidate Identity)} (hcounted : ∀ c ∈ candidates, Counted c)

include hcounted

/-- A column that is not marked keeps the value it was initialised with. -/
theorem scanCandidatesChecked_eq {key : UseKey} (size : Nat) (rows : List (List Bool))
    (hkey : unitKeyChecked demands first rows.length = .ok key)
    (before after : List (Candidate Identity)) (hsplit : candidates = before ++ after)
    (scan : Scan) (hrow : scan.row.length = before.length) :
    scanCandidatesChecked demands reservations first candidates rows.length before.length
        after.length (tableScan size candidates.length rows scan) =
      .ok (tableScan size candidates.length rows
        (scanCandidates demands reservations key.owner after scan)) := by
  induction after generalizing before scan with
  | nil => rfl
  | cons c after ih =>
      have hlt : scan.row.length < candidates.length := by
        rw [hrow, hsplit]
        simp
      have hc : Counted c := hcounted c (by simp [hsplit])
      have hread : readAt candidates before.length = .ok c := by
        rw [hsplit]
        exact readAt_length before c after
      have hmark := markEligible_eq size rows hlt
      rw [hrow] at hmark
      have hrest (x any : Bool) (blocked : Nat) :
          scanCandidatesChecked demands reservations first candidates rows.length
              (before.length + 1) after.length
                (tableScan size candidates.length rows ⟨scan.row ++ [x], any, blocked⟩) =
            .ok (tableScan size candidates.length rows
              (scanCandidates demands reservations key.owner after
                ⟨scan.row ++ [x], any, blocked⟩)) := by
        have hnext := ih (before ++ [c]) (by simp [hsplit]) ⟨scan.row ++ [x], any, blocked⟩
          (by simp [hrow])
        rwa [List.length_append, List.length_singleton] at hnext
      have hunmarked (any : Bool) (blocked : Nat) :
          tableScan size candidates.length rows ⟨scan.row ++ [false], any, blocked⟩ =
            { tableScan size candidates.length rows scan with any := any, blocked := blocked } := by
        simp only [tableScan, partialTable, padded_concat_default hlt]
      rw [List.length_cons, scanCandidatesChecked, hread, ok_bind, hkey, ok_bind,
        fitsChecked_eq hc, ok_bind, isReservedChecked_eq hc, ok_bind, scanCandidates]
      split_ifs
      · rw [← hrest, hunmarked]
        rfl
      · rw [← hrest, hunmarked]
        rfl
      · rw [← hrest]
        simp only [tableScan, hmark, ok_bind]

/-- The rows are filled in the order of the units, up to the first that fails. -/
theorem scanUnitsChecked_eq {unitKey : Nat → UseKey} {units size : Nat} (hsize : units ≤ size)
    (hkey : ∀ u, u < units → unitKeyChecked demands first u = .ok (unitKey u)) {remaining : Nat}
    (rows : List (List Bool)) (hrows : rows.length + remaining = units) :
    scanUnitsChecked demands reservations first candidates rows.length remaining
        (padded size (List.replicate candidates.length false) rows) =
      .ok (((List.range' rows.length remaining).mapM fun u =>
        scanUnit demands reservations candidates (unitKey u)).map fun more =>
          padded size (List.replicate candidates.length false) (rows ++ more)) := by
  induction remaining generalizing rows with
  | zero => simp [scanUnitsChecked, Except.map, pure, Except.pure]
  | succ remaining ih =>
      have hlt : rows.length < units := by omega
      have hscan := scanCandidatesChecked_eq reservations hcounted size rows
        (hkey _ hlt) [] candidates rfl ⟨[], false, 0⟩ rfl
      have htable : partialTable size candidates.length rows [] =
          padded size (List.replicate candidates.length false) rows := by
        rw [partialTable, padded_nil, padded_concat_default (hlt.trans_le hsize)]
      rw [tableScan, htable, List.length_nil] at hscan
      rw [scanUnitsChecked, hscan, ok_bind, hkey _ hlt, ok_bind, List.range'_succ, List.mapM_cons]
      let scan := scanCandidates demands reservations (unitKey rows.length).owner candidates
        ⟨[], false, 0⟩
      have hunit : scanUnit demands reservations candidates (unitKey rows.length) =
          if !scan.any then
            .error ⟨if scan.blocked = 0 then .noCandidate else .reserved,
              unitKey rows.length, scan.blocked⟩
          else .ok scan.row :=
        rfl
      change (if !scan.any then _ else scanUnitsChecked demands reservations first candidates
        (rows.length + 1) remaining (partialTable size candidates.length rows scan.row)) = _
      rw [hunit]
      cases hany : scan.any with
      | false => rfl
      | true =>
          have hlength : scan.row.length = candidates.length := by
            simp only [scan, scanCandidates_eq, List.nil_append, List.length_map]
          have hrest := ih (rows ++ [scan.row]) (by simp; omega)
          rw [List.length_append, List.length_singleton] at hrest
          simp only [Bool.not_true, Bool.false_eq_true, if_false]
          rw [partialTable, padded_of_length_eq hlength, hrest]
          cases (List.range' (rows.length + 1) remaining).mapM fun u =>
              scanUnit demands reservations candidates (unitKey u) with
          | error diagnostic => rfl
          | ok more =>
              simp [Except.map, bind, Except.bind, pure, Except.pure]

end Table

section Units

variable {Identity : Type} (sorter : Sorter) (p : Problem Identity)

theorem length_unit :
    (solverUnits sorter p).unit.length = (sortedDemands sorter p).length := by
  rw [(grouping_solverUnits sorter p).length, ownersOf_length]

theorem length_first_le :
    (solverUnits sorter p).first.length ≤ (sortedDemands sorter p).length := by
  have hle := (grouping_solverUnits sorter p).length_first_le
  rwa [ownersOf_length] at hle

/-- The grouping loop starts with zeros and fills all of `unit`. -/
theorem groupOwnersChecked_solverUnits :
    groupOwnersChecked (sortedDemands sorter p) 0 (sortedDemands sorter p).length
        { unit := List.replicate (sortedDemands sorter p).length 0
          first := List.replicate (sortedDemands sorter p).length 0
          units := 0 } =
      .ok { unit := (solverUnits sorter p).unit
            first := padded (sortedDemands sorter p).length 0 (solverUnits sorter p).first
            units := (solverUnits sorter p).first.length } := by
  have hloop := groupOwnersChecked_eq [] (sortedDemands sorter p) rfl ⟨[], []⟩ rfl le_rfl
  have harrays : unitArrays (sortedDemands sorter p).length (solverUnits sorter p) =
      { unit := (solverUnits sorter p).unit
        first := padded (sortedDemands sorter p).length 0 (solverUnits sorter p).first
        units := (solverUnits sorter p).first.length } := by
    rw [unitArrays, padded_of_length_eq (length_unit sorter p)]
  rw [← harrays]
  exact hloop

theorem unitKeyChecked_eq {u : Nat} (hu : u < (solverUnits sorter p).first.length) :
    unitKeyChecked (sortedDemands sorter p)
        (padded (sortedDemands sorter p).length 0 (solverUnits sorter p).first) u =
      .ok (keyAt (sortedDemands sorter p) ((solverUnits sorter p).first.getD u 0)) := by
  have hlt := (grouping_solverUnits sorter p).first_lt u hu
  rw [ownersOf_length] at hlt
  rw [unitKeyChecked, readAt_padded hu 0, ok_bind, readAt_eq_getD hlt default, ok_bind]
  rfl

variable [LinearOrder Identity]

variable {sorter p}

theorem length_row {rows : List (List Bool)} (hrows : scanUnits sorter p = .ok rows) :
    ∀ row ∈ eligibleTable (sortedDemands sorter p).length (sortedCandidates sorter p).length rows,
      row.length ≤ (sortedCandidates sorter p).length := by
  obtain ⟨hlength, hall⟩ := (mapM_range_eq_ok_iff _ _ _).mp hrows
  intro row hrow
  rcases List.mem_append.mp hrow with hrow | hrow
  · obtain ⟨u, hu, rfl⟩ := List.getElem_of_mem hrow
    have hok := hall u (hlength ▸ hu)
    rw [List.getD_eq_getElem _ _ hu] at hok
    rw [((scanUnit_eq_ok_iff _ _ _ _ _).mp hok).1, List.length_map]
  · rw [List.eq_of_mem_replicate hrow, List.length_replicate]

theorem scanUnitsChecked_solverUnits
    (hcounted : ∀ c ∈ sortedCandidates sorter p, Counted c) :
    scanUnitsChecked (sortedDemands sorter p) p.reservations
        (padded (sortedDemands sorter p).length 0 (solverUnits sorter p).first)
        (sortedCandidates sorter p) 0 (solverUnits sorter p).first.length
        (List.replicate (sortedDemands sorter p).length
          (List.replicate (sortedCandidates sorter p).length false)) =
      .ok ((scanUnits sorter p).map
        (eligibleTable (sortedDemands sorter p).length (sortedCandidates sorter p).length)) := by
  have hscan := scanUnitsChecked_eq p.reservations hcounted (length_first_le sorter p)
    (fun u hu => unitKeyChecked_eq sorter p hu) [] (Nat.zero_add _)
  rw [padded_nil, List.length_nil, ← List.range_eq_range'] at hscan
  exact hscan

end Units

section Solve

variable {Identity : Type}

/-- `compatible(p.candidates[a], p.candidates[b])`. -/
def admitsChecked (candidates : List (Candidate Identity)) (a b : Nat) : Checked Bool := do
  let x ← readAt candidates a
  let y ← readAt candidates b
  compatibleChecked x y

/-- The first loop: `result.uses[i] = p.demands[i].key`. -/
def usesChecked (demands : List UseDemand) : Checked (List UseKey) :=
  fill demands.length {} fun i => do
    let demand ← readAt demands i
    return demand.key

theorem admitsChecked_eq [Inhabited Identity] {candidates : List (Candidate Identity)}
    (hcounted : ∀ c ∈ candidates, Counted c) {a b : Nat} (ha : a < candidates.length)
    (hb : b < candidates.length) :
    admitsChecked candidates a b = .ok (admitsColumns candidates compatible a b) := by
  rw [admitsChecked, readAt_eq_ok ha, ok_bind, readAt_eq_ok hb, ok_bind, admitsColumns,
    List.getD_eq_getElem _ _ ha, List.getD_eq_getElem _ _ hb]
  exact compatibleChecked_eq (hcounted _ (List.getElem_mem ha)) (hcounted _ (List.getElem_mem hb))

theorem usesChecked_eq (demands : List UseDemand) :
    usesChecked demands = .ok (demands.map UseDemand.key) := by
  have hread : ∀ i, i < demands.length → (do
      let demand ← readAt demands i
      return demand.key) = (.ok (demands.getD i default).key : Checked UseKey) := by
    intro i hi
    rw [readAt_eq_getD hi default, ok_bind]
    rfl
  rw [usesChecked, fill_eq_ok _ hread, map_range_getD]

variable [Inhabited Identity]

/-- The last loop: `p.candidates[search.selected[unit[i]]].identity` for every demand. -/
def concludeChecked (uses : List UseKey) (candidates : List (Candidate Identity))
    (unit : List Nat) (answer : SearchResult) : Checked (Plan Identity) := do
  if !answer.success then
    return fail uses answer.visited ⟨if answer.exhausted then .exhausted else .conflict, {}, 0⟩
  else
    let identities ← fill uses.length default fun i => do
      let u ← readAt unit i
      let column ← readAt answer.selected u
      let c ← readAt candidates column
      return c.identity
    return { diagnostic := {}, uses := uses, candidates := identities, visited := answer.visited }

theorem concludeChecked_eq {uses : List UseKey} {candidates : List (Candidate Identity)}
    {units : Units} {answer : SearchResult} (hunit : units.unit.length = uses.length)
    (hselected : answer.success = true → ∀ u ∈ units.unit, u < answer.selected.length ∧
      answer.selected.getD u 0 < candidates.length) :
    concludeChecked uses candidates units.unit answer =
      .ok (conclude uses candidates units answer) := by
  rw [concludeChecked, conclude]
  cases hsuccess : answer.success with
  | false => rfl
  | true =>
      have hidentities : fill uses.length default (fun i => do
            let u ← readAt units.unit i
            let column ← readAt answer.selected u
            let c ← readAt candidates column
            return c.identity) =
          .ok ((List.range uses.length).map fun i =>
            (candidates.getD (answer.selected.getD (units.unit.getD i 0) 0) default).identity) := by
        apply fill_eq_ok
        intro i hi
        have hi' : i < units.unit.length := hunit ▸ hi
        obtain ⟨hu, hcolumn⟩ := hselected hsuccess _ (List.getElem_mem hi')
        rw [readAt_eq_ok hi', ok_bind, readAt_eq_getD hu 0, ok_bind,
          readAt_eq_getD hcolumn default, ok_bind, List.getD_eq_getElem _ _ hi']
        rfl
      simp only [Bool.not_true, Bool.false_eq_true, if_false, hidentities, ok_bind]
      rw [← hunit, map_range_getD (fun u =>
        (candidates.getD (answer.selected.getD u 0) default).identity)]
      rfl

variable [LinearOrder Identity]

def solveChecked (sorter : Sorter) (search : Search) (p : Problem Identity) (budget : UInt32) :
    Checked (Plan Identity) := do
  let demands ← sortBy sorter (fun a b => .ok (byKey UseDemand.key a b)) p.demands
  let candidates ← sortBy sorter (fun a b => .ok (candidateLess a b)) p.candidates
  let size := demands.length
  let columns := candidates.length
  let uses ← usesChecked demands
  match ← checkFrom checkDemandAt demands 0 size with
  | .error diagnostic => return fail uses 0 diagnostic
  | .ok () =>
      if !(← checkCandidatesChecked demands candidates) then
        return fail uses 0 ⟨.invalidModel, {}, 0⟩
      else
        let arrays ← groupOwnersChecked demands 0 size
          { unit := List.replicate size 0, first := List.replicate size 0, units := 0 }
        match ← scanUnitsChecked demands p.reservations arrays.first candidates 0 arrays.units
            (List.replicate size (List.replicate columns false)) with
        | .error diagnostic => return fail uses 0 diagnostic
        | .ok eligible =>
            let answer ← searchChecked search eligible arrays.units columns
              (admitsChecked candidates) budget
            concludeChecked uses candidates arrays.unit answer

section Outcomes

variable {sorter : Sorter} (search : Search) {p : Problem Identity} (budget : UInt32)

theorem solve_of_refusedDemand {diagnostic : Diagnostic}
    (hcheck : checkInOrder checkDemand [] (sortedDemands sorter p) = .error diagnostic) :
    solve sorter search p budget = fail (sortedUses sorter p) 0 diagnostic := by
  rw [sortedDemands] at hcheck
  simp only [solve, hcheck]
  rfl

variable {checked : List UseDemand}
  (hcheck : checkInOrder checkDemand [] (sortedDemands sorter p) = .ok checked)

include hcheck

theorem solve_of_refusedCandidates
    (hvalid : checkCandidates (sortedDemands sorter p) (sortedCandidates sorter p) = false) :
    solve sorter search p budget = fail (sortedUses sorter p) 0 ⟨.invalidModel, {}, 0⟩ := by
  rw [sortedDemands] at hcheck
  rw [sortedDemands, sortedCandidates] at hvalid
  simp only [solve, hcheck, hvalid]
  rfl

variable (hvalid : checkCandidates (sortedDemands sorter p) (sortedCandidates sorter p) = true)

include hvalid

theorem solve_of_refusedUnit {diagnostic : Diagnostic}
    (hrows : scanUnits sorter p = .error diagnostic) :
    solve sorter search p budget = fail (sortedUses sorter p) 0 diagnostic := by
  rw [sortedDemands] at hcheck
  rw [sortedDemands, sortedCandidates] at hvalid
  rw [scanUnits, solverUnits, sortedDemands, sortedCandidates] at hrows
  simp only [solve, hcheck, hvalid, hrows]
  rfl

theorem solve_of_scanned {rows : List (List Bool)} (hrows : scanUnits sorter p = .ok rows) :
    solve sorter search p budget =
      conclude (sortedUses sorter p) (sortedCandidates sorter p) (solverUnits sorter p) (search.run
        (eligibleTable (sortedDemands sorter p).length (sortedCandidates sorter p).length rows)
        (solverUnits sorter p).first.length
        (admitsColumns (sortedCandidates sorter p) compatible) budget) := by
  rw [sortedDemands] at hcheck
  rw [sortedDemands, sortedCandidates] at hvalid
  rw [scanUnits, solverUnits, sortedDemands, sortedCandidates] at hrows
  simp only [solve, hcheck, hvalid, hrows]
  rfl

end Outcomes

/-- The owner allocator never reads or writes outside an array, whatever the counts of its
candidates say. -/
theorem solve_within_bounds (sorter : Sorter) (search : Search) (hsearch : StaysWithin search)
    (p : Problem Identity) (budget : UInt32) :
    solveChecked sorter search p budget = .ok (solve sorter search p budget) := by
  have hdemands : sortBy sorter (fun a b => .ok (byKey UseDemand.key a b)) p.demands =
      .ok (sortedDemands sorter p) :=
    sortBy_byKey sorter UseDemand.key p.demands
  have hcandidates : sortBy sorter (fun a b => .ok (candidateLess a b)) p.candidates =
      .ok (sortedCandidates sorter p) := by
    rw [sortedCandidates, candidateLess_eq_byKey]
    exact sortBy_byKey sorter sortKey p.candidates
  have hchecked := checkFrom_eq checkDemandAt_eq [] (sortedDemands sorter p)
  rw [List.nil_append, List.length_nil] at hchecked
  rw [solveChecked, hdemands, ok_bind, hcandidates, ok_bind, usesChecked_eq, ok_bind, hchecked,
    ok_bind]
  cases hcheck : checkInOrder checkDemand [] (sortedDemands sorter p) with
  | error diagnostic =>
      rw [solve_of_refusedDemand search budget hcheck]
      rfl
  | ok checked =>
      simp only [Except.map, checkCandidatesChecked_eq, ok_bind]
      cases hvalid : checkCandidates (sortedDemands sorter p) (sortedCandidates sorter p) with
      | false =>
          rw [solve_of_refusedCandidates search budget hcheck hvalid]
          rfl
      | true =>
          have hcounted := counted_of_checkCandidates hvalid
          simp only [Bool.not_true, Bool.false_eq_true, if_false,
            groupOwnersChecked_solverUnits, ok_bind, scanUnitsChecked_solverUnits hcounted]
          cases hrows : scanUnits sorter p with
          | error diagnostic =>
              rw [solve_of_refusedUnit search budget hcheck hvalid hrows]
              rfl
          | ok rows =>
              have hlength := length_row hrows
              have hanswer := searchChecked_eq hsearch hlength
                (fun a b ha hb => admitsChecked_eq hcounted ha hb)
                (solverUnits sorter p).first.length budget
              rw [solve_of_scanned search budget hcheck hvalid hrows]
              simp only [Except.map]
              rw [hanswer, ok_bind, ← sortedUses, concludeChecked_eq]
              · rw [length_unit, sortedUses, List.length_map]
              · -- each unit is below the number of units, and its column is eligible
                intro hsuccess u hu
                obtain ⟨i, hi, rfl⟩ := List.getElem_of_mem hu
                have hgrouping := grouping_solverUnits sorter p
                have hlt := hgrouping.unit_lt i (by rwa [← hgrouping.length])
                rw [List.getD_eq_getElem _ _ hi] at hlt
                refine ⟨hlt.trans_le (hsearch.selected _ _ _ _ hsuccess), ?_⟩
                exact lt_of_entry hlength ((search.sound _ _ _ _ hsuccess).eligible _ hlt)

/-- The board with candidates that count more bindings and roles than they have. -/
def miscountedProblem : Problem Nat :=
  { boardProblem with
    candidates := boardProblem.candidates.map fun c =>
      { c with bindingCount := 9, roleCount := 9 } }

theorem miscounted_within_bounds :
    solveChecked insertionSorter backtracking miscountedProblem 4294967295 =
      .ok (solve insertionSorter backtracking miscountedProblem 4294967295) :=
  solve_within_bounds insertionSorter backtracking backtracking_staysWithin miscountedProblem
    4294967295

end Solve

end GrevirPeripherals.OwnerSafety
