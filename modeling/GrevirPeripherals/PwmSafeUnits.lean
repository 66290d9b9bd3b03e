import GrevirPeripherals.PwmSafeModel
import GrevirPeripherals.PwmSoundness

/-!
The units and the eligibility table of the PWM allocator with every array access checked.
The arrays are filled to the left of the position of their loop.
-/

namespace GrevirPeripherals.PwmSafeUnits

open GrevirPeripherals.AllocationSearch
open GrevirPeripherals.CheckedExecution
open GrevirPeripherals.PwmAllocator
open GrevirPeripherals.PwmEligibility
open GrevirPeripherals.PwmModel
open GrevirPeripherals.PwmNumeric
open GrevirPeripherals.PwmRequirements
open GrevirPeripherals.PwmSafeArithmetic
open GrevirPeripherals.PwmUnits
open GrevirPeripherals.ScanLoops
open GrevirPeripherals.Strings
open GrevirPeripherals.UnitGrouping

section Grouping

/-- The arrays `unit` and `first`, and how many entries of `first` are in use. -/
structure UnitArrays where
  unit : List Nat
  first : List Nat
  units : Nat

/-- The loop over `j`, which looks for an earlier request of the instance. -/
def findUnit (requests : List Request) (unit : List Nat) (name : StringView) (units : Nat) :
    Nat → Nat → Checked Nat
  | _, 0 => .ok units
  | j, remaining + 1 => do
      let earlier ← readAt requests j
      if earlier.key.instanceName = name then readAt unit j
      else findUnit requests unit name units (j + 1) remaining

def groupUnitsChecked (requests : List Request) : Nat → Nat → UnitArrays → Checked UnitArrays
  | _, 0, arrays => .ok arrays
  | i, remaining + 1, arrays => do
      let r ← readAt requests i
      let found ← findUnit requests arrays.unit r.key.instanceName arrays.units 0 i
      if found = arrays.units then
        let first ← writeAt arrays.first arrays.units i
        let unit ← writeAt arrays.unit i found
        groupUnitsChecked requests (i + 1) remaining
          { unit := unit, first := first, units := arrays.units + 1 }
      else
        let unit ← writeAt arrays.unit i found
        groupUnitsChecked requests (i + 1) remaining { arrays with unit := unit }

/-- The arrays in which the first entries are those of the unchecked loop. -/
def unitArrays (size : Nat) (units : Units) : UnitArrays where
  unit := padded size 0 units.unit
  first := padded size 0 units.first
  units := units.first.length

theorem findUnit_eq (before after rest : List Request) (size : Nat) (used : List Nat)
    (name : StringView) (units : Nat) (hused : before.length + after.length ≤ used.length) :
    findUnit (before ++ (after ++ rest)) (padded size 0 used) name units before.length
        after.length =
      .ok (match after.findIdx? fun earlier => earlier.key.instanceName = name with
        | some j => used.getD (before.length + j) 0
        | none => units) := by
  induction after generalizing before with
  | nil => rfl
  | cons r after ih =>
      have hrest := ih (before ++ [r]) (by simpa [Nat.add_assoc, Nat.add_comm 1] using hused)
      rw [List.length_append, List.length_singleton, List.append_assoc,
        List.singleton_append] at hrest
      have hlt : before.length < used.length := by
        rw [List.length_cons] at hused
        omega
      rw [List.length_cons, List.cons_append, findUnit, readAt_length,
        ok_bind, List.findIdx?_cons]
      by_cases hname : r.key.instanceName = name
      · rw [if_pos hname, readAt_padded hlt 0]
        simp [hname]
      · rw [if_neg hname, hrest]
        simp only [hname, decide_false, Bool.false_eq_true, if_false]
        cases after.findIdx? fun earlier => earlier.key.instanceName = name with
        | none => rfl
        | some j =>
            simp only [Option.map_some, Nat.add_assoc, Nat.add_comm 1 j]

theorem groupUnitsChecked_eq {requests : List Request} (placed rest : List Request)
    (hsplit : requests = placed ++ rest) (units : Units)
    (hgrouping : Grouping (instancesOf placed) units.unit units.first)
    (hfirst : units.first.length ≤ placed.length) :
    groupUnitsChecked requests placed.length rest.length (unitArrays requests.length units) =
      .ok (unitArrays requests.length (groupUnits placed rest units)) := by
  induction rest generalizing placed units with
  | nil => rfl
  | cons r rest ih =>
      have hunit : units.unit.length = placed.length := by
        rw [hgrouping.length, instancesOf_length]
      have hlt : placed.length < requests.length := by simp [hsplit]
      have hread : readAt requests placed.length = .ok r := by
        subst hsplit
        exact readAt_length placed r rest
      have hfind := findUnit_eq [] placed (r :: rest) requests.length units.unit
        r.key.instanceName units.first.length (by simp [hunit])
      simp only [List.nil_append, List.length_nil, Nat.zero_add, ← hsplit] at hfind
      have hwrite : ∀ found, writeAt (padded requests.length 0 units.unit) placed.length found =
          .ok (padded requests.length 0 (units.unit ++ [found])) := by
        intro found
        rw [← hunit]
        exact writeAt_padded (hunit ▸ hlt) found
      have hwriteFirst : writeAt (padded requests.length 0 units.first) units.first.length
          placed.length = .ok (padded requests.length 0 (units.first ++ [placed.length])) :=
        writeAt_padded (hfirst.trans_lt hlt) _
      have hrest := ih (placed ++ [r]) (by simp [hsplit]) (groupUnits placed [r] units)
        (groupUnits_grouping placed [r] units hgrouping)
      rw [List.length_append, List.length_singleton] at hrest
      rw [List.length_cons, groupUnitsChecked, hread, ok_bind, groupUnits]
      simp only [unitArrays, groupUnits] at hfind hrest ⊢
      rw [hfind, ok_bind]
      cases hfound : placed.findIdx? fun earlier =>
          earlier.key.instanceName = r.key.instanceName with
      | some j =>
          have hj := (List.findIdx?_eq_some_iff_getElem.mp hfound).1
          have hne := (hgrouping.unit_lt j (by rwa [instancesOf_length])).ne
          simp only [hfound] at hrest ⊢
          simp only [hne, if_false, hwrite, ok_bind]
          exact hrest (hfirst.trans (Nat.le_succ _))
      | none =>
          have hlength : (units.first ++ [placed.length]).length = units.first.length + 1 := by simp
          simp only [hfound, hlength] at hrest ⊢
          simp only [if_true, hwriteFirst, hwrite, ok_bind]
          exact hrest (Nat.succ_le_succ hfirst)

end Grouping

section Fits

def mismatchChecked (c : Candidate) (r : Request) (e : Endpoint) : Checked Bool := do
  if e.request ≠ r.key || e.pin ≠ r.config.pin then return true
  else
    let contained ← containsChecked r.config.frequency c.frequency
    if !contained then return true
    else
      let fine ← atMostChecked e.step r.config.step
      return !fine
        || (r.config.requiredTimer ≠ 0 && r.config.requiredTimer ≠ c.timer)
        || c.counterBits < r.config.counterBitsAtLeast
        || (r.config.waveform ≠ .any && r.config.waveform ≠ c.waveform)
        || (r.config.source ≠ .any && r.config.source ≠ c.source)

theorem mismatchChecked_eq (c : Candidate) (r : Request) (e : Endpoint) :
    mismatchChecked c r e = .ok (mismatch c r e) := by
  rw [mismatchChecked, mismatch, containsChecked_eq, ok_bind, atMostChecked_eq, ok_bind]
  cases decide (e.request ≠ r.key) <;> cases decide (e.pin ≠ r.config.pin) <;>
    cases r.config.frequency.contains c.frequency <;> rfl

/-- The loop of `fits` over the positions of the requests. -/
def fitsFromChecked (requests : List Request) (unit : List Nat) (c : Candidate) (u : Nat) :
    Nat → Nat → Nat → Checked Bool
  | _, 0, members => .ok (members = c.count && (members = 1 || c.independentDuties))
  | i, remaining + 1, members => do
      let number ← readAt unit i
      if number = u then
        if members = c.count then return false
        else
          let r ← readAt requests i
          let e ← readAt c.endpoints members
          let differs ← mismatchChecked c r e
          if differs then return false
          else fitsFromChecked requests unit c u (i + 1) remaining (members + 1)
      else fitsFromChecked requests unit c u (i + 1) remaining members

def fitsChecked (requests : List Request) (unit : List Nat) (c : Candidate) (u : Nat) :
    Checked Bool :=
  fitsFromChecked requests unit c u 0 requests.length 0

variable {requests : List Request} {unit : List Nat} {c : Candidate}

/-- The member count never passes the count of the candidate, which its array has room for. -/
theorem fitsFromChecked_eq (hunit : unit.length = requests.length)
    (hcount : c.count ≤ c.endpoints.length) (u : Nat) {i remaining members : Nat}
    (hremaining : i + remaining = requests.length) (hmembers : members ≤ c.count) :
    fitsFromChecked requests unit c u i remaining members =
      .ok (fitsFrom c u ((requests.zip unit).drop i) members) := by
  have hzip : (requests.zip unit).length = requests.length := by simp [hunit]
  induction remaining generalizing i members with
  | zero =>
      rw [List.drop_eq_nil_of_le (by omega)]
      rfl
  | succ remaining ih =>
      have hi : i < (requests.zip unit).length := by omega
      have hiRequests : i < requests.length := by omega
      have hiUnit : i < unit.length := by omega
      rw [List.drop_eq_getElem_cons hi, List.getElem_zip, fitsFromChecked, readAt_eq_ok hiUnit,
        ok_bind, fitsFrom]
      split_ifs with hnumber hfull hmismatch
      · rfl
      · have hlt : members < c.count := Nat.lt_of_le_of_ne hmembers hfull
        rw [readAt_eq_ok hiRequests, ok_bind, readAt_eq_getD (hlt.trans_le hcount) default,
          ok_bind, mismatchChecked_eq, ok_bind, if_pos hmismatch]
        rfl
      · have hlt : members < c.count := Nat.lt_of_le_of_ne hmembers hfull
        rw [readAt_eq_ok hiRequests, ok_bind, readAt_eq_getD (hlt.trans_le hcount) default,
          ok_bind, mismatchChecked_eq, ok_bind, if_neg hmismatch, ih (by omega) hlt]
      · exact ih (by omega) hmembers

theorem fitsChecked_eq (units : Units) (hunit : units.unit.length = requests.length)
    (hcount : c.count ≤ c.endpoints.length) (u : Nat) :
    fitsChecked requests units.unit c u = .ok (fits requests units c u) :=
  fitsFromChecked_eq hunit hcount u (Nat.zero_add _) (Nat.zero_le _)

end Fits

section Table

/-- The eligibility table and the other variables of the loop over the candidates. -/
structure TableScan where
  table : List (List Bool)
  any : Bool
  blocker : Nat

/-- `c != 0 && candidates[c] == candidates[c - 1]`. -/
def repeatsPrevious (candidates : List Candidate) (c : Nat) : Checked Bool := do
  if c = 0 then return false
  else
    let current ← readAt candidates c
    let previous ← readAt candidates (c - 1)
    return current = previous

/-- `eligible[u][c] = true`. -/
def markEligible (table : List (List Bool)) (u c : Nat) : Checked (List (List Bool)) := do
  let row ← readAt table u
  let row ← writeAt row c true
  writeAt table u row

variable (fits : Candidate → Checked Bool) (reservedBy : Candidate → Checked Nat)
  (candidates : List Candidate)

def scanCandidatesChecked (u : Nat) : Nat → Nat → TableScan → Checked TableScan
  | _, 0, scan => .ok scan
  | c, remaining + 1, scan => do
      let repeated ← repeatsPrevious candidates c
      if repeated then scanCandidatesChecked u (c + 1) remaining scan
      else
        let candidate ← readAt candidates c
        let fitting ← fits candidate
        if fitting then
          let reservation ← reservedBy candidate
          if reservation ≠ 0 then
            scanCandidatesChecked u (c + 1) remaining
              { scan with
                blocker :=
                  if scan.blocker = 0 || reservation < scan.blocker then reservation
                  else scan.blocker }
          else
            let table ← markEligible scan.table u c
            scanCandidatesChecked u (c + 1) remaining { scan with table := table, any := true }
        else scanCandidatesChecked u (c + 1) remaining scan

/-- The loop over the units; `unitKey` reads the key of the first request of one. -/
def scanUnitsChecked (fits : Nat → Candidate → Checked Bool) (unitKey : Nat → Checked Key) :
    Nat → Nat → List (List Bool) → Checked (Except Diagnostic (List (List Bool)))
  | _, 0, table => .ok (.ok table)
  | u, remaining + 1, table => do
      let scan ← scanCandidatesChecked (fits u) reservedBy candidates u 0 candidates.length
        { table := table, any := false, blocker := 0 }
      if !scan.any then
        let key ← unitKey u
        return .error ⟨if scan.blocker = 0 then .noCandidate else .reserved, key, scan.blocker⟩
      else scanUnitsChecked fits unitKey (u + 1) remaining scan.table

end Table

section Rows

theorem repeatsPrevious_eq (before : List Candidate) (c : Candidate) (after : List Candidate) :
    repeatsPrevious (before ++ c :: after) before.length =
      .ok (decide (before.getLast? = some c)) := by
  rcases List.eq_nil_or_concat before with rfl | ⟨before, previous, rfl⟩
  · rfl
  · have hprevious : readAt (before.concat previous ++ c :: after) before.length =
        .ok previous := by
      rw [List.concat_eq_append, List.append_assoc, List.singleton_append, readAt_length]
    have hlength : (before.concat previous).length = before.length + 1 := by simp
    rw [repeatsPrevious, readAt_length, ok_bind, hlength, if_neg (Nat.succ_ne_zero _),
      Nat.add_sub_cancel, hprevious, ok_bind]
    simp [eq_comm]

/-- The table while the row after the given ones is filled. -/
def partialTable (size columns : Nat) (rows : List (List Bool)) (row : List Bool) :
    List (List Bool) :=
  padded size (List.replicate columns false) (rows ++ [padded columns false row])

theorem markEligible_eq (size : Nat) {columns : Nat} (rows : List (List Bool)) {row : List Bool}
    (h : row.length < columns) :
    markEligible (partialTable size columns rows row) rows.length row.length =
      .ok (partialTable size columns rows (row ++ [true])) := by
  rw [markEligible, partialTable, readAt_padded_length, ok_bind, writeAt_padded h, ok_bind,
    writeAt_padded_length]
  rfl

def tableScan (size columns : Nat) (rows : List (List Bool)) (scan : Scan) : TableScan where
  table := partialTable size columns rows scan.row
  any := scan.any
  blocker := scan.blocker

variable {candidates : List Candidate} {reservedBy : Candidate → Checked Nat}
  {reservedBy' : Candidate → Nat}

/-- A column that is not marked keeps the value it was initialised with. -/
theorem scanCandidatesChecked_eq {fits : Candidate → Checked Bool} {fits' : Candidate → Bool}
    (hfits : ∀ c ∈ candidates, fits c = .ok (fits' c))
    (hreserved : ∀ c ∈ candidates, reservedBy c = .ok (reservedBy' c)) (size : Nat)
    (rows : List (List Bool)) (before after : List Candidate)
    (hsplit : candidates = before ++ after) (scan : Scan)
    (hrow : scan.row.length = before.length) :
    scanCandidatesChecked fits reservedBy candidates rows.length before.length after.length
        (tableScan size candidates.length rows scan) =
      .ok (tableScan size candidates.length rows
        (scanCandidates fits' reservedBy' before.getLast? after scan)) := by
  induction after generalizing before scan with
  | nil => rfl
  | cons c after ih =>
      have hlt : scan.row.length < candidates.length := by
        rw [hrow, hsplit]
        simp
      have hc : c ∈ candidates := by simp [hsplit]
      have hrepeats : repeatsPrevious candidates before.length =
          .ok (decide (before.getLast? = some c)) := by
        rw [hsplit]
        exact repeatsPrevious_eq before c after
      have hread : readAt candidates before.length = .ok c := by
        rw [hsplit]
        exact readAt_length before c after
      have hmark := markEligible_eq size rows hlt
      rw [hrow] at hmark
      have hrest : ∀ x any blocker, scanCandidatesChecked fits reservedBy candidates rows.length
          (before.length + 1) after.length
            (tableScan size candidates.length rows ⟨scan.row ++ [x], any, blocker⟩) =
          .ok (tableScan size candidates.length rows
            (scanCandidates fits' reservedBy' (some c) after ⟨scan.row ++ [x], any, blocker⟩)) := by
        intro x any blocker
        have hnext := ih (before ++ [c]) (by simp [hsplit]) ⟨scan.row ++ [x], any, blocker⟩
          (by simp [hrow])
        rwa [List.length_append, List.length_singleton, List.getLast?_concat] at hnext
      have hunmarked : ∀ any blocker,
          tableScan size candidates.length rows ⟨scan.row ++ [false], any, blocker⟩ =
            { tableScan size candidates.length rows scan with any := any, blocker := blocker } := by
        intro any blocker
        simp only [tableScan, partialTable, padded_concat_default hlt]
      rw [List.length_cons, scanCandidatesChecked, hrepeats, ok_bind, hread, ok_bind, hfits c hc,
        ok_bind, hreserved c hc, ok_bind, scanCandidates]
      by_cases hrepeat : before.getLast? = some c
      · simp only [hrepeat, decide_true, if_true]
        rw [← hrest, hunmarked]
        rfl
      · simp only [hrepeat, decide_false, Bool.false_eq_true, if_false]
        cases hfit : fits' c with
        | false =>
            simp only [Bool.false_eq_true, if_false]
            rw [← hrest, hunmarked]
            rfl
        | true =>
            by_cases hzero : reservedBy' c = 0
            · simp only [hzero, if_true, ne_eq, not_true, if_false]
              rw [← hrest]
              simp only [tableScan, hmark, ok_bind]
            · simp only [hzero, if_true, ne_eq, not_false_eq_true]
              rw [← hrest, hunmarked]
              rfl

/-- The rows are filled in the order of the units, up to the first that fails. -/
theorem scanUnitsChecked_eq {fits : Nat → Candidate → Checked Bool}
    {fits' : Nat → Candidate → Bool} {unitKey : Nat → Checked Key} {unitKey' : Nat → Key}
    {units size : Nat} (hsize : units ≤ size)
    (hfits : ∀ u, ∀ c ∈ candidates, fits u c = .ok (fits' u c))
    (hreserved : ∀ c ∈ candidates, reservedBy c = .ok (reservedBy' c))
    (hkey : ∀ u, u < units → unitKey u = .ok (unitKey' u)) {remaining : Nat}
    (rows : List (List Bool)) (hrows : rows.length + remaining = units) :
    scanUnitsChecked reservedBy candidates fits unitKey rows.length remaining
        (padded size (List.replicate candidates.length false) rows) =
      .ok (((List.range' rows.length remaining).mapM fun u =>
        scanUnit (fits' u) reservedBy' candidates (unitKey' u)).map fun more =>
          padded size (List.replicate candidates.length false) (rows ++ more)) := by
  induction remaining generalizing rows with
  | zero => simp [scanUnitsChecked, Except.map, pure, Except.pure]
  | succ remaining ih =>
      have hlt : rows.length < units := by omega
      have hscan := scanCandidatesChecked_eq (hfits rows.length) hreserved size rows [] candidates
        rfl ⟨[], false, 0⟩ rfl
      have htable : partialTable size candidates.length rows [] =
          padded size (List.replicate candidates.length false) rows := by
        rw [partialTable, padded_nil, padded_concat_default (hlt.trans_le hsize)]
      rw [tableScan, htable, List.length_nil, List.getLast?_nil] at hscan
      rw [scanUnitsChecked, hscan, ok_bind, hkey _ hlt, ok_bind, List.range'_succ, List.mapM_cons]
      let scan := scanCandidates (fits' rows.length) reservedBy' none candidates ⟨[], false, 0⟩
      have hunit : scanUnit (fits' rows.length) reservedBy' candidates (unitKey' rows.length) =
          if !scan.any then
            .error ⟨if scan.blocker = 0 then .noCandidate else .reserved,
              unitKey' rows.length, scan.blocker⟩
          else .ok scan.row :=
        rfl
      change (if !scan.any then _ else scanUnitsChecked reservedBy candidates fits unitKey
        (rows.length + 1) remaining (partialTable size candidates.length rows scan.row)) = _
      rw [hunit]
      cases hany : scan.any with
      | false => rfl
      | true =>
          have hlength : scan.row.length = candidates.length := by
            simp only [scan, scanCandidates_eq, List.nil_append, leaderRow_length]
          have hrest := ih (rows ++ [scan.row]) (by simp; omega)
          rw [List.length_append, List.length_singleton] at hrest
          simp only [Bool.not_true, Bool.false_eq_true, if_false]
          rw [partialTable, padded_of_length_eq hlength, hrest]
          cases (List.range' (rows.length + 1) remaining).mapM fun u =>
              scanUnit (fits' u) reservedBy' candidates (unitKey' u) with
          | error diagnostic => rfl
          | ok more =>
              simp [Except.map, bind, Except.bind, pure, Except.pure]

end Rows

end GrevirPeripherals.PwmSafeUnits
