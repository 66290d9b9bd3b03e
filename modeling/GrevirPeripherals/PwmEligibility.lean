import GrevirPeripherals.PwmUnits
import GrevirPeripherals.ScanLoops

/-!
The eligibility table of the PWM allocator. The row of a unit marks candidates
that fit its instance and are not reserved, and a unit without one is reported.
-/

namespace GrevirPeripherals.PwmEligibility

open GrevirPeripherals.AllocationSearch
open GrevirPeripherals.OrderedChecks
open GrevirPeripherals.PwmAllocator
open GrevirPeripherals.PwmFitting
open GrevirPeripherals.PwmModel
open GrevirPeripherals.PwmRequirements
open GrevirPeripherals.PwmResourceTree
open GrevirPeripherals.PwmUnits
open GrevirPeripherals.PwmValidation
open GrevirPeripherals.ScanLoops
open GrevirPeripherals.Strings

theorem lowestBlocking_eq (resources : List Resource) (c : Candidate) (reservations : List Nat)
    (lowest : Nat) :
    lowestBlocking resources c reservations lowest =
      (reservations.filter (blocks resources c)).foldl lower lowest := by
  induction reservations generalizing lowest with
  | nil => rfl
  | cons r rest ih =>
      rw [lowestBlocking, ih]
      cases hblocks : blocks resources c r with
      | false => simp [hblocks]
      | true => simp [hblocks, lower]

/-- `reserved_by` returns the least reservation that blocks the candidate. -/
theorem lowest_reservedBy {reservations : List Nat} (hreservations : ∀ r ∈ reservations, r ≠ 0)
    (resources : List Resource) (c : Candidate) :
    Lowest {r | r ∈ reservations ∧ blocks resources c r = true}
      (reservedBy resources reservations c) := by
  have hlowest := lowest_foldl (l := reservations.filter (blocks resources c)) fun r hr =>
    hreservations r (List.mem_of_mem_filter hr)
  simp only [List.mem_filter] at hlowest
  rw [reservedBy, lowestBlocking_eq]
  exact hlowest

section Scan

variable (fits : Candidate → Bool) (reservedBy : Candidate → Nat)

/-- The entry of the eligibility table for a candidate that is not skipped. -/
def isFree (c : Candidate) : Bool :=
  fits c && decide (reservedBy c = 0)

def isBlocked (c : Candidate) : Bool :=
  fits c && decide (reservedBy c ≠ 0)

/-- The reservations that the loop lowers its blocker to, one after the other. -/
def metBlockers (previous : Option Candidate) (candidates : List Candidate) : List Nat :=
  ((leaders previous candidates).filter (isBlocked fits reservedBy)).map reservedBy

theorem scanCandidates_eq (previous : Option Candidate) (candidates : List Candidate)
    (scan : Scan) :
    scanCandidates fits reservedBy previous candidates scan =
      { row := scan.row ++ leaderRow (isFree fits reservedBy) previous candidates
        any := scan.any || (leaders previous candidates).any (isFree fits reservedBy)
        blocker := (metBlockers fits reservedBy previous candidates).foldl lower
          scan.blocker } := by
  induction candidates generalizing previous scan with
  | nil => simp [scanCandidates, leaderRow, leaders, metBlockers]
  | cons c rest ih =>
      rw [scanCandidates, ih, leaderRow, metBlockers, metBlockers, leaders]
      by_cases hrepeat : previous = some c
      · simp [hrepeat]
      · cases hfits : fits c with
        | false => simp [hrepeat, hfits, isFree, isBlocked]
        | true =>
            by_cases hreserved : reservedBy c = 0
            · simp [hrepeat, hfits, hreserved, isFree, isBlocked]
            · simp [hrepeat, hfits, hreserved, isFree, isBlocked, lower]

theorem any_leaders_iff (candidates : List Candidate) :
    (leaders none candidates).any (isFree fits reservedBy) = true ↔
      ∃ c ∈ candidates, isFree fits reservedBy c = true := by
  simp only [List.any_eq_true, mem_leaders_iff]

theorem scanUnit_eq_ok_iff (candidates : List Candidate) (key : Key) (row : List Bool) :
    scanUnit fits reservedBy candidates key = .ok row ↔
      row = leaderRow (isFree fits reservedBy) none candidates ∧
        ∃ c ∈ candidates, isFree fits reservedBy c = true := by
  rw [scanUnit, scanCandidates_eq, ← any_leaders_iff]
  cases (leaders none candidates).any (isFree fits reservedBy) <;> simp [eq_comm]

theorem scanUnit_error {candidates : List Candidate} {key : Key} {diagnostic : Diagnostic}
    (h : scanUnit fits reservedBy candidates key = .error diagnostic) :
    (∀ c ∈ candidates, fits c = true → reservedBy c ≠ 0) ∧
      ∃ blocker, Lowest {r | ∃ c ∈ candidates, fits c = true ∧ reservedBy c = r} blocker ∧
        diagnostic = ⟨if blocker = 0 then .noCandidate else .reserved, key, blocker⟩ := by
  have hnone : ¬∃ c ∈ candidates, isFree fits reservedBy c = true := by
    intro hfree
    rw [(scanUnit_eq_ok_iff fits reservedBy candidates key _).mpr ⟨rfl, hfree⟩] at h
    contradiction
  have hreserved : ∀ c ∈ candidates, fits c = true → reservedBy c ≠ 0 := by
    intro c hc hfits hzero
    exact hnone ⟨c, hc, by simp [isFree, hfits, hzero]⟩
  refine ⟨hreserved, (metBlockers fits reservedBy none candidates).foldl lower 0, ?_, ?_⟩
  · have hmem : ∀ r, r ∈ metBlockers fits reservedBy none candidates ↔
        ∃ c ∈ candidates, fits c = true ∧ reservedBy c = r := by
      intro r
      simp only [metBlockers, List.mem_map, List.mem_filter, mem_leaders_iff, isBlocked,
        Bool.and_eq_true, decide_eq_true_eq]
      constructor
      · rintro ⟨c, ⟨hc, hfits, -⟩, rfl⟩
        exact ⟨c, hc, hfits, rfl⟩
      · rintro ⟨c, hc, hfits, rfl⟩
        exact ⟨c, ⟨hc, hfits, hreserved c hc hfits⟩, rfl⟩
    have hlowest := lowest_foldl (l := metBlockers fits reservedBy none candidates) fun r hr => by
      obtain ⟨c, hc, hfits, rfl⟩ := (hmem r).mp hr
      exact hreserved c hc hfits
    simp only [hmem] at hlowest
    exact hlowest
  · have hany : (leaders none candidates).any (isFree fits reservedBy) = false := by
      rw [← Bool.not_eq_true, any_leaders_iff]
      exact hnone
    rw [scanUnit, scanCandidates_eq] at h
    simpa [hany] using h.symm

end Scan

/-- No reservation blocks the candidate. -/
def Unreserved (p : Problem) (c : Candidate) : Prop :=
  ∀ r ∈ p.reservations, ¬Blocks p.resources c r

/-- The reservations that block a candidate that fits the instance. -/
def blockersOf (p : Problem) (instanceName : StringView) : Set Nat :=
  {r | r ∈ p.reservations ∧ ∃ c ∈ p.candidates,
    Fitting p.requests instanceName c ∧ Blocks p.resources c r}

/-- The report on an instance none of whose fitting candidates is free. -/
inductive InstanceReport (p : Problem) (key : Key) : Diagnostic → Prop
  | noCandidate (h : ∀ c ∈ p.candidates, ¬Fitting p.requests key.instanceName c) :
      InstanceReport p key ⟨.noCandidate, key, 0⟩
  | reserved (detail : Nat) (h : IsLeast (blockersOf p key.instanceName) detail) :
      InstanceReport p key ⟨.reserved, key, detail⟩

/-- A problem as the checks leave it for the eligibility table. -/
structure Accepted (p : Problem) : Prop where
  requestsAscending : p.requests.Pairwise fun a b => a.key < b.key
  validRequests : ∀ r ∈ p.requests, ValidRequest r
  tree : TwoLevel p.resources
  arranged : ∀ c ∈ p.candidates, Arranged c
  located : ∀ c ∈ p.candidates, Located p.resources c
  reservations : ∀ r ∈ p.reservations, ∃ kind, HasKind p.resources r kind

namespace Accepted

variable {p : Problem} (h : Accepted p)

include h

theorem lowest_reservedBy {c : Candidate} (hc : c ∈ p.candidates) :
    Lowest {r | r ∈ p.reservations ∧ Blocks p.resources c r}
      (reservedBy p.resources p.reservations c) := by
  have hne : ∀ r ∈ p.reservations, r ≠ 0 := by
    intro r hr
    obtain ⟨kind, hkind⟩ := h.reservations r hr
    exact h.tree.ne_zero_of_hasKind hkind
  have hset : {r | r ∈ p.reservations ∧ blocks p.resources c r = true} =
      {r | r ∈ p.reservations ∧ Blocks p.resources c r} := by
    ext r
    apply and_congr_right
    intro hr
    obtain ⟨kind, hkind⟩ := h.reservations r hr
    exact blocks_eq_true_iff h.tree (h.located c hc) hkind
  have hlowest := PwmEligibility.lowest_reservedBy hne p.resources c
  rw [hset] at hlowest
  exact hlowest

theorem reservedBy_eq_zero_iff {c : Candidate} (hc : c ∈ p.candidates) :
    reservedBy p.resources p.reservations c = 0 ↔ Unreserved p c := by
  rw [(h.lowest_reservedBy hc).eq_zero_iff, Set.eq_empty_iff_forall_notMem]
  simp only [Set.mem_ofPred_eq, not_and]
  rfl

theorem fits_iff {c : Candidate} (hc : c ∈ p.candidates) {u : Nat}
    (hu : u < (solverUnits p.requests).first.length) :
    fits p.requests (solverUnits p.requests) c u = true ↔
      Fitting p.requests (unitInstance p.requests u) c :=
  fits_eq_true_iff h.requestsAscending h.validRequests (h.arranged c hc) hu

theorem isFree_iff {c : Candidate} (hc : c ∈ p.candidates) {u : Nat}
    (hu : u < (solverUnits p.requests).first.length) :
    isFree (fun c => fits p.requests (solverUnits p.requests) c u)
        (reservedBy p.resources p.reservations) c = true ↔
      Fitting p.requests (unitInstance p.requests u) c ∧ Unreserved p c := by
  rw [isFree, Bool.and_eq_true, decide_eq_true_eq, h.fits_iff hc hu, h.reservedBy_eq_zero_iff hc]

/-- The least of the least blocking reservations is the least of all. -/
theorem instanceReport {u : Nat} (hu : u < (solverUnits p.requests).first.length)
    {diagnostic : Diagnostic}
    (herror : scanUnit (fun c => fits p.requests (solverUnits p.requests) c u)
      (reservedBy p.resources p.reservations) p.candidates
      (keyAt p.requests ((solverUnits p.requests).first.getD u 0)) = .error diagnostic) :
    (∀ c ∈ p.candidates, Fitting p.requests (unitInstance p.requests u) c →
        ¬Unreserved p c) ∧
      InstanceReport p (keyAt p.requests ((solverUnits p.requests).first.getD u 0))
        diagnostic := by
  obtain ⟨hreserved, blocker, hlowest, hdiagnostic⟩ := scanUnit_error _ _ herror
  have hblocked : ∀ c ∈ p.candidates, Fitting p.requests (unitInstance p.requests u) c →
      ¬Unreserved p c := by
    intro c hc hfitting hunreserved
    exact hreserved c hc ((h.fits_iff hc hu).mpr hfitting)
      ((h.reservedBy_eq_zero_iff hc).mpr hunreserved)
  refine ⟨hblocked, ?_⟩
  rw [hdiagnostic]
  by_cases hzero : blocker = 0
  · have hempty := hlowest.eq_zero_iff.mp hzero
    rw [if_pos hzero, hzero]
    apply InstanceReport.noCandidate
    intro c hc hfitting
    have hmem : reservedBy p.resources p.reservations c ∈
        {r | ∃ c ∈ p.candidates, fits p.requests (solverUnits p.requests) c u = true ∧
          reservedBy p.resources p.reservations c = r} :=
      ⟨c, hc, (h.fits_iff hc hu).mpr hfitting, rfl⟩
    rw [hempty] at hmem
    contradiction
  · obtain ⟨⟨c, hc, hfits, hblocker⟩, hle⟩ := hlowest.isLeast hzero
    rw [if_neg hzero]
    apply InstanceReport.reserved
    have hleast := (h.lowest_reservedBy hc).isLeast (hblocker ▸ hzero)
    rw [hblocker] at hleast
    obtain ⟨⟨hmem, hblocks⟩, -⟩ := hleast
    refine ⟨⟨hmem, c, hc, (h.fits_iff hc hu).mp hfits, hblocks⟩, ?_⟩
    rintro r ⟨hr, c', hc', hfitting, hblocks'⟩
    have hfits' := (h.fits_iff hc' hu).mpr hfitting
    calc blocker ≤ reservedBy p.resources p.reservations c' := hle ⟨c', hc', hfits', rfl⟩
      _ ≤ r := ((h.lowest_reservedBy hc').isLeast (hreserved c' hc' hfits')).2 ⟨hr, hblocks'⟩

/-- The completed table marks one position of every fitting, unreserved candidate. -/
theorem tabulates {rows : List (List Bool)} (size columns : Nat)
    (hrows : ((List.range (solverUnits p.requests).first.length).mapM fun u =>
      scanUnit (fun c => fits p.requests (solverUnits p.requests) c u)
        (reservedBy p.resources p.reservations) p.candidates
        (keyAt p.requests ((solverUnits p.requests).first.getD u 0))) = .ok rows) :
    Tabulates p.candidates
      (fun u c => Fitting p.requests (unitInstance p.requests u) c ∧ Unreserved p c)
      (solverUnits p.requests).first.length (eligibleTable size columns rows) := by
  obtain ⟨hlength, hall⟩ := (mapM_range_eq_ok_iff _ _ _).mp hrows
  have hentry : ∀ u, u < (solverUnits p.requests).first.length → ∀ c,
      entry (eligibleTable size columns rows) u c =
        (leaderRow (isFree (fun c => fits p.requests (solverUnits p.requests) c u)
          (reservedBy p.resources p.reservations)) none p.candidates).getD c false := by
    intro u hu c
    rw [entry_eligibleTable size columns (hlength ▸ hu),
      ← ((scanUnit_eq_ok_iff _ _ _ _ _).mp (hall u hu)).1]
    rfl
  constructor
  · intro u hu c hmark
    rw [hentry u hu] at hmark
    obtain ⟨hc, hfree⟩ := leaderRow_sound hmark
    rw [List.getD_eq_getElem _ _ hc]
    exact ⟨hc, (h.isFree_iff (List.getElem_mem hc) hu).mp hfree⟩
  · intro u hu x hx hfree
    obtain ⟨c, hc, hvalue, hmark⟩ := leaderRow_complete ((mem_leaders_iff _ x).mpr hx)
      ((h.isFree_iff hx hu).mpr hfree)
    refine ⟨c, ?_, ?_⟩
    · rw [List.getD_eq_getElem _ _ hc, hvalue]
    · rw [hentry u hu]
      exact hmark

end Accepted

end GrevirPeripherals.PwmEligibility
