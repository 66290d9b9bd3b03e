import GrevirPeripherals.PwmRequestMerge
import GrevirPeripherals.PwmSolution

/-!
The option front end against the checks of the allocator: both reject the same names,
and a request that is built without an error passes every check of its configuration.
-/

namespace GrevirPeripherals.PwmFrontEnd

open GrevirPeripherals.AllocationSearch
open GrevirPeripherals.OrderedChecks
open GrevirPeripherals.PwmAccumulation
open GrevirPeripherals.PwmAllocator
open GrevirPeripherals.PwmEligibility
open GrevirPeripherals.PwmModel
open GrevirPeripherals.PwmNumeric
open GrevirPeripherals.PwmOptions
open GrevirPeripherals.PwmRequestMerge
open GrevirPeripherals.PwmRequirements
open GrevirPeripherals.PwmSolution
open GrevirPeripherals.PwmUnits
open GrevirPeripherals.PwmWindowMeet
open GrevirPeripherals.StandardSort

section Configuration

theorem atMost_one_of_stepOf {option : PlainOption} {limit : Ratio}
    (h : stepOf option = some limit) : limit.value ≤ 1 := by
  cases option with
  | dutyStepAtMost raw =>
      rw [stepOf] at h
      split_ifs at h with hbad
      obtain rfl := Option.some.inj h
      simp only [Bool.or_eq_true, decide_eq_true_eq, not_or, UInt32.lt_iff_toNat_lt,
        not_lt] at hbad
      rw [Ratio.value]
      exact div_le_one_of_le₀ (by exact_mod_cast hbad.2) (Nat.cast_nonneg _)
  | _ => simp at h

variable (resident : Target) (i : Instance) (use : PwmRequest)

/-- No check of the configuration objects to a request that is built without an error. -/
theorem validRequest_of_error (h : (request resident i use).config.error = .none) :
    ValidRequest (request resident i use) := by
  have hmissing := not_missing_of_error resident i use h
  have hconflict := not_conflicting_of_error resident i use h
  have hmerged := request_merged resident i use h
  have hconfig := request_of_not_missing resident i use hmissing
  constructor
  case error => exact h
  case frequency => exact hmerged.frequency.normal.valid
  case step => exact hmerged.step.valid
  case stepLe =>
    obtain ⟨limit, hlimit, hvalue⟩ := hmerged.step.least.1
    obtain ⟨option, -, hoption⟩ := List.mem_filterMap.mp hlimit
    have hone : Ratio.value ⟨1, 1⟩ = 1 := by simp [Ratio.value]
    rw [Ratio.atMost_iff_value_le (Ratio.positive_of_valid hmerged.step.valid) (by decide), hone,
      ← hvalue]
    exact atMost_one_of_stepOf hoption
  case pin =>
    simp only [Missing, not_or] at hmissing
    rw [hconfig, accumulated_pin]
    exact fun hzero => hmissing.2.2
      ((latest_eq_unset_iff (unset_notMem pinOf_ne _)).mp hzero)
  case nonempty =>
    simp only [Conflicting, not_or] at hconflict
    rw [hconfig, accumulated_frequency, ← Bool.not_eq_true,
      empty_accumulate_iff fun clause => legal_of_mem]
    exact hconflict.1

end Configuration

section Names

/-- The keys of all uses. -/
def keys (instances : List Instance) : List Key :=
  instances.flatMap fun i => i.uses.map (keyOf i)

/-- A use has a name that is no identifier, or two uses have one key. -/
def BadNames (instances : List Instance) : Prop :=
  (∃ key ∈ keys instances,
    identifier key.instanceName = false ∨ identifier key.localName = false) ∨
    ¬(keys instances).Nodup

theorem keys_identities (instances : List Instance) :
    (identities instances).map Request.key = keys instances := by
  simp only [identities, keys, List.map_flatMap, List.map_map]
  rfl

theorem keys_requests (resident : Target) (instances : List Instance) :
    (requests resident instances).map Request.key = keys instances := by
  rw [requests]
  split_ifs
  · simp only [keys, List.map_flatMap, List.map_map]
    rfl
  · exact keys_identities instances

theorem validIdentities_iff (values : List Request) :
    validIdentities values = true ↔ ValidIdentities values := by
  rw [validIdentities, checkEach_iff]
  constructor
  · rintro ⟨hnamed, hpairwise⟩
    refine ⟨fun r hr => by simpa using hnamed r hr, List.pairwise_map.mpr ?_⟩
    exact hpairwise.imp fun hne heq => by simp [heq] at hne
  · rintro ⟨hnamed, hdistinct⟩
    refine ⟨fun r hr => by simpa using hnamed r hr, ?_⟩
    exact (List.pairwise_map.mp hdistinct).imp fun hne => by simpa using Ne.symm hne

theorem validIdentities_iff_not_badNames {values : List Request} {instances : List Instance}
    (hkeys : values.map Request.key = keys instances) :
    ValidIdentities values ↔ ¬BadNames instances := by
  rw [BadNames, not_or, not_not, ← hkeys]
  simp only [not_exists, not_and, not_or, Bool.not_eq_false, List.forall_mem_map]
  exact ⟨fun h => ⟨h.named, h.distinct⟩, fun h => ⟨h.1, h.2⟩⟩

variable (resident : Target) {instances : List Instance}

theorem requests_of_badNames (h : BadNames instances) :
    requests resident instances = identities instances := by
  rw [requests, if_neg]
  rw [validIdentities_iff, validIdentities_iff_not_badNames (keys_identities instances)]
  exact not_not.mpr h

theorem requests_of_not_badNames (h : ¬BadNames instances) :
    requests resident instances = instances.flatMap fun i => i.uses.map (request resident i) := by
  rw [requests, if_pos]
  rw [validIdentities_iff, validIdentities_iff_not_badNames (keys_identities instances)]
  exact h

end Names

section Phases

theorem checkIdentity_status {requests : List Request} {r : Request} {diagnostic : Diagnostic}
    (h : checkIdentity requests r = .error diagnostic) :
    diagnostic.status = .invalidIdentity ∨ diagnostic.status = .duplicateIdentity := by
  simp only [checkIdentity] at h
  split_ifs at h
  · cases h
    exact Or.inl rfl
  · cases h
    exact Or.inr rfl

theorem checkRequest_report {r : Request} {diagnostic : Diagnostic}
    (h : checkRequest r = .error diagnostic) :
    diagnostic.status = .invalidRequest ∧ diagnostic.request = r.key ∧
      (r.config.error ≠ .none → diagnostic.detail = r.config.error.code) := by
  simp only [checkRequest] at h
  split_ifs at h with herror
  · cases h
    exact ⟨rfl, rfl, fun _ => rfl⟩
  · cases h
    exact ⟨rfl, rfl, fun hne => absurd hne herror⟩
  · cases h
    exact ⟨rfl, rfl, fun hne => absurd hne herror⟩

theorem checkPin_status {resources : List Resource} {r : Request} {diagnostic : Diagnostic}
    (h : checkPin resources r = .error diagnostic) : diagnostic.status = .modelError := by
  rw [checkPin] at h
  split at h
  next => cases h; rfl
  next => split_ifs at h; cases h; rfl

/-- The statuses of the first two checks. -/
def Early (status : Status) : Prop :=
  status = .invalidIdentity ∨ status = .duplicateIdentity ∨ status = .invalidRequest

theorem conclude_not_early (requests : List Key) (candidates : List Candidate)
    (units : UnitGrouping.Units) (answer : SearchResult) :
    ¬Early (conclude requests candidates units answer).diagnostic.status := by
  rw [conclude]
  split_ifs <;> simp [Early, fail]

theorem allocate_not_early (search : Search) (p : Problem) (budget : UInt32) :
    ¬Early (allocate search p budget).diagnostic.status := by
  simp only [allocate]
  split
  next diagnostic herror =>
    obtain ⟨u, -, hscan, -⟩ := (mapM_range_eq_error_iff _ _ _).mp herror
    obtain ⟨-, blocker, -, rfl⟩ := scanUnit_error _ _ hscan
    simp only [fail, Early]
    split_ifs <;> simp
  next rows _ => exact conclude_not_early _ _ _ _

variable (sorter : Sorter) {p : Problem}

theorem accept_of_badNames (h : ¬ValidIdentities p.requests) :
    ∃ diagnostic, accept sorter p = .error diagnostic ∧
      (diagnostic.status = .invalidIdentity ∨ diagnostic.status = .duplicateIdentity) := by
  have hperm := sortedRequests_perm sorter p
  cases hcheck : (sortedRequests sorter p).mapM (checkIdentity (sortedRequests sorter p)) with
  | ok units =>
      have hvalid := (checkIdentities_iff _).mp ((mapM_check_iff _ _).mp ⟨units, hcheck⟩)
      exact absurd (hvalid.perm hperm) h
  | error diagnostic =>
      obtain ⟨-, r, -, -, herror, -⟩ := (mapM_eq_error_iff _ _ _).mp hcheck
      refine ⟨diagnostic, ?_, checkIdentity_status herror⟩
      simp only [accept, bind_eq_error_iff]
      exact Or.inl hcheck

section Named

variable (hnames : ValidIdentities p.requests)

include hnames

theorem checkIdentities_ok :
    ∃ units, (sortedRequests sorter p).mapM (checkIdentity (sortedRequests sorter p)) =
      .ok units :=
  (mapM_check_iff _ _).mpr
    ((checkIdentities_iff _).mpr (hnames.perm (sortedRequests_perm sorter p).symm))

/-- The request reported is the one with the least key among those that fail. -/
theorem accept_of_badRequest (hbad : ∃ r ∈ p.requests, ¬ValidRequest r) :
    ∃ diagnostic, accept sorter p = .error diagnostic ∧
      ∃ r ∈ p.requests, checkRequest r = .error diagnostic ∧
        ∀ r' ∈ p.requests, ¬ValidRequest r' → r.key ≤ r'.key := by
  have hperm := sortedRequests_perm sorter p
  obtain ⟨units, hidentities⟩ := checkIdentities_ok sorter hnames
  cases hcheck : (sortedRequests sorter p).mapM checkRequest with
  | ok units' =>
      obtain ⟨r, hr, hinvalid⟩ := hbad
      have hok := (mapM_check_iff _ _).mp ⟨units', hcheck⟩ r (hperm.mem_iff.mpr hr)
      exact absurd ((checkRequest_eq_ok_iff r).mp hok) hinvalid
  | error diagnostic =>
      obtain ⟨earlier, r, later, hsplit, herror, hearlier⟩ := (mapM_eq_error_iff _ _ _).mp hcheck
      have hr : r ∈ sortedRequests sorter p := by
        rw [hsplit]
        exact List.mem_append_right _ List.mem_cons_self
      refine ⟨diagnostic, ?_, r, hperm.mem_iff.mp hr, herror, ?_⟩
      · simp only [accept, bind_eq_error_iff]
        exact Or.inr ⟨units, hidentities, Or.inl hcheck⟩
      · intro r' hr' hinvalid
        have hascending : (sortedRequests sorter p).Pairwise fun a b => a.key ≤ b.key :=
          sorter.ascending_byKey Request.key p.requests
        have hmem := hperm.mem_iff.mpr hr'
        rw [hsplit, List.mem_append, List.mem_cons] at hmem
        rw [hsplit, List.pairwise_append, List.pairwise_cons] at hascending
        rcases hmem with hmem | rfl | hmem
        · obtain ⟨_, hok⟩ := hearlier r' hmem
          exact absurd ((checkRequest_eq_ok_iff r').mp hok) hinvalid
        · exact le_rfl
        · exact hascending.2.1.1 r' hmem

theorem accept_of_validRequests (hrequests : ∀ r ∈ p.requests, ValidRequest r)
    {diagnostic : Diagnostic} (herror : accept sorter p = .error diagnostic) :
    diagnostic.status = .modelError := by
  have hperm := sortedRequests_perm sorter p
  obtain ⟨units, hidentities⟩ := checkIdentities_ok sorter hnames
  have hchecks : ∀ r ∈ sortedRequests sorter p, checkRequest r = .ok () := fun r hr =>
    (checkRequest_eq_ok_iff r).mpr (hrequests r (hperm.mem_iff.mp hr))
  obtain ⟨units', hcheck⟩ := (mapM_check_iff _ _).mpr hchecks
  simp only [accept, bind_eq_error_iff, hidentities, hcheck, reduceCtorEq, false_or,
    Except.ok.injEq, exists_eq_left'] at herror
  rcases herror with hmodel | ⟨normal, -, hpins | ⟨-, -, hpure⟩⟩
  · obtain ⟨-, rfl⟩ := (acceptModel_eq_error_iff sorter _ _).mp hmodel
    rfl
  · obtain ⟨-, r, -, -, hpin, -⟩ := (mapM_eq_error_iff _ _ _).mp hpins
    exact checkPin_status hpin
  · contradiction

end Named

end Phases

section Solve

variable (sorter : Sorter) (search : Search) {p : Problem} (budget : UInt32)

theorem solve_identity_iff :
    ((solve sorter search p budget).diagnostic.status = .invalidIdentity ∨
        (solve sorter search p budget).diagnostic.status = .duplicateIdentity) ↔
      ¬ValidIdentities p.requests := by
  by_cases hnames : ValidIdentities p.requests
  · refine iff_of_false ?_ (not_not.mpr hnames)
    rw [solve_eq]
    cases haccept : accept sorter p with
    | ok normal =>
        have hlate := allocate_not_early search normal budget
        simp only [Early, not_or] at hlate
        exact not_or.mpr ⟨hlate.1, hlate.2.1⟩
    | error diagnostic =>
        simp only [fail]
        by_cases hbad : ∃ r ∈ p.requests, ¬ValidRequest r
        · obtain ⟨diagnostic', haccept', r, -, herror, -⟩ := accept_of_badRequest sorter hnames hbad
          obtain rfl := Except.error.inj (haccept.symm.trans haccept')
          simp [(checkRequest_report herror).1]
        · simp only [not_exists, not_and, not_not] at hbad
          simp [accept_of_validRequests sorter hnames hbad haccept]
  · obtain ⟨diagnostic, haccept, hstatus⟩ := accept_of_badNames sorter hnames
    refine iff_of_true ?_ hnames
    rw [solve_eq, haccept]
    exact hstatus

variable (hnames : ValidIdentities p.requests)

include hnames

theorem solve_of_badRequest (hbad : ∃ r ∈ p.requests, ¬ValidRequest r) :
    ∃ r ∈ p.requests,
      checkRequest r = .error (solve sorter search p budget).diagnostic ∧
        ∀ r' ∈ p.requests, ¬ValidRequest r' → r.key ≤ r'.key := by
  obtain ⟨diagnostic, haccept, r, hr, herror, hleast⟩ := accept_of_badRequest sorter hnames hbad
  rw [solve_eq, haccept]
  exact ⟨r, hr, herror, hleast⟩

theorem solve_request_iff :
    (solve sorter search p budget).diagnostic.status = .invalidRequest ↔
      ∃ r ∈ p.requests, ¬ValidRequest r := by
  constructor
  · intro hstatus
    by_contra hbad
    simp only [not_exists, not_and, not_not] at hbad
    rw [solve_eq] at hstatus
    cases haccept : accept sorter p with
    | ok normal =>
        rw [haccept] at hstatus
        exact allocate_not_early search normal budget (Or.inr (Or.inr hstatus))
    | error diagnostic =>
        rw [haccept] at hstatus
        have hmodel := accept_of_validRequests sorter hnames hbad haccept
        simp [fail, hmodel] at hstatus
  · intro hbad
    obtain ⟨r, -, herror, -⟩ := solve_of_badRequest sorter search budget hnames hbad
    exact (checkRequest_report herror).1

end Solve

section Agreement

/-- What a diagnostic says about the names and the options of the instances. -/
structure Agrees (resident : Target) (instances : List Instance) (diagnostic : Diagnostic) :
    Prop where
  identity : diagnostic.status = .invalidIdentity ∨ diagnostic.status = .duplicateIdentity ↔
    BadNames instances
  placeholder : BadNames instances → requests resident instances = identities instances
  built : ¬BadNames instances →
    requests resident instances = instances.flatMap fun i => i.uses.map (request resident i)
  invalid : ¬BadNames instances →
    (diagnostic.status = .invalidRequest ↔
      ∃ r ∈ requests resident instances, r.config.error ≠ .none)
  report : ¬BadNames instances → diagnostic.status = .invalidRequest →
    ∃ r ∈ requests resident instances, r.config.error ≠ .none ∧
      diagnostic = ⟨.invalidRequest, r.key, r.config.error.code⟩ ∧
        ∀ r' ∈ requests resident instances, r'.config.error ≠ .none → r.key ≤ r'.key

variable (sorter : Sorter) (search : Search) (resident : Target) (instances : List Instance)

/-- Where names are right, a request fails the checks exactly by its error. -/
theorem validRequest_iff (hnames : ¬BadNames instances) {r : Request}
    (hr : r ∈ requests resident instances) : ValidRequest r ↔ r.config.error = .none := by
  constructor
  · exact fun h => h.error
  · intro herror
    rw [requests_of_not_badNames resident hnames, List.mem_flatMap] at hr
    obtain ⟨i, -, hr⟩ := hr
    obtain ⟨use, -, rfl⟩ := List.mem_map.mp hr
    exact validRequest_of_error resident i use herror

theorem exists_bad_iff (hnames : ¬BadNames instances) :
    (∃ r ∈ requests resident instances, ¬ValidRequest r) ↔
      ∃ r ∈ requests resident instances, r.config.error ≠ .none :=
  exists_congr fun _ => and_congr_right fun hr =>
    not_congr (validRequest_iff resident instances hnames hr)

/-- The front end and the allocator agree on what a bad request is, and no check of the
configuration objects to a request that is built without an error. -/
theorem solve_requests_agrees (p : Problem) (budget : UInt32) :
    Agrees resident instances
        (solve sorter search { p with requests := requests resident instances } budget).diagnostic ∧
      ∀ (i : Instance) (use : PwmRequest), (request resident i use).config.error = .none →
        checkRequest (request resident i use) = .ok () := by
  have hkeys := keys_requests resident instances
  refine ⟨?_, fun i use herror =>
    (checkRequest_eq_ok_iff _).mpr (validRequest_of_error resident i use herror)⟩
  constructor
  case identity =>
    rw [solve_identity_iff, validIdentities_iff_not_badNames hkeys, not_not]
  case placeholder => exact requests_of_badNames resident
  case built => exact requests_of_not_badNames resident
  case invalid =>
    intro hnames
    rw [solve_request_iff sorter search budget
        ((validIdentities_iff_not_badNames hkeys).mpr hnames),
      exists_bad_iff resident instances hnames]
  case report =>
    intro hnames hstatus
    have hvalid := (validIdentities_iff_not_badNames hkeys).mpr hnames
    have hbad := (solve_request_iff sorter search budget
      (p := { p with requests := requests resident instances }) hvalid).mp hstatus
    obtain ⟨r, hr, herror, hleast⟩ := solve_of_badRequest sorter search budget hvalid hbad
    have hne : r.config.error ≠ .none := by
      intro hnone
      rw [(checkRequest_eq_ok_iff r).mpr
        ((validRequest_iff resident instances hnames hr).mpr hnone)] at herror
      contradiction
    obtain ⟨-, hrequest, hdetail⟩ := checkRequest_report herror
    refine ⟨r, hr, hne, ?_, ?_⟩
    · rw [← hrequest, ← hdetail hne, ← hstatus]
    · intro r' hr' hne'
      exact hleast r' hr' fun hok =>
        hne' ((validRequest_iff resident instances hnames hr').mp hok)

/-- The name of an instance without uses is not checked by either side. -/
theorem unused_instance_unchecked :
    identifier (Instance.mk [] []).name = false ∧
      validIdentities (identities [⟨[], []⟩]) = true ∧
        (solve insertionSorter backtracking
          { requests := requests .avr [⟨[], []⟩], candidates := [], resources := [],
            reservations := [] } 100).diagnostic.status = .success := by
  decide +kernel

end Agreement

end GrevirPeripherals.PwmFrontEnd
