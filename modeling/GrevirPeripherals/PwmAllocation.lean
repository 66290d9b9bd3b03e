import GrevirPeripherals.PwmSolution
import Mathlib.Tactic.Choose

/-!
Allocations of a PWM problem: one candidate for every instance, none of them
reserved and every two independent. A valid problem ends in a report on an
instance, in an allocation, or in the verdict of the search.
-/

namespace GrevirPeripherals.PwmAllocation

open GrevirPeripherals.AllocationSearch
open GrevirPeripherals.OrderedChecks
open GrevirPeripherals.PwmAllocator
open GrevirPeripherals.PwmEligibility
open GrevirPeripherals.PwmFitting
open GrevirPeripherals.PwmModel
open GrevirPeripherals.PwmNormalForm
open GrevirPeripherals.PwmRequirements
open GrevirPeripherals.PwmSolution
open GrevirPeripherals.PwmUnits
open GrevirPeripherals.PwmValidation
open GrevirPeripherals.StandardSort
open GrevirPeripherals.Strings

/-- Every candidate that fits the instance is blocked by a reservation. -/
def NoFreeCandidate (p : Problem) (instanceName : StringView) : Prop :=
  ∀ c ∈ p.candidates, Fitting p.requests instanceName c → ¬Unreserved p c

/-- A choice of one candidate for every instance that requests something. -/
structure Allocation (p : Problem) (choice : StringView → Candidate) : Prop where
  mem : ∀ r ∈ p.requests, choice r.key.instanceName ∈ p.candidates
  fitting : ∀ r ∈ p.requests, Fitting p.requests r.key.instanceName (choice r.key.instanceName)
  unreserved : ∀ r ∈ p.requests, Unreserved p (choice r.key.instanceName)
  independent : ∀ a ∈ p.requests, ∀ b ∈ p.requests, a.key.instanceName ≠ b.key.instanceName →
    Independent p.resources (choice a.key.instanceName) (choice b.key.instanceName)

section Units

variable {sorter : Sorter} {p : Problem}

/-- A selection of one accepted candidate for each unit. -/
def ServesUnits (p : Problem) (choice : Nat → Candidate) : Prop :=
  Serves p.candidates
    (fun u c => Fitting p.requests (unitInstance p.requests u) c ∧ Unreserved p c)
    (fun a b => compatible p.resources a b = true) (solverUnits p.requests).first.length choice

theorem compatible_normalForm_iff (h : ValidModel sorter p) {a b : Candidate}
    (ha : a ∈ p.candidates) (hb : b ∈ p.candidates) :
    compatible p.resources (normalForm sorter a) (normalForm sorter b) = true ↔
      Independent p.resources a b := by
  have hmeaning := sameMeaning_normalForm sorter (h.candidates a ha)
  have hmeaning' := sameMeaning_normalForm sorter (h.candidates b hb)
  have hlocated := located_of_valid h.resources (h.candidates a ha)
  have hlocated' := located_of_valid h.resources (h.candidates b hb)
  rw [compatible_eq_true_iff h.resources (hlocated.congr hmeaning) (hlocated'.congr hmeaning')]
  exact ⟨fun hind => hind.congr hmeaning.symm hmeaning'.symm,
    fun hind => hind.congr hmeaning hmeaning'⟩

theorem exists_request_of_unit {u : Nat}
    (hu : u < (solverUnits (acceptedProblem sorter p).requests).first.length) :
    ∃ r ∈ p.requests,
      r.key.instanceName = unitInstance (acceptedProblem sorter p).requests u := by
  obtain ⟨r, hr, hinstance⟩ := PwmUnits.exists_request_of_unit _ hu
  exact ⟨r, (sortedRequests_perm sorter p).mem_iff.mp hr, hinstance⟩

theorem exists_unit_of_request {r : Request} (hr : r ∈ p.requests) :
    ∃ u, u < (solverUnits (acceptedProblem sorter p).requests).first.length ∧
      unitInstance (acceptedProblem sorter p).requests u = r.key.instanceName :=
  PwmUnits.exists_unit_of_request ((sortedRequests_perm sorter p).mem_iff.mpr hr)

theorem Allocation.servesUnits (h : ValidModel sorter p) {choice : StringView → Candidate}
    (hallocation : Allocation p choice) :
    ServesUnits (acceptedProblem sorter p) fun u =>
      normalForm sorter (choice (unitInstance (acceptedProblem sorter p).requests u)) := by
  constructor
  · intro u hu
    obtain ⟨r, hr, hinstance⟩ := exists_request_of_unit hu
    rw [← hinstance, mem_acceptedCandidates_iff h]
    exact ⟨_, hallocation.mem r hr, rfl⟩
  · intro u hu
    obtain ⟨r, hr, hinstance⟩ := exists_request_of_unit hu
    rw [← hinstance, fitting_normalForm_iff h (hallocation.mem r hr),
      unreserved_normalForm_iff h (hallocation.mem r hr)]
    exact ⟨hallocation.fitting r hr, hallocation.unreserved r hr⟩
  · intro u v huv hv
    obtain ⟨a, ha, hinstance⟩ := exists_request_of_unit (huv.trans hv)
    obtain ⟨b, hb, hinstance'⟩ := exists_request_of_unit hv
    have hne := unitInstance_ne _ (huv.trans hv) hv huv.ne
    rw [← hinstance, ← hinstance'] at hne ⊢
    exact (compatible_normalForm_iff h (hallocation.mem a ha) (hallocation.mem b hb)).mpr
      (hallocation.independent a ha b hb hne)

/-- A selection for the units yields candidates as they were presented. -/
theorem ServesUnits.allocation (h : ValidModel sorter p) {choice : Nat → Candidate}
    (hserves : ServesUnits (acceptedProblem sorter p) choice)
    {byInstance : StringView → Candidate}
    (hbyInstance : ∀ u, u < (solverUnits (acceptedProblem sorter p).requests).first.length →
      normalForm sorter (byInstance (unitInstance (acceptedProblem sorter p).requests u)) =
        choice u)
    (hmem : ∀ u, u < (solverUnits (acceptedProblem sorter p).requests).first.length →
      byInstance (unitInstance (acceptedProblem sorter p).requests u) ∈ p.candidates) :
    Allocation p byInstance := by
  constructor
  · intro r hr
    obtain ⟨u, hu, hinstance⟩ := exists_unit_of_request hr
    rw [← hinstance]
    exact hmem u hu
  · intro r hr
    obtain ⟨u, hu, hinstance⟩ := exists_unit_of_request hr
    rw [← hinstance, ← fitting_normalForm_iff h (hmem u hu), hbyInstance u hu]
    exact (hserves.admissible u hu).1
  · intro r hr
    obtain ⟨u, hu, hinstance⟩ := exists_unit_of_request hr
    rw [← hinstance, ← unreserved_normalForm_iff h (hmem u hu), hbyInstance u hu]
    exact (hserves.admissible u hu).2
  · intro a ha b hb hne
    obtain ⟨u, hu, hinstance⟩ := exists_unit_of_request ha
    obtain ⟨v, hv, hinstance'⟩ := exists_unit_of_request hb
    rw [← hinstance, ← hinstance'] at hne ⊢
    rw [← compatible_normalForm_iff h (hmem u hu) (hmem v hv), hbyInstance u hu,
      hbyInstance v hv]
    rcases Nat.lt_trichotomy u v with huv | rfl | hvu
    · exact hserves.compatible u v huv hv
    · exact absurd rfl hne
    · rw [compatible_comm]
      exact hserves.compatible v u hvu hu

/-- Each selected normal form is that of a candidate as it was presented. -/
theorem ServesUnits.exists_allocation (h : ValidModel sorter p) {choice : Nat → Candidate}
    (hserves : ServesUnits (acceptedProblem sorter p) choice) :
    ∃ byInstance, Allocation p byInstance ∧
      (solverUnits (acceptedProblem sorter p).requests).unit.map (fun u => (choice u).key) =
        (sortedKeys sorter p).map fun key => (byInstance key.instanceName).key := by
  have hgrouping := grouping_solverUnits (acceptedProblem sorter p).requests
  have horiginal : ∀ u, ∃ c,
      u < (solverUnits (acceptedProblem sorter p).requests).first.length →
        c ∈ p.candidates ∧ normalForm sorter c = choice u := by
    intro u
    by_cases hu : u < (solverUnits (acceptedProblem sorter p).requests).first.length
    · obtain ⟨c, hc⟩ := (mem_acceptedCandidates_iff h _).mp (hserves.mem u hu)
      exact ⟨c, fun _ => hc⟩
    · exact ⟨default, fun hlt => absurd hlt hu⟩
  choose original horiginal using horiginal
  obtain ⟨byInstance, hbyInstance, hmap⟩ := hgrouping.exists_byLabel original
  have hbyUnit : ∀ u, u < (solverUnits (acceptedProblem sorter p).requests).first.length →
      byInstance (unitInstance (acceptedProblem sorter p).requests u) = original u :=
    fun u hu => hbyInstance u hu _ (label_unitInstance _ hu)
  refine ⟨byInstance, ?_, ?_⟩
  · apply ServesUnits.allocation h hserves
    · intro u hu
      rw [hbyUnit u hu]
      exact (horiginal u hu).2
    · intro u hu
      rw [hbyUnit u hu]
      exact (horiginal u hu).1
  · have hkey : ∀ u ∈ (solverUnits (acceptedProblem sorter p).requests).unit,
        (choice u).key = (original u).key := by
      intro u hu
      obtain ⟨i, hi, rfl⟩ := List.getElem_of_mem hu
      have hlt := hgrouping.unit_lt i (hgrouping.length ▸ hi)
      rw [List.getD_eq_getElem _ _ hi] at hlt
      exact (congrArg Candidate.key (horiginal _ hlt).2).symm
    have hkeys := congrArg (List.map Candidate.key) hmap
    rw [List.map_map, instancesOf, List.map_map, List.map_map] at hkeys
    rw [List.map_congr_left hkey, sortedKeys, List.map_map]
    exact hkeys

end Units

section Solve

variable (sorter : Sorter) (search : Search) {p : Problem} (budget : UInt32)

theorem solve_of_valid (h : ValidProblem sorter p) :
    solve sorter search p budget = allocate search (acceptedProblem sorter p) budget := by
  rw [solve_eq, (accept_eq_ok_iff sorter p _).mpr ⟨h, rfl⟩]

theorem solve_of_invalid (h : ¬ValidProblem sorter p) :
    ∃ diagnostic : Diagnostic, diagnostic.status ≠ .success ∧
      solve sorter search p budget = fail (sortedKeys sorter p) 0 diagnostic := by
  rw [solve_eq]
  cases haccept : accept sorter p with
  | ok normal => exact absurd ((accept_eq_ok_iff sorter p normal).mp haccept).1 h
  | error diagnostic => exact ⟨diagnostic, accept_error sorter haccept, rfl⟩

def scanUnits (p : Problem) : Except Diagnostic (List (List Bool)) :=
  (List.range (solverUnits p.requests).first.length).mapM fun u =>
    scanUnit (fun c => fits p.requests (solverUnits p.requests) c u)
      (reservedBy p.resources p.reservations) p.candidates
      (keyAt p.requests ((solverUnits p.requests).first.getD u 0))

theorem allocate_eq (p : Problem) :
    allocate search p budget =
      match scanUnits p with
      | .error diagnostic => fail (p.requests.map Request.key) 0 diagnostic
      | .ok rows =>
          conclude (p.requests.map Request.key) p.candidates (solverUnits p.requests) <|
            search.run (eligibleTable p.requests.length p.candidates.length rows)
              (solverUnits p.requests).first.length
              (admitsColumns p.candidates (compatible p.resources)) budget :=
  rfl

theorem noFreeCandidate_iff (h : ValidModel sorter p) (instanceName : StringView) :
    NoFreeCandidate (acceptedProblem sorter p) instanceName ↔ NoFreeCandidate p instanceName := by
  constructor
  · intro hnone c hc hfitting hunreserved
    exact hnone _ ((mem_acceptedCandidates_iff h _).mpr ⟨c, hc, rfl⟩)
      ((fitting_normalForm_iff h hc _).mpr hfitting)
      ((unreserved_normalForm_iff h hc).mpr hunreserved)
  · intro hnone c hc hfitting hunreserved
    obtain ⟨c', hc', rfl⟩ := (mem_acceptedCandidates_iff h c).mp hc
    exact hnone c' hc' ((fitting_normalForm_iff h hc' _).mp hfitting)
      ((unreserved_normalForm_iff h hc').mp hunreserved)

/-- A unit whose row is complete has a free candidate. -/
theorem not_noFreeCandidate_of_ok (h : Accepted p) {u : Nat}
    (hu : u < (solverUnits p.requests).first.length) {row : List Bool}
    (hok : scanUnit (fun c => fits p.requests (solverUnits p.requests) c u)
      (reservedBy p.resources p.reservations) p.candidates
      (keyAt p.requests ((solverUnits p.requests).first.getD u 0)) = .ok row) :
    ¬NoFreeCandidate p (unitInstance p.requests u) := by
  intro hnone
  obtain ⟨-, c, hc, hfree⟩ := (scanUnit_eq_ok_iff _ _ _ _ _).mp hok
  obtain ⟨hfitting, hunreserved⟩ := (h.isFree_iff hc hu).mp hfree
  exact hnone c hc hfitting hunreserved

/-- The first unit that fails starts with the least key of a blocked instance. -/
theorem allocate_of_blocked (h : Accepted p)
    (hblocked : ∃ r ∈ p.requests, NoFreeCandidate p r.key.instanceName) :
    ∃ key diagnostic,
      IsLeast {key | key ∈ p.requests.map Request.key ∧ NoFreeCandidate p key.instanceName} key ∧
        InstanceReport p key diagnostic ∧
          allocate search p budget = fail (p.requests.map Request.key) 0 diagnostic := by
  have hgrouping := grouping_solverUnits p.requests
  have hsize := instancesOf_length p.requests
  have hunit : ∀ i, i < p.requests.length →
      unitInstance p.requests ((solverUnits p.requests).unit.getD i 0) =
        (keyAt p.requests i).instanceName := by
    intro i hi
    have hlabel := hgrouping.label_first_unit (hsize.symm ▸ hi)
    rw [label_unitInstance _ (hgrouping.unit_lt i (hsize.symm ▸ hi)),
      instancesOf_getElem? _ hi] at hlabel
    exact Option.some.inj hlabel
  rw [allocate_eq]
  cases hscan : scanUnits p with
  | ok rows =>
      obtain ⟨r, hr, hnone⟩ := hblocked
      obtain ⟨i, hi, rfl⟩ := List.getElem_of_mem hr
      have hu := hgrouping.unit_lt i (hsize.symm ▸ hi)
      have hfree := not_noFreeCandidate_of_ok h hu
        (((mapM_range_eq_ok_iff _ _ _).mp hscan).2 _ hu)
      rw [hunit i hi, keyAt, List.getD_eq_getElem _ _ hi] at hfree
      exact absurd hnone hfree
  | error diagnostic =>
      obtain ⟨u, hu, herror, hearlier⟩ := (mapM_range_eq_error_iff _ _ _).mp hscan
      obtain ⟨hnone, hreport⟩ := h.instanceReport hu herror
      have hfirst := hsize ▸ hgrouping.first_lt u hu
      refine ⟨_, diagnostic, ⟨⟨?_, hnone⟩, ?_⟩, hreport, rfl⟩
      · rw [keyAt, List.getD_eq_getElem _ _ hfirst]
        exact List.mem_map_of_mem (List.getElem_mem hfirst)
      · rintro key ⟨hkey, hblockedKey⟩
        obtain ⟨r, hr, rfl⟩ := List.mem_map.mp hkey
        obtain ⟨i, hi, rfl⟩ := List.getElem_of_mem hr
        have hi' := hsize.symm ▸ hi
        have hle : u ≤ (solverUnits p.requests).unit.getD i 0 := by
          by_contra hlt
          obtain ⟨row, hok⟩ := hearlier _ (Nat.lt_of_not_le hlt)
          apply not_noFreeCandidate_of_ok h (hgrouping.unit_lt i hi') hok
          rw [hunit i hi, keyAt, List.getD_eq_getElem _ _ hi]
          exact hblockedKey
        have hplace := hgrouping.first_le_of_unit_le hi' hle
        rw [keyAt, List.getD_eq_getElem _ _ hfirst]
        rcases Nat.eq_or_lt_of_le hplace with heq | hlt
        · simp only [heq, le_refl]
        · exact (List.pairwise_iff_getElem.mp h.requestsAscending _ _ hfirst hi hlt).le

theorem solve_of_blocked (h : ValidProblem sorter p)
    (hblocked : ∃ r ∈ p.requests, NoFreeCandidate p r.key.instanceName) :
    ∃ key diagnostic,
      IsLeast {key | key ∈ p.requests.map Request.key ∧ NoFreeCandidate p key.instanceName} key ∧
        InstanceReport p key diagnostic ∧
          solve sorter search p budget = fail (sortedKeys sorter p) 0 diagnostic := by
  have hblocked' : ∃ r ∈ (acceptedProblem sorter p).requests,
      NoFreeCandidate (acceptedProblem sorter p) r.key.instanceName := by
    obtain ⟨r, hr, hnone⟩ := hblocked
    exact ⟨r, (sortedRequests_perm sorter p).mem_iff.mpr hr,
      (noFreeCandidate_iff sorter h.model _).mpr hnone⟩
  obtain ⟨key, diagnostic, hleast, hreport, hallocate⟩ :=
    allocate_of_blocked search budget (accepted h) hblocked'
  have hset : {key | key ∈ (acceptedProblem sorter p).requests.map Request.key ∧
      NoFreeCandidate (acceptedProblem sorter p) key.instanceName} =
        {key | key ∈ p.requests.map Request.key ∧ NoFreeCandidate p key.instanceName} := by
    ext key
    exact and_congr (sortedKeys_perm sorter p).mem_iff (noFreeCandidate_iff sorter h.model _)
  rw [hset] at hleast
  refine ⟨key, diagnostic, hleast, InstanceReport.presented h.model hreport, ?_⟩
  rw [solve_of_valid sorter search budget h, hallocate]
  rfl

/-- Past the eligibility table the search decides, unless it runs out of budget. -/
theorem solve_of_free (h : ValidProblem sorter p)
    (hfree : ∀ r ∈ p.requests, ¬NoFreeCandidate p r.key.instanceName) :
    (∃ visited choice, Allocation p choice ∧
        solve sorter search p budget =
          { diagnostic := {}
            requests := sortedKeys sorter p
            candidates := (sortedKeys sorter p).map fun key => (choice key.instanceName).key
            visited := visited }) ∨
      (∃ visited, (¬∃ choice, Allocation p choice) ∧
        solve sorter search p budget = fail (sortedKeys sorter p) visited ⟨.conflict, {}, 0⟩) ∨
      ∃ visited,
        solve sorter search p budget =
          fail (sortedKeys sorter p) visited ⟨.exhausted, {}, 0⟩ := by
  have haccepted := accepted h
  rw [solve_of_valid sorter search budget h, allocate_eq]
  cases hscan : scanUnits (acceptedProblem sorter p) with
  | error diagnostic =>
      obtain ⟨u, hu, herror, -⟩ := (mapM_range_eq_error_iff _ _ _).mp hscan
      obtain ⟨r, hr, hinstance⟩ := exists_request_of_unit hu
      refine absurd ?_ (hfree r hr)
      rw [hinstance, ← noFreeCandidate_iff sorter h.model]
      exact (haccepted.instanceReport hu herror).1
  | ok rows =>
      have htable := haccepted.tabulates (acceptedProblem sorter p).requests.length
        (acceptedProblem sorter p).candidates.length hscan
      simp only [conclude]
      generalize hanswer : search.run _ _ _ budget = answer
      rcases search.verdict htable (compatible_comm _) hanswer with
        ⟨hsuccess, hserves⟩ | ⟨hsuccess, hexhausted, hnone⟩ | ⟨hsuccess, hexhausted⟩
      · obtain ⟨choice, hallocation, hkeys⟩ := ServesUnits.exists_allocation h.model hserves
        refine Or.inl ⟨answer.visited, choice, hallocation, ?_⟩
        simp only [hsuccess, hkeys, Bool.not_true, Bool.false_eq_true, if_false]
        rfl
      · refine Or.inr (Or.inl ⟨answer.visited, ?_, ?_⟩)
        · rintro ⟨choice, hallocation⟩
          exact hnone ⟨_, hallocation.servesUnits h.model⟩
        · simp only [hsuccess, hexhausted, Bool.not_false, if_true]
          rfl
      · refine Or.inr (Or.inr ⟨answer.visited, ?_⟩)
        simp only [hsuccess, hexhausted, Bool.not_false, if_true]
        rfl

end Solve

end GrevirPeripherals.PwmAllocation
