import GrevirPeripherals.PwmEligibility

/-!
The checks before the eligibility table, and the problem they hand over: sorted
requests and sorted normal forms that mean the same as the candidates presented.
-/

namespace GrevirPeripherals.PwmSolution

open GrevirPeripherals.AllocationSearch
open GrevirPeripherals.OrderedChecks
open GrevirPeripherals.PwmAllocator
open GrevirPeripherals.PwmCandidateOrder
open GrevirPeripherals.PwmEligibility
open GrevirPeripherals.PwmFitting
open GrevirPeripherals.PwmModel
open GrevirPeripherals.PwmNormalForm
open GrevirPeripherals.PwmRequirements
open GrevirPeripherals.PwmResourceTree
open GrevirPeripherals.PwmUnits
open GrevirPeripherals.PwmValidation
open GrevirPeripherals.StandardSort
open GrevirPeripherals.Strings

section Checks

/-- Every name is valid and no key is used twice. -/
structure ValidIdentities (requests : List Request) : Prop where
  named : ∀ r ∈ requests,
    identifier r.key.instanceName = true ∧ identifier r.key.localName = true
  distinct : (requests.map Request.key).Nodup

theorem countP_key (requests : List Request) (r : Request) :
    requests.countP (fun other => other.key = r.key) = (requests.map Request.key).count r.key := by
  rw [List.count_eq_countP, List.countP_map]
  rfl

theorem checkIdentity_eq_ok_iff (requests : List Request) (r : Request) :
    checkIdentity requests r = .ok () ↔
      (identifier r.key.instanceName = true ∧ identifier r.key.localName = true) ∧
        (requests.map Request.key).count r.key ≤ 1 := by
  rw [checkIdentity, ← countP_key]
  cases identifier r.key.instanceName <;> cases identifier r.key.localName <;>
    simp

theorem checkIdentities_iff (requests : List Request) :
    (∀ r ∈ requests, checkIdentity requests r = .ok ()) ↔ ValidIdentities requests := by
  simp only [checkIdentity_eq_ok_iff]
  constructor
  · intro h
    refine ⟨fun r hr => (h r hr).1, List.nodup_iff_count_le_one.mpr ?_⟩
    intro key
    by_cases hkey : key ∈ requests.map Request.key
    · obtain ⟨r, hr, rfl⟩ := List.mem_map.mp hkey
      exact (h r hr).2
    · rw [List.count_eq_zero_of_not_mem hkey]
      exact Nat.zero_le 1
  · rintro ⟨hnamed, hdistinct⟩ r hr
    exact ⟨hnamed r hr, List.nodup_iff_count_le_one.mp hdistinct r.key⟩

theorem ValidIdentities.perm {requests requests' : List Request}
    (hperm : requests.Perm requests') (h : ValidIdentities requests) :
    ValidIdentities requests' where
  named r hr := h.named r (hperm.mem_iff.mpr hr)
  distinct := (hperm.map _).nodup_iff.mp h.distinct

theorem checkIdentity_error {requests : List Request} {r : Request} {diagnostic : Diagnostic}
    (h : checkIdentity requests r = .error diagnostic) : diagnostic.status ≠ .success := by
  simp only [checkIdentity] at h
  split_ifs at h <;> cases h <;> simp

theorem checkRequest_error {r : Request} {diagnostic : Diagnostic}
    (h : checkRequest r = .error diagnostic) : diagnostic.status ≠ .success := by
  simp only [checkRequest] at h
  split_ifs at h <;> cases h <;> simp

theorem checkPin_eq_ok_iff (resources : List Resource) (r : Request) :
    checkPin resources r = .ok () ↔ isKind resources r.config.pin .pin = true := by
  rw [checkPin, isKind]
  cases resource resources r.config.pin <;> simp

theorem checkPin_error {resources : List Resource} {r : Request} {diagnostic : Diagnostic}
    (h : checkPin resources r = .error diagnostic) : diagnostic.status ≠ .success := by
  rw [checkPin] at h
  split at h
  next => cases h; simp
  next => split_ifs at h; cases h; simp

theorem ValidCandidate.perm {resources : List Resource} {requests requests' : List Request}
    (hperm : requests.Perm requests') {c : Candidate}
    (h : ValidCandidate resources requests c) : ValidCandidate resources requests' c where
  header := h.header
  endpoints e he := by
    have hvalid := h.endpoints e he
    rw [validEndpoint_eq_true_iff] at hvalid ⊢
    simpa only [hperm.mem_iff] using hvalid
  distinct := h.distinct

theorem ValidModel.perm {sorter : Sorter} {p : Problem} {requests : List Request}
    (hperm : p.requests.Perm requests) (h : ValidModel sorter p) :
    ValidModel sorter { p with requests := requests } where
  resources := h.resources
  known := h.known
  apart := h.apart
  candidates c hc := ValidCandidate.perm hperm (h.candidates c hc)
  consistent := h.consistent

end Checks

section Solve

variable (sorter : Sorter)

def sortedRequests (p : Problem) : List Request :=
  sorter.sort (byKey Request.key) p.requests

/-- The keys of the plan, in ascending order. -/
def sortedKeys (p : Problem) : List Key :=
  (sortedRequests sorter p).map Request.key

theorem sortedRequests_perm (p : Problem) : (sortedRequests sorter p).Perm p.requests :=
  sorter.perm_byKey _ _

theorem sortedKeys_perm (p : Problem) :
    (sortedKeys sorter p).Perm (p.requests.map Request.key) :=
  (sortedRequests_perm sorter p).map _

/-- The problem that reaches the eligibility table. -/
def acceptedProblem (p : Problem) : Problem :=
  normalModel sorter { p with requests := sortedRequests sorter p }

/-- A problem that passes every check. -/
structure ValidProblem (p : Problem) : Prop where
  identities : ValidIdentities p.requests
  requests : ∀ r ∈ p.requests, ValidRequest r
  model : ValidModel sorter p
  pins : ∀ r ∈ p.requests, isKind p.resources r.config.pin .pin = true

def acceptModel (p : Problem) : Except Diagnostic Problem :=
  match normalizeModel sorter p with
  | none => .error ⟨.modelError, {}, 0⟩
  | some normal => .ok normal

theorem acceptModel_eq_ok_iff (p normal : Problem) :
    acceptModel sorter p = .ok normal ↔ ValidModel sorter p ∧ normal = normalModel sorter p := by
  rw [← normalizeModel_eq_some_iff, acceptModel]
  cases normalizeModel sorter p <;> simp

theorem acceptModel_eq_error_iff (p : Problem) (diagnostic : Diagnostic) :
    acceptModel sorter p = .error diagnostic ↔
      ¬ValidModel sorter p ∧ diagnostic = ⟨.modelError, {}, 0⟩ := by
  rw [← normalizeModel_eq_none_iff, acceptModel]
  cases normalizeModel sorter p <;> simp [eq_comm]

/-- The checks of `solve`, in order; the problem they leave is the one searched. -/
def accept (p : Problem) : Except Diagnostic Problem := do
  let requests := sortedRequests sorter p
  let _ ← requests.mapM (checkIdentity requests)
  let _ ← requests.mapM checkRequest
  let normal ← acceptModel sorter { p with requests := requests }
  let _ ← requests.mapM (checkPin normal.resources)
  return normal

theorem solve_eq (search : Search) (p : Problem) (budget : UInt32) :
    solve sorter search p budget =
      match accept sorter p with
      | .error diagnostic => fail (sortedKeys sorter p) 0 diagnostic
      | .ok normal => allocate search normal budget := by
  rw [solve, accept, sortedKeys]
  simp only [← sortedRequests.eq_1]
  cases (sortedRequests sorter p).mapM (checkIdentity (sortedRequests sorter p)) with
  | error diagnostic => rfl
  | ok _ =>
      cases (sortedRequests sorter p).mapM checkRequest with
      | error diagnostic => rfl
      | ok _ =>
          rw [acceptModel]
          cases normalizeModel sorter { p with requests := sortedRequests sorter p } with
          | none => rfl
          | some normal =>
              simp only
              cases hpins : (sortedRequests sorter p).mapM (checkPin normal.resources) with
              | error diagnostic => simp [bind, Except.bind, hpins]
              | ok _ => simp [bind, Except.bind, hpins, pure, Except.pure]

theorem accept_eq_ok_iff (p normal : Problem) :
    accept sorter p = .ok normal ↔ ValidProblem sorter p ∧ normal = acceptedProblem sorter p := by
  have hperm := sortedRequests_perm sorter p
  have hidentities : (∃ r, (sortedRequests sorter p).mapM
      (checkIdentity (sortedRequests sorter p)) = .ok r) ↔ ValidIdentities p.requests := by
    rw [mapM_check_iff, checkIdentities_iff]
    exact ⟨ValidIdentities.perm hperm, ValidIdentities.perm hperm.symm⟩
  have hrequests : (∃ r, (sortedRequests sorter p).mapM checkRequest = .ok r) ↔
      ∀ r ∈ p.requests, ValidRequest r := by
    simp only [mapM_check_iff, checkRequest_eq_ok_iff, hperm.mem_iff]
  have hpins : (∃ r, (sortedRequests sorter p).mapM (checkPin p.resources) = .ok r) ↔
      ∀ r ∈ p.requests, isKind p.resources r.config.pin .pin = true := by
    simp only [mapM_check_iff, checkPin_eq_ok_iff, hperm.mem_iff]
  have hmodel : ValidModel sorter { p with requests := sortedRequests sorter p } ↔
      ValidModel sorter p :=
    ⟨ValidModel.perm hperm, ValidModel.perm hperm.symm⟩
  simp only [accept, bind_eq_ok_iff]
  constructor
  · rintro ⟨r, hr, r', hr', normal', hnormal, r'', hr'', hresult⟩
    obtain ⟨hvalid, rfl⟩ := (acceptModel_eq_ok_iff sorter _ _).mp hnormal
    exact ⟨⟨hidentities.mp ⟨r, hr⟩, hrequests.mp ⟨r', hr'⟩, hmodel.mp hvalid,
      hpins.mp ⟨r'', hr''⟩⟩, (Except.ok.inj hresult).symm⟩
  · rintro ⟨h, rfl⟩
    obtain ⟨r, hr⟩ := hidentities.mpr h.identities
    obtain ⟨r', hr'⟩ := hrequests.mpr h.requests
    obtain ⟨r'', hr''⟩ := hpins.mpr h.pins
    have hnormal := (acceptModel_eq_ok_iff sorter _ _).mpr ⟨hmodel.mpr h.model, rfl⟩
    exact ⟨r, hr, r', hr', _, hnormal, r'', hr'', rfl⟩

theorem accept_error {p : Problem} {diagnostic : Diagnostic}
    (h : accept sorter p = .error diagnostic) : diagnostic.status ≠ .success := by
  simp only [accept, bind_eq_error_iff] at h
  rcases h with herror | ⟨-, -, herror | ⟨-, -, hmodel | ⟨normal, -, herror | ⟨-, -, hpure⟩⟩⟩⟩
  · obtain ⟨-, r, -, -, herror, -⟩ := (mapM_eq_error_iff _ _ _).mp herror
    exact checkIdentity_error herror
  · obtain ⟨-, r, -, -, herror, -⟩ := (mapM_eq_error_iff _ _ _).mp herror
    exact checkRequest_error herror
  · obtain ⟨-, rfl⟩ := (acceptModel_eq_error_iff sorter _ _).mp hmodel
    simp
  · obtain ⟨-, r, -, -, herror, -⟩ := (mapM_eq_error_iff _ _ _).mp herror
    exact checkPin_error herror
  · contradiction

end Solve

section Accepted

variable {sorter : Sorter} {p : Problem}

/-- On normal forms the comparator is an order. -/
theorem candidateLess_normalForms (h : ValidModel sorter p) :
    ∀ a ∈ p.candidates.map (normalForm sorter), ∀ b ∈ p.candidates.map (normalForm sorter),
      candidateLess a b = byKey candidateKey a b := by
  intro a ha b hb
  obtain ⟨c, hc, rfl⟩ := List.mem_map.mp ha
  obtain ⟨c', hc', rfl⟩ := List.mem_map.mp hb
  exact candidateLess_eq_byKey (arranged_normalForm sorter (h.candidates c hc)).count_le
    (arranged_normalForm sorter (h.candidates c' hc')).count_le

theorem acceptedCandidates_perm (h : ValidModel sorter p) :
    (acceptedProblem sorter p).candidates.Perm (p.candidates.map (normalForm sorter)) :=
  sorter.perm_of_byKey candidateKey (candidateLess_normalForms (p := p) h)

theorem mem_acceptedCandidates_iff (h : ValidModel sorter p) (c : Candidate) :
    c ∈ (acceptedProblem sorter p).candidates ↔ ∃ c' ∈ p.candidates, normalForm sorter c' = c := by
  rw [(acceptedCandidates_perm h).mem_iff, List.mem_map]

theorem accepted (h : ValidProblem sorter p) : Accepted (acceptedProblem sorter p) where
  requestsAscending := by
    have hdistinct := (h.identities.perm (sortedRequests_perm sorter p).symm).distinct
    exact (sorter.ascending_byKey _ _).imp₂ (fun _ _ => lt_of_le_of_ne)
      (List.pairwise_map.mp hdistinct)
  validRequests r hr := h.requests r ((sortedRequests_perm sorter p).mem_iff.mp hr)
  tree := h.model.resources
  arranged c hc := by
    obtain ⟨c', hc', rfl⟩ := (mem_acceptedCandidates_iff h.model c).mp hc
    exact arranged_normalForm sorter (h.model.candidates c' hc')
  located c hc := by
    obtain ⟨c', hc', rfl⟩ := (mem_acceptedCandidates_iff h.model c).mp hc
    have hvalid := h.model.candidates c' hc'
    exact (located_of_valid h.model.resources hvalid).congr (sameMeaning_normalForm sorter hvalid)
  reservations r hr := by
    obtain ⟨found, hfound⟩ := Option.isSome_iff_exists.mp (h.model.known r hr)
    obtain ⟨hmem, hid⟩ := mem_of_resource hfound
    exact ⟨found.kind, found, hmem, hid, rfl⟩

/-- A candidate and its normal form fit the same instances. -/
theorem fitting_normalForm_iff (h : ValidModel sorter p) {c : Candidate} (hc : c ∈ p.candidates)
    (instanceName : StringView) :
    Fitting (acceptedProblem sorter p).requests instanceName (normalForm sorter c) ↔
      Fitting p.requests instanceName c := by
  have hmeaning := sameMeaning_normalForm sorter (h.candidates c hc)
  have hperm := sortedRequests_perm sorter p
  constructor
  · intro hfitting
    exact (hfitting.congr hmeaning.symm).perm hperm
  · intro hfitting
    exact (hfitting.congr hmeaning).perm hperm.symm

theorem blocks_normalForm_iff (h : ValidModel sorter p) {c : Candidate} (hc : c ∈ p.candidates)
    (r : Nat) :
    Blocks p.resources (normalForm sorter c) r ↔ Blocks p.resources c r := by
  have hmeaning := sameMeaning_normalForm sorter (h.candidates c hc)
  exact ⟨Blocks.congr hmeaning.symm, Blocks.congr hmeaning⟩

theorem unreserved_normalForm_iff (h : ValidModel sorter p) {c : Candidate}
    (hc : c ∈ p.candidates) :
    Unreserved (acceptedProblem sorter p) (normalForm sorter c) ↔ Unreserved p c := by
  apply forall₂_congr
  intro r _
  exact not_congr (blocks_normalForm_iff h hc r)

theorem blockersOf_acceptedProblem (h : ValidModel sorter p) (instanceName : StringView) :
    blockersOf (acceptedProblem sorter p) instanceName = blockersOf p instanceName := by
  ext r
  apply and_congr_right
  intro _
  constructor
  · rintro ⟨c, hc, hfitting, hblocks⟩
    obtain ⟨c', hc', rfl⟩ := (mem_acceptedCandidates_iff h c).mp hc
    exact ⟨c', hc', (fitting_normalForm_iff h hc' _).mp hfitting,
      (blocks_normalForm_iff h hc' r).mp hblocks⟩
  · rintro ⟨c, hc, hfitting, hblocks⟩
    exact ⟨_, (mem_acceptedCandidates_iff h _).mpr ⟨c, hc, rfl⟩,
      (fitting_normalForm_iff h hc _).mpr hfitting, (blocks_normalForm_iff h hc r).mpr hblocks⟩

/-- A report on the problem that is searched is one on the problem presented. -/
theorem InstanceReport.presented (h : ValidModel sorter p) {key : Key} {diagnostic : Diagnostic}
    (hreport : InstanceReport (acceptedProblem sorter p) key diagnostic) :
    InstanceReport p key diagnostic := by
  cases hreport with
  | noCandidate hnone =>
      apply InstanceReport.noCandidate
      intro c hc hfitting
      exact hnone _ ((mem_acceptedCandidates_iff h _).mpr ⟨c, hc, rfl⟩)
        ((fitting_normalForm_iff h hc _).mpr hfitting)
  | reserved detail hleast =>
      rw [blockersOf_acceptedProblem h] at hleast
      exact InstanceReport.reserved detail hleast

end Accepted

end GrevirPeripherals.PwmSolution
