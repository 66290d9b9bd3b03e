import GrevirPeripherals.PwmSoundness
import GrevirPeripherals.Rearrangement

/-!
The PWM allocator gives the same plan for every presentation of a problem: the
order of its arrays, the order of the endpoints of a candidate, the content of
unused slots and the representation of ratios do not matter.
-/

namespace GrevirPeripherals.PwmPresentation

open GrevirPeripherals.AllocationSearch
open GrevirPeripherals.OrderedChecks
open GrevirPeripherals.PwmAllocation
open GrevirPeripherals.PwmAllocator
open GrevirPeripherals.PwmCandidateOrder
open GrevirPeripherals.PwmEligibility
open GrevirPeripherals.PwmModel
open GrevirPeripherals.PwmNormalForm
open GrevirPeripherals.PwmNumeric
open GrevirPeripherals.PwmRequirements
open GrevirPeripherals.PwmResourceTree
open GrevirPeripherals.PwmSolution
open GrevirPeripherals.PwmSoundness
open GrevirPeripherals.PwmUnits
open GrevirPeripherals.PwmValidation
open GrevirPeripherals.Rearrangement
open GrevirPeripherals.ScanLoops
open GrevirPeripherals.StandardSort

section Relations

/-- Equal ratios, or legal ones that represent the same number. -/
def Rescaled (legal : Ratio → Bool) (a b : Ratio) : Prop :=
  a = b ∨ (legal a = true ∧ legal b = true ∧ a.value = b.value)

structure EndpointPresents (e e' : Endpoint) : Prop where
  request : e.request = e'.request
  channel : e.channel = e'.channel
  pin : e.pin = e'.pin
  step : Rescaled Ratio.valid e.step e'.step

/-- The slots past the live endpoints are not compared. -/
structure CandidatePresents (c c' : Candidate) : Prop where
  key : c.key = c'.key
  preference : c.preference = c'.preference
  timer : c.timer = c'.timer
  counterBits : c.counterBits = c'.counterBits
  configuration : c.configuration = c'.configuration
  frequency : Rescaled Ratio.positive c.frequency c'.frequency
  waveform : c.waveform = c'.waveform
  source : c.source = c'.source
  size : c.endpoints.length = c'.endpoints.length
  endpoints : Rearranged EndpointPresents c.liveEndpoints c'.liveEndpoints
  count : c.count = c'.count
  domain : c.domain = c'.domain
  setting : c.setting = c'.setting
  independentDuties : c.independentDuties = c'.independentDuties

/-- Two presentations of one problem. -/
structure Presents (p q : Problem) : Prop where
  requests : p.requests.Perm q.requests
  candidates : Rearranged CandidatePresents p.candidates q.candidates
  resources : p.resources.Perm q.resources
  reservations : p.reservations.Perm q.reservations

theorem Rescaled.symm {legal : Ratio → Bool} {a b : Ratio} (h : Rescaled legal a b) :
    Rescaled legal b a := by
  rcases h with rfl | ⟨ha, hb, hvalue⟩
  · exact Or.inl rfl
  · exact Or.inr ⟨hb, ha, hvalue.symm⟩

theorem Rescaled.value_eq {legal : Ratio → Bool} {a b : Ratio} (h : Rescaled legal a b) :
    a.value = b.value := by
  rcases h with rfl | ⟨-, -, hvalue⟩
  · rfl
  · exact hvalue

theorem Rescaled.legal_eq {legal : Ratio → Bool} {a b : Ratio} (h : Rescaled legal a b) :
    legal a = legal b := by
  rcases h with rfl | ⟨ha, hb, -⟩
  · rfl
  · rw [ha, hb]

/-- A common factor keeps the number, and a legal multiple comes from a legal ratio. -/
theorem rescaled_of_scale {a b : Ratio} (factor : Nat)
    (hnumerator : b.numerator.toNat = factor * a.numerator.toNat)
    (hdenominator : b.denominator.toNat = factor * a.denominator.toNat) :
    (b.positive = true → Rescaled Ratio.positive a b) ∧
      (b.valid = true → Rescaled Ratio.valid a b) := by
  have hpositive : b.positive = true →
      (0 < factor ∧ 0 < a.numerator.toNat ∧ 0 < a.denominator.toNat) ∧ a.value = b.value := by
    intro hb
    obtain ⟨hnum, hden⟩ := (Ratio.positive_iff b).mp hb
    rw [hnumerator] at hnum
    rw [hdenominator] at hden
    have hfactor := Nat.pos_of_mul_pos_right hnum
    refine ⟨⟨hfactor, Nat.pos_of_mul_pos_left hnum, Nat.pos_of_mul_pos_left hden⟩, ?_⟩
    rw [Ratio.value, Ratio.value, hnumerator, hdenominator, Nat.cast_mul, Nat.cast_mul,
      mul_div_mul_left]
    exact Nat.cast_ne_zero.mpr hfactor.ne'
  constructor
  · intro hb
    obtain ⟨⟨-, hnum, hden⟩, hvalue⟩ := hpositive hb
    exact Or.inr ⟨(Ratio.positive_iff a).mpr ⟨hnum, hden⟩, hb, hvalue⟩
  · intro hb
    obtain ⟨⟨hfactor, hnum, hden⟩, hvalue⟩ := hpositive (Ratio.positive_of_valid hb)
    obtain ⟨⟨-, hnumLe⟩, -, hdenLe⟩ := (Ratio.valid_iff b).mp hb
    rw [hnumerator] at hnumLe
    rw [hdenominator] at hdenLe
    have hle := Nat.le_mul_of_pos_left a.numerator.toNat hfactor
    have hle' := Nat.le_mul_of_pos_left a.denominator.toNat hfactor
    exact Or.inr ⟨(Ratio.valid_iff a).mpr ⟨⟨hnum, hle.trans hnumLe⟩, hden, hle'.trans hdenLe⟩,
      hb, hvalue⟩

theorem EndpointPresents.symm {e e' : Endpoint} (h : EndpointPresents e e') :
    EndpointPresents e' e :=
  ⟨h.request.symm, h.channel.symm, h.pin.symm, h.step.symm⟩

theorem EndpointPresents.atMost_one_eq {e e' : Endpoint} (he : EndpointPresents e e') :
    atMost e.step ⟨1, 1⟩ = atMost e'.step ⟨1, 1⟩ := by
  rcases he.step with heq | ⟨hvalid, hvalid', hvalue⟩
  · rw [heq]
  · have hone : (⟨1, 1⟩ : Ratio).positive = true := by decide
    rw [Bool.eq_iff_iff, Ratio.atMost_iff_value_le (Ratio.positive_of_valid hvalid) hone,
      Ratio.atMost_iff_value_le (Ratio.positive_of_valid hvalid') hone, hvalue]

theorem CandidatePresents.symm {c c' : Candidate} (h : CandidatePresents c c') :
    CandidatePresents c' c :=
  ⟨h.key.symm, h.preference.symm, h.timer.symm, h.counterBits.symm, h.configuration.symm,
    h.frequency.symm, h.waveform.symm, h.source.symm, h.size.symm,
    h.endpoints.swap.mono fun _ _ => EndpointPresents.symm, h.count.symm, h.domain.symm,
    h.setting.symm, h.independentDuties.symm⟩

theorem Presents.symm {p q : Problem} (h : Presents p q) : Presents q p :=
  ⟨h.requests.symm, h.candidates.swap.mono fun _ _ => CandidatePresents.symm,
    h.resources.symm, h.reservations.symm⟩

theorem CandidatePresents.sameMeaning {c c' : Candidate} (h : CandidatePresents c c') :
    SameMeaning c c' where
  key := h.key
  preference := h.preference
  timer := h.timer
  counterBits := h.counterBits
  configuration := h.configuration
  frequency := h.frequency.value_eq
  waveform := h.waveform
  source := h.source
  endpoints := by
    apply h.endpoints.map_perm
    intro e _ e' _ he
    rw [endpointMeaning, endpointMeaning, he.request, he.channel, he.pin, he.step.value_eq]
  count := h.count
  domain := h.domain
  setting := h.setting
  independentDuties := h.independentDuties

end Relations

section Model

variable {p q : Problem} (h : Presents p q)

include h

theorem validHeader_congr (htree : TwoLevel p.resources) {c c' : Candidate}
    (hc : CandidatePresents c c') : validHeader p.resources c = validHeader q.resources c' := by
  rw [validHeader, validHeader, htree.isKind_congr h.resources, hc.key, hc.configuration,
    hc.timer, hc.counterBits, hc.frequency.legal_eq, hc.count, hc.size, hc.domain, hc.setting]

theorem validEndpoint_congr (htree : TwoLevel p.resources) (timer : Nat) {e e' : Endpoint}
    (he : EndpointPresents e e') :
    validEndpoint p.resources p.requests timer e =
      validEndpoint q.resources q.requests timer e' := by
  have hany : (p.requests.any fun request => request.key = e.request) =
      q.requests.any fun request => request.key = e'.request := by
    rw [he.request]
    exact h.requests.any_eq
  rw [validEndpoint, validEndpoint, htree.isKind_congr h.resources,
    htree.descendant_congr h.resources, he.channel, he.pin, he.step.legal_eq,
    he.atMost_one_eq, hany]

theorem validCandidate_of_presents (htree : TwoLevel p.resources) {c c' : Candidate}
    (hc : CandidatePresents c c') (hvalid : ValidCandidate p.resources p.requests c) :
    ValidCandidate q.resources q.requests c' where
  header := by
    rw [← validHeader_congr h htree hc]
    exact hvalid.header
  endpoints e' he' := by
    obtain ⟨e, he, hpresents⟩ := hc.endpoints.exists_left he'
    rw [← hc.timer, ← validEndpoint_congr h htree c.timer hpresents]
    exact hvalid.endpoints e he
  distinct := by
    -- Members are shared or not whatever else the endpoints say.
    have hshares : ∀ l : List Endpoint, (l.Pairwise fun x y => sharesMember y x = false) ↔
        (l.map endpointMeaning).Pairwise fun x y =>
          y.1 ≠ x.1 ∧ y.2.1 ≠ x.2.1 ∧ y.2.2.1 ≠ x.2.2.1 := by
      intro l
      simp only [List.pairwise_map, sharesMember_eq_false_iff, endpointMeaning]
    rw [hshares]
    refine (hc.sameMeaning.endpoints.pairwise_iff ?_).mp ((hshares _).mp hvalid.distinct)
    rintro x y ⟨hrequest, hchannel, hpin⟩
    exact ⟨hrequest.symm, hchannel.symm, hpin.symm⟩

variable {sorter : Sorter}

theorem normalForm_congr (hvalid : ValidModel sorter p) {c c' : Candidate}
    (hmem : c ∈ p.candidates) (hc : CandidatePresents c c') :
    normalForm sorter c = normalForm sorter c' :=
  normalForm_eq_of_sameMeaning sorter (hvalid.candidates c hmem)
    (validCandidate_of_presents h hvalid.resources hc (hvalid.candidates c hmem)) hc.size
    hc.sameMeaning

theorem validModel_of_presents (hvalid : ValidModel sorter p) : ValidModel sorter q where
  resources := hvalid.resources.perm h.resources
  known r hr := by
    rw [← hvalid.resources.resource_congr h.resources]
    exact hvalid.known r (h.reservations.mem_iff.mpr hr)
  apart := by
    rw [← hvalid.resources.overlaps_congr h.resources]
    apply h.reservations.pairwise hvalid.apart
    intro a b hab
    rw [overlaps_comm]
    exact hab
  candidates c' hc' := by
    obtain ⟨c, hc, hpresents⟩ := h.candidates.exists_left hc'
    exact validCandidate_of_presents h hvalid.resources hpresents (hvalid.candidates c hc)
  consistent a' ha' b' hb' := by
    obtain ⟨a, ha, hpresents⟩ := h.candidates.exists_left ha'
    obtain ⟨b, hb, hpresents'⟩ := h.candidates.exists_left hb'
    rw [← normalForm_congr h hvalid ha hpresents, ← normalForm_congr h hvalid hb hpresents']
    exact hvalid.consistent a ha b hb

theorem presents_of_requests (requests : List Request) :
    Presents { p with requests := requests } { q with requests := requests } :=
  ⟨List.Perm.refl _, h.candidates, h.resources, h.reservations⟩

theorem validProblem_of_presents (hvalid : ValidProblem sorter p) : ValidProblem sorter q where
  identities := hvalid.identities.perm h.requests
  requests r hr := hvalid.requests r (h.requests.mem_iff.mpr hr)
  model := validModel_of_presents h hvalid.model
  pins r hr := by
    rw [← hvalid.model.resources.isKind_congr h.resources]
    exact hvalid.pins r (h.requests.mem_iff.mpr hr)

end Model

section Solve

variable (sorter : Sorter) {p q : Problem}

/-- The check of an identity looks at nothing but the keys. -/
def checkKey (keys : List Key) (key : Key) : Except Diagnostic Unit :=
  if !identifier key.instanceName || !identifier key.localName then
    .error ⟨.invalidIdentity, key, 0⟩
  else if 1 < keys.count key then .error ⟨.duplicateIdentity, key, keys.count key⟩
  else .ok ()

theorem mapM_checkIdentity (requests : List Request) :
    requests.mapM (checkIdentity requests) =
      (requests.map Request.key).mapM (checkKey (requests.map Request.key)) := by
  have hcheck : checkIdentity requests = checkKey (requests.map Request.key) ∘ Request.key := by
    funext r
    simp only [checkIdentity, countP_key, Function.comp_apply, checkKey]
  rw [List.mapM_map, hcheck]

variable (h : Presents p q)

include h

theorem sortedKeys_congr : sortedKeys sorter p = sortedKeys sorter q :=
  sorter.map_sort_byKey_congr Request.key h.requests

theorem identities_congr :
    (sortedRequests sorter p).mapM (checkIdentity (sortedRequests sorter p)) =
      (sortedRequests sorter q).mapM (checkIdentity (sortedRequests sorter q)) := by
  have hkeys := sortedKeys_congr sorter h
  rw [sortedKeys, sortedKeys] at hkeys
  rw [mapM_checkIdentity, mapM_checkIdentity, hkeys]

/-- Without a duplicate the keys fix the order of the requests. -/
theorem sortedRequests_congr (hidentities : ValidIdentities p.requests) :
    sortedRequests sorter p = sortedRequests sorter q :=
  sorter.sort_byKey_congr h.requests fun _ ha _ hb =>
    List.inj_on_of_nodup_map hidentities.distinct ha hb

theorem acceptModel_error_congr {requests : List Request} {diagnostic : Diagnostic}
    (herror : acceptModel sorter { p with requests := requests } = .error diagnostic) :
    acceptModel sorter { q with requests := requests } = .error diagnostic := by
  rw [acceptModel_eq_error_iff] at herror ⊢
  refine ⟨?_, herror.2⟩
  intro hvalid
  exact herror.1 (validModel_of_presents (presents_of_requests h requests).symm hvalid)

/-- The same check fails in the same way. -/
theorem accept_error_congr {diagnostic : Diagnostic}
    (herror : accept sorter p = .error diagnostic) : accept sorter q = .error diagnostic := by
  have hidentities := identities_congr sorter h
  have hperm := sortedRequests_perm sorter p
  simp only [accept, bind_eq_error_iff] at herror ⊢
  rw [← hidentities]
  rcases herror with hfirst | ⟨units, hfirst, hrest⟩
  · exact Or.inl hfirst
  right
  refine ⟨units, hfirst, ?_⟩
  have hvalid : ValidIdentities p.requests :=
    ((checkIdentities_iff _).mp ((mapM_check_iff _ _).mp ⟨units, hfirst⟩)).perm hperm
  rw [← sortedRequests_congr sorter h hvalid]
  rcases hrest with hsecond | ⟨units', hsecond, hmodel | ⟨normal, hnormal, hpins⟩⟩
  · exact Or.inl hsecond
  · exact Or.inr ⟨units', hsecond, Or.inl (acceptModel_error_congr sorter h hmodel)⟩
  · obtain ⟨hmodel, rfl⟩ := (acceptModel_eq_ok_iff sorter _ _).mp hnormal
    have hmodel' := validModel_of_presents (presents_of_requests h _) hmodel
    have hnormal' := (acceptModel_eq_ok_iff sorter _ _).mpr ⟨hmodel', rfl⟩
    have hcheck : checkPin p.resources = checkPin q.resources := by
      funext r
      rw [checkPin, checkPin, hmodel.resources.resource_congr h.resources]
    refine Or.inr ⟨units', hsecond, Or.inr ⟨_, hnormal', ?_⟩⟩
    rcases hpins with hpins | ⟨-, -, hpure⟩
    · left
      change (sortedRequests sorter p).mapM (checkPin q.resources) = _
      rw [← hcheck]
      exact hpins
    · contradiction

theorem acceptedCandidates_congr (hvalid : ValidModel sorter p) :
    (acceptedProblem sorter p).candidates = (acceptedProblem sorter q).candidates := by
  have hperm := h.candidates.map_perm fun c hc c' _ hpresents =>
    normalForm_congr h hvalid hc hpresents
  apply sorter.sort_congr_of_byKey candidateKey (candidateLess_normalForms hvalid) hperm
  intro a ha b hb hkey
  obtain ⟨c, hc, rfl⟩ := List.mem_map.mp ha
  obtain ⟨c', hc', rfl⟩ := List.mem_map.mp hb
  have hkeys := key_eq_of_candidateKey_eq hkey
  exact hvalid.normalForm_eq_of_key_eq hc hc' hkeys

theorem compatible_congr (htree : TwoLevel p.resources) :
    compatible p.resources = compatible q.resources := by
  funext a b
  simp only [compatible, htree.overlaps_congr h.resources]

/-- The least blocking reservation does not depend on the order of the array. -/
theorem reservedBy_congr (hvalid : ValidModel sorter p) :
    reservedBy p.resources p.reservations = reservedBy q.resources q.reservations := by
  have hne : ∀ r ∈ p.reservations, r ≠ 0 := by
    intro r hr
    obtain ⟨found, hfound⟩ := Option.isSome_iff_exists.mp (hvalid.known r hr)
    obtain ⟨hmem, rfl⟩ := mem_of_resource hfound
    exact hvalid.resources.nonzero found hmem
  funext c
  have hlowest := lowest_reservedBy hne p.resources c
  have hlowest' := lowest_reservedBy
    (fun r hr => hne r (h.reservations.mem_iff.mpr hr)) q.resources c
  have hset : {r | r ∈ q.reservations ∧ blocks q.resources c r = true} =
      {r | r ∈ p.reservations ∧ blocks p.resources c r = true} := by
    ext r
    simp only [Set.mem_ofPred_eq, blocks, hvalid.resources.overlaps_congr h.resources,
      h.reservations.mem_iff]
  rw [hset] at hlowest'
  exact hlowest.unique hlowest'

/-- Every presentation of a problem, valid or not, leads to the same plan. -/
theorem solve_presentation_independent (search : Search) (budget : UInt32) :
    solve sorter search p budget = solve sorter search q budget := by
  rw [solve_eq, solve_eq, sortedKeys_congr sorter h]
  cases haccept : accept sorter p with
  | error diagnostic => rw [accept_error_congr sorter h haccept]
  | ok normal =>
      obtain ⟨hvalid, rfl⟩ := (accept_eq_ok_iff sorter p normal).mp haccept
      have hvalid' := validProblem_of_presents h hvalid
      rw [(accept_eq_ok_iff sorter q _).mpr ⟨hvalid', rfl⟩]
      have hrequests : (acceptedProblem sorter p).requests = (acceptedProblem sorter q).requests :=
        sortedRequests_congr sorter h hvalid.identities
      have hcandidates := acceptedCandidates_congr sorter h hvalid.model
      have hreserved : reservedBy (acceptedProblem sorter p).resources
          (acceptedProblem sorter p).reservations =
            reservedBy (acceptedProblem sorter q).resources
              (acceptedProblem sorter q).reservations :=
        reservedBy_congr (p := p) (q := q) sorter h hvalid.model
      have hcompatible : compatible (acceptedProblem sorter p).resources =
          compatible (acceptedProblem sorter q).resources :=
        compatible_congr (p := p) (q := q) h hvalid.model.resources
      simp only [allocate, hrequests, hcandidates, hreserved, hcompatible]

end Solve

section Board

/-- The board with its arrays reversed, a slot filled and two ratios reduced. -/
def rearrangedBoard : Problem where
  requests := [boardRequest "fan" "right" 32, boardRequest "fan" "left" 31,
    boardRequest "led" "dim" 33]
  candidates :=
    [{ key := 6, timer := 2, counterBits := 8, configuration := 8, frequency := ⟨3000, 3⟩
       endpoints := [boardEndpoint (boardRequest "led" "dim" 33) 21 ⟨2, 512⟩,
         boardEndpoint (boardRequest "fan" "left" 31) 11 ⟨0, 0⟩, {}, {}]
       count := 1, domain := 41, setting := 1 },
      { key := 5, timer := 1, counterBits := 8, configuration := 7, frequency := ⟨2000, 2⟩
        endpoints := [boardEndpoint (boardRequest "fan" "left" 31) 11 ⟨1, 512⟩,
          boardEndpoint (boardRequest "fan" "right" 32) 12 ⟨2, 1024⟩, {}, {}]
        count := 2 }]
  resources := boardProblem.resources.reverse
  reservations := [34]

theorem presents_rearrangedBoard : Presents boardProblem rearrangedBoard where
  requests := by decide
  candidates := by
    refine ⟨rearrangedBoard.candidates.reverse, ?_, List.reverse_perm _⟩
    refine .cons ?_ (.cons ?_ .nil)
    · constructor
      case frequency => exact Or.inl rfl
      case endpoints =>
        exact ⟨_, List.forall₂_same.mpr fun e _ => ⟨rfl, rfl, rfl, Or.inl rfl⟩, by decide⟩
      all_goals rfl
    · constructor
      case frequency => exact (rescaled_of_scale 3 rfl rfl).1 rfl
      case endpoints =>
        refine ⟨[boardEndpoint (boardRequest "led" "dim" 33) 21 ⟨2, 512⟩], ?_, .refl _⟩
        exact .cons ⟨rfl, rfl, rfl, (rescaled_of_scale 2 rfl rfl).2 rfl⟩ .nil
      all_goals rfl
  resources := (List.reverse_perm _).symm
  reservations := List.Perm.refl _

theorem board_presentation_independent :
    solve insertionSorter backtracking boardProblem 100 =
      solve insertionSorter backtracking rearrangedBoard 100 :=
  solve_presentation_independent insertionSorter presents_rearrangedBoard backtracking 100

end Board

end GrevirPeripherals.PwmPresentation
