import GrevirPeripherals.PwmCandidateOrder
import GrevirPeripherals.PwmResourceTree

/-!
The normal form that the model check computes. It keeps the meaning of a
candidate, and candidates of the same meaning have the same normal form.
-/

namespace GrevirPeripherals.PwmNormalForm

open GrevirPeripherals.OrderedChecks
open GrevirPeripherals.PwmCandidateOrder
open GrevirPeripherals.PwmModel
open GrevirPeripherals.PwmNumeric
open GrevirPeripherals.PwmRequirements
open GrevirPeripherals.PwmResourceTree
open GrevirPeripherals.PwmValidation
open GrevirPeripherals.StandardSort

/-- What an endpoint says, the step as a number. -/
def endpointMeaning (e : Endpoint) : Key × Nat × Nat × ℚ :=
  (e.request, e.channel, e.pin, e.step.value)

/-- Two candidates that differ at most in the representation of their ratios, the
order of their live endpoints and the content of the other slots. -/
structure SameMeaning (c c' : Candidate) : Prop where
  key : c.key = c'.key
  preference : c.preference = c'.preference
  timer : c.timer = c'.timer
  counterBits : c.counterBits = c'.counterBits
  configuration : c.configuration = c'.configuration
  frequency : c.frequency.value = c'.frequency.value
  waveform : c.waveform = c'.waveform
  source : c.source = c'.source
  endpoints : (c.liveEndpoints.map endpointMeaning).Perm (c'.liveEndpoints.map endpointMeaning)
  count : c.count = c'.count
  domain : c.domain = c'.domain
  setting : c.setting = c'.setting
  independentDuties : c.independentDuties = c'.independentDuties

theorem SameMeaning.symm {a b : Candidate} (h : SameMeaning a b) : SameMeaning b a :=
  ⟨h.key.symm, h.preference.symm, h.timer.symm, h.counterBits.symm, h.configuration.symm,
    h.frequency.symm, h.waveform.symm, h.source.symm, h.endpoints.symm, h.count.symm,
    h.domain.symm, h.setting.symm, h.independentDuties.symm⟩

theorem SameMeaning.trans {a b c : Candidate} (h : SameMeaning a b) (h' : SameMeaning b c) :
    SameMeaning a c :=
  ⟨h.key.trans h'.key, h.preference.trans h'.preference, h.timer.trans h'.timer,
    h.counterBits.trans h'.counterBits, h.configuration.trans h'.configuration,
    h.frequency.trans h'.frequency, h.waveform.trans h'.waveform, h.source.trans h'.source,
    h.endpoints.trans h'.endpoints, h.count.trans h'.count, h.domain.trans h'.domain,
    h.setting.trans h'.setting, h.independentDuties.trans h'.independentDuties⟩

/-- A candidate the model check accepts. -/
structure ValidCandidate (resources : List Resource) (requests : List Request)
    (c : Candidate) : Prop where
  header : validHeader resources c = true
  endpoints : ∀ e ∈ c.liveEndpoints, validEndpoint resources requests c.timer e = true
  distinct : c.liveEndpoints.Pairwise fun x y => sharesMember y x = false

def reduceStep (e : Endpoint) : Endpoint :=
  { e with step := e.step.normalized }

def normalForm (sorter : Sorter) (c : Candidate) : Candidate :=
  { c with
    frequency := c.frequency.normalized
    endpoints := (sorter.sort (byKey Endpoint.request) c.liveEndpoints).map reduceStep
      ++ List.replicate (c.endpoints.length - c.count) {} }

section Check

variable (sorter : Sorter) (resources : List Resource) (requests : List Request)

theorem sharesMember_comm (x y : Endpoint) : sharesMember x y = sharesMember y x := by
  rw [Bool.eq_iff_iff]
  simp only [sharesMember, Bool.or_eq_true, decide_eq_true_eq]
  rw [eq_comm (a := x.request), eq_comm (a := x.channel), eq_comm (a := x.pin)]

theorem normalizeEndpoints_eq_some_iff (timer : Nat) (placed l r : List Endpoint) :
    normalizeEndpoints resources requests timer placed l = some r ↔
      ((∀ e ∈ l, validEndpoint resources requests timer e = true) ∧
        (∀ earlier ∈ placed, ∀ e ∈ l, sharesMember e earlier = false) ∧
          l.Pairwise fun x y => sharesMember y x = false) ∧
        r = placed ++ l.map reduceStep := by
  induction l generalizing placed with
  | nil => simpa [normalizeEndpoints] using eq_comm
  | cons e rest ih =>
      have hshares : placed.any (sharesMember { e with step := e.step.normalized }) = false ↔
          ∀ earlier ∈ placed, sharesMember e earlier = false := by
        rw [List.any_eq_false]
        simp only [Bool.not_eq_true]
        exact Iff.rfl
      rw [normalizeEndpoints, List.pairwise_cons, List.map_cons]
      simp only [List.forall_mem_cons]
      cases hvalid : validEndpoint resources requests timer e with
      | false => simp
      | true =>
          simp only [Bool.not_true, Bool.false_eq_true, if_false]
          cases hany : placed.any (sharesMember { e with step := e.step.normalized }) with
          | true =>
              simp only [if_true, reduceCtorEq, false_iff]
              rintro ⟨⟨-, hplaced, -⟩, -⟩
              have hfalse := hshares.mpr fun earlier hearlier => (hplaced earlier hearlier).1
              rw [hany] at hfalse
              contradiction
          | false =>
              have hplaced := hshares.mp hany
              simp only [Bool.false_eq_true, if_false]
              rw [ih, List.append_assoc]
              simp only [List.mem_append, List.mem_singleton, or_imp, forall_and, forall_eq]
              constructor
              · rintro ⟨⟨hrest, ⟨hearlier, hhere⟩, hpairwise⟩, hr⟩
                exact ⟨⟨⟨trivial, hrest⟩, ⟨hplaced, hearlier⟩, hhere, hpairwise⟩, hr⟩
              · rintro ⟨⟨⟨-, hrest⟩, ⟨-, hearlier⟩, hhere, hpairwise⟩, hr⟩
                exact ⟨⟨hrest, ⟨hearlier, hhere⟩, hpairwise⟩, hr⟩

theorem normalizeCandidate_eq_some_iff (c c' : Candidate) :
    normalizeCandidate sorter resources requests c = some c' ↔
      ValidCandidate resources requests c ∧ c' = normalForm sorter c := by
  have hperm := sorter.perm_byKey Endpoint.request c.liveEndpoints
  have hpairwise : (sorter.sort (byKey Endpoint.request) c.liveEndpoints).Pairwise
        (fun x y => sharesMember y x = false) ↔
      c.liveEndpoints.Pairwise fun x y => sharesMember y x = false := by
    apply hperm.pairwise_iff
    intro x y h
    rw [sharesMember_comm]
    exact h
  have hiff := normalizeEndpoints_eq_some_iff resources requests c.timer []
    (sorter.sort (byKey Endpoint.request) c.liveEndpoints)
  simp only [hperm.mem_iff, hpairwise, List.not_mem_nil, false_imp_iff, implies_true, true_and,
    List.nil_append] at hiff
  rw [normalizeCandidate]
  cases hheader : validHeader resources c with
  | false =>
      simp only [Bool.not_false, if_true, reduceCtorEq, false_iff]
      rintro ⟨hvalid, -⟩
      rw [hvalid.header] at hheader
      contradiction
  | true =>
      simp only [Bool.not_true, Bool.false_eq_true, if_false]
      cases hendpoints : normalizeEndpoints resources requests c.timer []
          (sorter.sort (byKey Endpoint.request) c.liveEndpoints) with
      | none =>
          simp only [reduceCtorEq, false_iff]
          rintro ⟨hvalid, -⟩
          have hsome := (hiff _).mpr ⟨⟨hvalid.endpoints, hvalid.distinct⟩, rfl⟩
          rw [hendpoints] at hsome
          contradiction
      | some endpoints =>
          obtain ⟨⟨hall, hdistinct⟩, rfl⟩ := (hiff endpoints).mp hendpoints
          simp only [Option.some.injEq]
          constructor
          · rintro rfl
            exact ⟨⟨hheader, hall, hdistinct⟩, rfl⟩
          · rintro ⟨-, rfl⟩
            rfl

end Check

theorem validHeader_eq_true_iff (resources : List Resource) (c : Candidate) :
    validHeader resources c = true ↔
      (c.key ≠ 0 ∧ c.configuration ≠ 0 ∧ isKind resources c.timer .timer = true ∧
        c.counterBits ≠ 0 ∧ c.frequency.positive = true ∧ c.count ≠ 0 ∧
          c.count ≤ c.endpoints.length) ∧
        (c.domain ≠ 0 → isKind resources c.domain .domain = true ∧ c.setting ≠ 0) ∧
          (c.domain = 0 → c.setting = 0) := by
  by_cases hdomain : c.domain = 0
  · simp [validHeader, hdomain, and_assoc]
  · simp [validHeader, hdomain, and_assoc]

theorem validEndpoint_eq_true_iff (resources : List Resource) (requests : List Request)
    (timer : Nat) (e : Endpoint) :
    validEndpoint resources requests timer e = true ↔
      isKind resources e.channel .channel = true ∧ isKind resources e.pin .pin = true ∧
        descendant resources e.channel timer = true ∧ e.step.valid = true ∧
          atMost e.step ⟨1, 1⟩ = true ∧ ∃ request ∈ requests, request.key = e.request := by
  simp [validEndpoint, and_assoc]

theorem sharesMember_eq_false_iff (e earlier : Endpoint) :
    sharesMember e earlier = false ↔
      e.request ≠ earlier.request ∧ e.channel ≠ earlier.channel ∧ e.pin ≠ earlier.pin := by
  simp [sharesMember, and_assoc]

namespace ValidCandidate

variable {resources : List Resource} {requests : List Request} {c : Candidate}
  (h : ValidCandidate resources requests c)

include h

theorem key_ne_zero : c.key ≠ 0 :=
  ((validHeader_eq_true_iff resources c).mp h.header).1.1

theorem timer_kind : HasKind resources c.timer .timer :=
  hasKind_of_isKind ((validHeader_eq_true_iff resources c).mp h.header).1.2.2.1

theorem frequency_positive : c.frequency.positive = true :=
  ((validHeader_eq_true_iff resources c).mp h.header).1.2.2.2.2.1

theorem count_le : c.count ≤ c.endpoints.length :=
  ((validHeader_eq_true_iff resources c).mp h.header).1.2.2.2.2.2.2

theorem domain_kind (hdomain : c.domain ≠ 0) : HasKind resources c.domain .domain :=
  hasKind_of_isKind (((validHeader_eq_true_iff resources c).mp h.header).2.1 hdomain).1

theorem channel_kind {e : Endpoint} (he : e ∈ c.liveEndpoints) :
    HasKind resources e.channel .channel :=
  hasKind_of_isKind ((validEndpoint_eq_true_iff _ _ _ _).mp (h.endpoints e he)).1

theorem pin_kind {e : Endpoint} (he : e ∈ c.liveEndpoints) : HasKind resources e.pin .pin :=
  hasKind_of_isKind ((validEndpoint_eq_true_iff _ _ _ _).mp (h.endpoints e he)).2.1

theorem channel_descendant {e : Endpoint} (he : e ∈ c.liveEndpoints) :
    descendant resources e.channel c.timer = true :=
  ((validEndpoint_eq_true_iff _ _ _ _).mp (h.endpoints e he)).2.2.1

theorem step_valid {e : Endpoint} (he : e ∈ c.liveEndpoints) : e.step.valid = true :=
  ((validEndpoint_eq_true_iff _ _ _ _).mp (h.endpoints e he)).2.2.2.1

theorem step_positive {e : Endpoint} (he : e ∈ c.liveEndpoints) : e.step.positive = true :=
  Ratio.positive_of_valid (h.step_valid he)

theorem requests_nodup : (c.liveEndpoints.map Endpoint.request).Nodup := by
  apply List.pairwise_map.mpr
  apply h.distinct.imp
  intro x y hxy
  exact ((sharesMember_eq_false_iff y x).mp hxy).1.symm

theorem eq_of_request_eq {x y : Endpoint} (hx : x ∈ c.liveEndpoints) (hy : y ∈ c.liveEndpoints)
    (hrequest : x.request = y.request) : x = y :=
  List.inj_on_of_nodup_map h.requests_nodup hx hy hrequest

end ValidCandidate

section NormalForm

variable (sorter : Sorter)

/-- The live endpoints of a candidate in ascending order of their requests. -/
def sortedEndpoints (c : Candidate) : List Endpoint :=
  sorter.sort (byKey Endpoint.request) c.liveEndpoints

theorem sortedEndpoints_perm (c : Candidate) :
    (sortedEndpoints sorter c).Perm c.liveEndpoints :=
  sorter.perm_byKey _ _

theorem liveEndpoints_normalForm {c : Candidate} (hcount : c.count ≤ c.endpoints.length) :
    (normalForm sorter c).liveEndpoints = (sortedEndpoints sorter c).map reduceStep := by
  have hlength : ((sortedEndpoints sorter c).map reduceStep).length = c.count := by
    rw [List.length_map, (sortedEndpoints_perm sorter c).length_eq, length_liveEndpoints hcount]
  exact List.take_left' hlength

variable {resources : List Resource} {requests : List Request}

theorem sameMeaning_normalForm {c : Candidate} (h : ValidCandidate resources requests c) :
    SameMeaning c (normalForm sorter c) := by
  have hmeaning : ((sortedEndpoints sorter c).map reduceStep).map endpointMeaning =
      (sortedEndpoints sorter c).map endpointMeaning := by
    rw [List.map_map]
    apply List.map_congr_left
    intro e he
    have hstep := h.step_positive ((sortedEndpoints_perm sorter c).mem_iff.mp he)
    simp [endpointMeaning, reduceStep, Ratio.value_normalized hstep]
  constructor
  case frequency => exact (Ratio.value_normalized h.frequency_positive).symm
  case endpoints =>
    rw [liveEndpoints_normalForm sorter h.count_le, hmeaning]
    exact ((sortedEndpoints_perm sorter c).map endpointMeaning).symm
  all_goals rfl

/-- The array is sorted and reduced in the only way its meaning allows. -/
theorem map_reduceStep_eq {a b : Candidate} (ha : ValidCandidate resources requests a)
    {resources' : List Resource} {requests' : List Request}
    (hb : ValidCandidate resources' requests' b)
    (h : (a.liveEndpoints.map endpointMeaning).Perm (b.liveEndpoints.map endpointMeaning)) :
    (sortedEndpoints sorter a).map reduceStep = (sortedEndpoints sorter b).map reduceStep := by
  have hperm := sortedEndpoints_perm sorter a
  have hperm' := sortedEndpoints_perm sorter b
  have hmeanings : (sortedEndpoints sorter a).map endpointMeaning =
      (sortedEndpoints sorter b).map endpointMeaning := by
    have hascending : ∀ c : Candidate, ((sortedEndpoints sorter c).map endpointMeaning).Pairwise
        fun x y => x.1 ≤ y.1 :=
      fun c => List.pairwise_map.mpr (sorter.ascending_byKey _ _)
    apply eq_of_perm_of_ascending ((hperm.map _).trans (h.trans (hperm'.map _).symm))
      (hascending a) (hascending b)
    intro x hx y hy hxy
    obtain ⟨e, he, rfl⟩ := List.mem_map.mp hx
    obtain ⟨e', he', rfl⟩ := List.mem_map.mp hy
    rw [ha.eq_of_request_eq (hperm.mem_iff.mp he) (hperm.mem_iff.mp he') hxy]
  apply List.ext_getElem
  · simpa using congrArg List.length hmeanings
  · intro i hi hi'
    rw [List.length_map] at hi hi'
    have hmeaning := List.getElem_of_eq hmeanings (by simpa using hi)
    rw [List.getElem_map, List.getElem_map] at hmeaning ⊢
    simp only [endpointMeaning, Prod.mk.injEq] at hmeaning
    obtain ⟨hrequest, hchannel, hpin, hstep⟩ := hmeaning
    have hstep' := (Ratio.normalized_eq_iff
      (ha.step_positive (hperm.mem_iff.mp (List.getElem_mem hi)))
      (hb.step_positive (hperm'.mem_iff.mp (List.getElem_mem hi')))).mpr hstep
    simp [reduceStep, hrequest, hchannel, hpin, hstep']

theorem normalForm_eq_of_sameMeaning {a b : Candidate}
    (ha : ValidCandidate resources requests a) {resources' : List Resource}
    {requests' : List Request} (hb : ValidCandidate resources' requests' b)
    (hsize : a.endpoints.length = b.endpoints.length) (h : SameMeaning a b) :
    normalForm sorter a = normalForm sorter b := by
  have hfrequency := (Ratio.normalized_eq_iff ha.frequency_positive hb.frequency_positive).mpr
    h.frequency
  have hendpoints := map_reduceStep_eq sorter ha hb h.endpoints
  simp only [sortedEndpoints] at hendpoints
  simp only [normalForm, hfrequency, hendpoints, hsize, h.key, h.preference, h.timer,
    h.counterBits, h.configuration, h.waveform, h.source, h.count, h.domain, h.setting,
    h.independentDuties]

theorem sameMeaning_of_normalForm_eq {a b : Candidate}
    (ha : ValidCandidate resources requests a) (hb : ValidCandidate resources requests b)
    (h : normalForm sorter a = normalForm sorter b) : SameMeaning a b := by
  have hmeaning := sameMeaning_normalForm sorter ha
  rw [h] at hmeaning
  exact hmeaning.trans (sameMeaning_normalForm sorter hb).symm

end NormalForm

section Model

variable (sorter : Sorter)

/-- A model that passes the check. -/
structure ValidModel (p : Problem) : Prop where
  resources : TwoLevel p.resources
  known : ∀ r ∈ p.reservations, (resource p.resources r).isSome = true
  apart : p.reservations.Pairwise fun a b => overlaps p.resources b a = false
  candidates : ∀ c ∈ p.candidates, ValidCandidate p.resources p.requests c
  consistent : ∀ a ∈ p.candidates, ∀ b ∈ p.candidates,
    consistent (normalForm sorter a) (normalForm sorter b) = true

/-- Two candidates with one key have one normal form. -/
theorem ValidModel.normalForm_eq_of_key_eq {sorter : Sorter} {p : Problem}
    (h : ValidModel sorter p) {a b : Candidate} (ha : a ∈ p.candidates) (hb : b ∈ p.candidates)
    (hkey : a.key = b.key) :
    normalForm sorter a = normalForm sorter b := by
  have hconsistent := h.consistent a ha b hb
  simp only [PwmValidation.consistent, Bool.and_eq_true, Bool.not_eq_true',
    Bool.and_eq_false_imp, decide_eq_true_eq, decide_eq_false_iff_not, not_not] at hconsistent
  exact hconsistent.1 hkey

/-- The model the check leaves behind. -/
def normalModel (p : Problem) : Problem :=
  { p with candidates := sorter.sort candidateLess (p.candidates.map (normalForm sorter)) }

theorem normalizeModel_eq_some_iff (p p' : Problem) :
    normalizeModel sorter p = some p' ↔ ValidModel sorter p ∧ p' = normalModel sorter p := by
  have hcandidates := mapM_eq_some_iff
    (normalizeCandidate_eq_some_iff sorter p.resources p.requests) p.candidates
  have hreservations : validReservations p.resources p.reservations = true ↔
      (∀ r ∈ p.reservations, (resource p.resources r).isSome = true) ∧
        p.reservations.Pairwise fun a b => overlaps p.resources b a = false := by
    simp [validReservations, checkEach_iff]
  have hconsistent : (p.candidates.map (normalForm sorter)).all (fun a =>
        (p.candidates.map (normalForm sorter)).all (consistent a)) = true ↔
      ∀ a ∈ p.candidates, ∀ b ∈ p.candidates,
        consistent (normalForm sorter a) (normalForm sorter b) = true := by
    simp
  rw [normalizeModel]
  constructor
  · intro h
    split_ifs at h with hresources hreserved
    cases hmap : p.candidates.mapM (normalizeCandidate sorter p.resources p.requests) with
    | none => simp [hmap] at h
    | some candidates =>
        obtain ⟨hvalid, rfl⟩ := (hcandidates candidates).mp hmap
        simp only [hmap] at h
        split_ifs at h with hchecked
        rw [Bool.not_eq_true, Bool.not_eq_false'] at hresources hreserved hchecked
        obtain ⟨hknown, hapart⟩ := hreservations.mp hreserved
        exact ⟨⟨twoLevel_iff.mp hresources, hknown, hapart, hvalid, hconsistent.mp hchecked⟩,
          (Option.some.inj h).symm⟩
  · rintro ⟨hvalid, rfl⟩
    have hmap := (hcandidates _).mpr ⟨hvalid.candidates, rfl⟩
    simp only [hmap, twoLevel_iff.mpr hvalid.resources,
      hreservations.mpr ⟨hvalid.known, hvalid.apart⟩, hconsistent.mpr hvalid.consistent,
      Bool.not_true, Bool.false_eq_true, if_false]
    rfl

/-- Where the check fails, the model is not valid. -/
theorem normalizeModel_eq_none_iff (p : Problem) :
    normalizeModel sorter p = none ↔ ¬ValidModel sorter p := by
  rw [Option.eq_none_iff_forall_ne_some]
  constructor
  · intro h hvalid
    exact h _ ((normalizeModel_eq_some_iff sorter p _).mpr ⟨hvalid, rfl⟩)
  · intro h p' hsome
    exact h ((normalizeModel_eq_some_iff sorter p p').mp hsome).1

end Model

end GrevirPeripherals.PwmNormalForm
