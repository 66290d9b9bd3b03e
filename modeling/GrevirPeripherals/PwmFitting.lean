import GrevirPeripherals.PwmAllocator
import GrevirPeripherals.PwmNormalForm

/-!
When a candidate serves an instance, when a reservation blocks it and when two
candidates can be used together, as statements about sets of resources. None of
them depends on how a candidate is written down.
-/

namespace GrevirPeripherals.PwmFitting

open GrevirPeripherals.PwmAllocator
open GrevirPeripherals.PwmModel
open GrevirPeripherals.PwmNormalForm
open GrevirPeripherals.PwmNumeric
open GrevirPeripherals.PwmRequirements
open GrevirPeripherals.PwmResourceTree
open GrevirPeripherals.PwmValidation
open GrevirPeripherals.Strings

def requestsOf (requests : List Request) (instanceName : StringView) : List Request :=
  requests.filter fun r => r.key.instanceName = instanceName

theorem mem_requestsOf (requests : List Request) (instanceName : StringView) (r : Request) :
    r ∈ requestsOf requests instanceName ↔
      r ∈ requests ∧ r.key.instanceName = instanceName := by
  simp [requestsOf]

/-- The timer of a candidate and its mode suit a request. -/
structure Suits (c : Candidate) (r : Request) : Prop where
  frequency : r.config.frequency.Admits c.frequency
  timer : r.config.requiredTimer = 0 ∨ r.config.requiredTimer = c.timer
  counterBits : r.config.counterBitsAtLeast ≤ c.counterBits
  waveform : r.config.waveform = .any ∨ r.config.waveform = c.waveform
  source : r.config.source = .any ∨ r.config.source = c.source

/-- The endpoints of a candidate serve exactly the requests of an instance. -/
structure Fitting (requests : List Request) (instanceName : StringView) (c : Candidate) :
    Prop where
  names : ∀ key, key ∈ c.liveEndpoints.map Endpoint.request ↔
    key ∈ (requestsOf requests instanceName).map Request.key
  endpoints : ∀ e ∈ c.liveEndpoints, ∀ r ∈ requestsOf requests instanceName,
    e.request = r.key → e.pin = r.config.pin ∧ e.step.value ≤ r.config.step.value
  suits : ∀ r ∈ requestsOf requests instanceName, Suits c r
  duties : c.count = 1 ∨ c.independentDuties = true

/-- A candidate drives its timer, and the channels and pins of its endpoints. -/
def Drives (c : Candidate) (x : Nat) : Prop :=
  x = c.timer ∨ ∃ e ∈ c.liveEndpoints, x = e.channel ∨ x = e.pin

/-- What a candidate drives, and its domain if it has one. -/
def Occupies (c : Candidate) (x : Nat) : Prop :=
  Drives c x ∨ (c.domain ≠ 0 ∧ x = c.domain)

/-- A reservation that equals, contains or is contained in something the candidate occupies. -/
def Blocks (resources : List Resource) (c : Candidate) (r : Nat) : Prop :=
  ∃ x, Occupies c x ∧ Related resources r x

/-- Two candidates drive nothing in common, and agree on a domain they share. -/
structure Independent (resources : List Resource) (a b : Candidate) : Prop where
  apart : ∀ x y, Drives a x → Drives b y → ¬Related resources x y
  domain : a.domain ≠ 0 → a.domain = b.domain → a.setting = b.setting

section Meaning

variable {a b : Candidate} (h : SameMeaning a b)

include h

theorem SameMeaning.exists_endpoint {e : Endpoint} (he : e ∈ a.liveEndpoints) :
    ∃ e' ∈ b.liveEndpoints, endpointMeaning e' = endpointMeaning e := by
  have hmem := h.endpoints.mem_iff.mp (List.mem_map_of_mem (f := endpointMeaning) he)
  obtain ⟨e', he', heq⟩ := List.mem_map.mp hmem
  exact ⟨e', he', heq⟩

theorem Drives.congr {x : Nat} (hx : Drives a x) : Drives b x := by
  rcases hx with rfl | ⟨e, he, hx⟩
  · exact Or.inl h.timer
  · obtain ⟨e', he', heq⟩ := SameMeaning.exists_endpoint h he
    simp only [endpointMeaning, Prod.mk.injEq] at heq
    obtain ⟨-, hchannel, hpin, -⟩ := heq
    refine Or.inr ⟨e', he', ?_⟩
    rw [hchannel, hpin]
    exact hx

theorem Occupies.congr {x : Nat} (hx : Occupies a x) : Occupies b x := by
  rcases hx with hdrives | ⟨hdomain, hx⟩
  · exact Or.inl (Drives.congr h hdrives)
  · rw [h.domain] at hdomain hx
    exact Or.inr ⟨hdomain, hx⟩

theorem Blocks.congr {resources : List Resource} {r : Nat} (hblocks : Blocks resources a r) :
    Blocks resources b r := by
  obtain ⟨x, hoccupies, hrelated⟩ := hblocks
  exact ⟨x, Occupies.congr h hoccupies, hrelated⟩

theorem Suits.congr {r : Request} (hsuits : Suits a r) : Suits b r := by
  obtain ⟨⟨hlower, hupper⟩, htimer, hbits, hwaveform, hsource⟩ := hsuits
  rw [h.frequency] at hlower hupper
  rw [h.timer] at htimer
  rw [h.counterBits] at hbits
  rw [h.waveform] at hwaveform
  rw [h.source] at hsource
  exact ⟨⟨hlower, hupper⟩, htimer, hbits, hwaveform, hsource⟩

theorem Fitting.congr {requests : List Request} {instanceName : StringView}
    (hfitting : Fitting requests instanceName a) : Fitting requests instanceName b where
  names key := by
    rw [← hfitting.names key]
    have hrequests : ∀ l : List Endpoint,
        l.map Endpoint.request = (l.map endpointMeaning).map Prod.fst := by
      intro l
      rw [List.map_map]
      rfl
    rw [hrequests, hrequests]
    exact (h.endpoints.symm.map Prod.fst).mem_iff
  endpoints e he r hr hkey := by
    obtain ⟨e', he', heq⟩ := SameMeaning.exists_endpoint h.symm he
    simp only [endpointMeaning, Prod.mk.injEq] at heq
    obtain ⟨hrequest, -, hpin, hstep⟩ := heq
    rw [← hpin, ← hstep]
    exact hfitting.endpoints e' he' r hr (hrequest.trans hkey)
  suits r hr := Suits.congr h (hfitting.suits r hr)
  duties := by
    rw [← h.count, ← h.independentDuties]
    exact hfitting.duties

end Meaning

theorem Independent.congr {resources : List Resource} {a a' b b' : Candidate}
    (ha : SameMeaning a a') (hb : SameMeaning b b') (h : Independent resources a b) :
    Independent resources a' b' where
  apart x y hx hy := h.apart x y (Drives.congr ha.symm hx) (Drives.congr hb.symm hy)
  domain := by
    rw [← ha.domain, ← hb.domain, ← ha.setting, ← hb.setting]
    exact h.domain

theorem Fitting.perm {requests requests' : List Request} (hperm : requests.Perm requests')
    {instanceName : StringView} {c : Candidate} (h : Fitting requests instanceName c) :
    Fitting requests' instanceName c := by
  have hmem : ∀ r, r ∈ requestsOf requests' instanceName ↔ r ∈ requestsOf requests instanceName :=
    fun r => (hperm.filter _).symm.mem_iff
  constructor
  · intro key
    rw [h.names key]
    exact ((hperm.filter _).map _).mem_iff
  · intro e he r hr
    exact h.endpoints e he r ((hmem r).mp hr)
  · intro r hr
    exact h.suits r ((hmem r).mp hr)
  · exact h.duties

/-- The resources of a candidate are where the model check expects them. -/
structure Located (resources : List Resource) (c : Candidate) : Prop where
  timer : HasKind resources c.timer .timer
  domain : c.domain ≠ 0 → HasKind resources c.domain .domain
  channel : ∀ e ∈ c.liveEndpoints, HasKind resources e.channel .channel
  channelOfTimer : ∀ e ∈ c.liveEndpoints, Parent resources e.channel c.timer
  pin : ∀ e ∈ c.liveEndpoints, HasKind resources e.pin .pin

/-- The like-with-like comparison, condition by condition. -/
theorem compatible_iff_overlaps (resources : List Resource) (a b : Candidate) :
    compatible resources a b = true ↔
      ¬overlaps resources a.timer b.timer = true ∧
        (a.domain ≠ 0 → a.domain = b.domain → a.setting = b.setting) ∧
          ∀ x ∈ a.liveEndpoints, ∀ y ∈ b.liveEndpoints,
            ¬overlaps resources x.pin y.pin = true ∧
              ¬overlaps resources x.channel y.channel = true := by
  have hendpoints : (!a.liveEndpoints.any fun x => b.liveEndpoints.any fun y =>
        overlaps resources x.pin y.pin || overlaps resources x.channel y.channel) = true ↔
      ∀ x ∈ a.liveEndpoints, ∀ y ∈ b.liveEndpoints,
        ¬overlaps resources x.pin y.pin = true ∧
          ¬overlaps resources x.channel y.channel = true := by
    simp only [Bool.not_eq_true', List.any_eq_false, Bool.not_eq_true, Bool.or_eq_false_iff]
  rw [compatible, ← hendpoints]
  split_ifs with htimer hdomain
  · simp [htimer]
  · simp only [Bool.and_eq_true, decide_eq_true_eq] at hdomain
    refine iff_of_false (by simp) ?_
    rintro ⟨-, hsame, -⟩
    exact hdomain.2 (hsame hdomain.1.1 hdomain.1.2)
  · simp only [Bool.and_eq_true, decide_eq_true_eq, not_and, not_not] at hdomain
    have hagree : a.domain ≠ 0 → a.domain = b.domain → a.setting = b.setting :=
      fun hne heq => hdomain ⟨hne, heq⟩
    rw [and_iff_right htimer, and_iff_right hagree]

theorem compatible_comm (resources : List Resource) (a b : Candidate) :
    compatible resources a b = compatible resources b a := by
  have hswap : ∀ a b : Candidate, compatible resources a b = true →
      compatible resources b a = true := by
    intro a b h
    rw [compatible_iff_overlaps] at h ⊢
    obtain ⟨htimer, hdomain, hendpoints⟩ := h
    refine ⟨by rwa [overlaps_comm], ?_, ?_⟩
    · intro hne heq
      exact (hdomain (heq ▸ hne) heq.symm).symm
    · intro y hy x hx
      rw [overlaps_comm resources y.pin, overlaps_comm resources y.channel]
      exact hendpoints x hx y hy
  rw [Bool.eq_iff_iff]
  exact ⟨hswap a b, hswap b a⟩

section Tree

variable {resources : List Resource} (htree : TwoLevel resources)

include htree

theorem located_of_valid {requests : List Request} {c : Candidate}
    (h : ValidCandidate resources requests c) : Located resources c where
  timer := h.timer_kind
  domain := h.domain_kind
  channel e he := h.channel_kind he
  channelOfTimer e he := by
    have hcontains := ((htree.descendant_eq_true_iff _ _).mp (h.channel_descendant he)).2
    rcases (htree.contains_iff _ _).mp hcontains with heq | hparent
    · have hkind := htree.kind_unique (heq ▸ h.channel_kind he) h.timer_kind
      contradiction
    · exact hparent
  pin e he := h.pin_kind he

theorem related_kinds {x y : Nat} {kind kind' : Kind} (hx : HasKind resources x kind)
    (hy : HasKind resources y kind') (hrelated : Related resources x y) :
    kind = kind' ∨ (kind = .channel ∧ kind' = .timer ∧ Parent resources x y) ∨
      (kind = .timer ∧ kind' = .channel ∧ Parent resources y x) := by
  rcases htree.related_cases hrelated with rfl | hparent | hparent
  · exact Or.inl (htree.kind_unique hx hy)
  · obtain ⟨hchannel, htimer⟩ := htree.kinds_of_parent hparent
    exact Or.inr (Or.inl ⟨htree.kind_unique hx hchannel, htree.kind_unique hy htimer, hparent⟩)
  · obtain ⟨hchannel, htimer⟩ := htree.kinds_of_parent hparent
    exact Or.inr (Or.inr ⟨htree.kind_unique hx htimer, htree.kind_unique hy hchannel, hparent⟩)

theorem parent_unique {child parent parent' : Nat} (h : Parent resources child parent)
    (h' : Parent resources child parent') : parent = parent' := by
  obtain ⟨r, hr, hid, rfl, -⟩ := h
  obtain ⟨r', hr', hid', rfl, -⟩ := h'
  rw [List.inj_on_of_nodup_map htree.distinct hr hr' (hid.trans hid'.symm)]

theorem overlaps_iff_related {x y : Nat} {kind kind' : Kind} (hx : HasKind resources x kind)
    (hy : HasKind resources y kind') :
    overlaps resources x y = true ↔ Related resources x y := by
  rw [htree.overlaps_eq_true_iff, and_iff_right_iff_imp]
  intro _
  exact ⟨htree.ne_zero_of_hasKind hx, htree.ne_zero_of_hasKind hy⟩

/-- Comparing like with like is enough, since every channel lies below its own timer. -/
theorem compatible_eq_true_iff {a b : Candidate} (ha : Located resources a)
    (hb : Located resources b) :
    compatible resources a b = true ↔ Independent resources a b := by
  have hcompatible : compatible resources a b = true ↔
      ¬Related resources a.timer b.timer ∧
        (a.domain ≠ 0 → a.domain = b.domain → a.setting = b.setting) ∧
          ∀ x ∈ a.liveEndpoints, ∀ y ∈ b.liveEndpoints,
            ¬Related resources x.pin y.pin ∧ ¬Related resources x.channel y.channel := by
    rw [compatible_iff_overlaps, overlaps_iff_related htree ha.timer hb.timer]
    apply and_congr_right'
    apply and_congr_right'
    apply forall₂_congr
    intro x hx
    apply forall₂_congr
    intro y hy
    rw [overlaps_iff_related htree (ha.pin x hx) (hb.pin y hy),
      overlaps_iff_related htree (ha.channel x hx) (hb.channel y hy)]
  rw [hcompatible]
  constructor
  · rintro ⟨htimer, hdomain, hendpoints⟩
    refine ⟨?_, hdomain⟩
    rintro x y (rfl | ⟨e, he, rfl | rfl⟩) (rfl | ⟨e', he', rfl | rfl⟩) hrelated
    · exact htimer hrelated
    · rcases related_kinds htree ha.timer (hb.channel e' he') hrelated with h | h | ⟨-, -, h⟩
      · contradiction
      · simp at h
      · apply htimer
        rw [parent_unique htree h (hb.channelOfTimer e' he')]
        exact Or.inl Relation.ReflTransGen.refl
    · have h := related_kinds htree ha.timer (hb.pin e' he') hrelated
      simp at h
    · rcases related_kinds htree (ha.channel e he) hb.timer hrelated with h | ⟨-, -, h⟩ | h
      · contradiction
      · apply htimer
        rw [parent_unique htree h (ha.channelOfTimer e he)]
        exact Or.inl Relation.ReflTransGen.refl
      · simp at h
    · exact (hendpoints e he e' he').2 hrelated
    · have h := related_kinds htree (ha.channel e he) (hb.pin e' he') hrelated
      simp at h
    · have h := related_kinds htree (ha.pin e he) hb.timer hrelated
      simp at h
    · have h := related_kinds htree (ha.pin e he) (hb.channel e' he') hrelated
      simp at h
    · exact (hendpoints e he e' he').1 hrelated
  · rintro ⟨hapart, hdomain⟩
    refine ⟨hapart _ _ (Or.inl rfl) (Or.inl rfl), hdomain, ?_⟩
    intro x hx y hy
    exact ⟨hapart _ _ (Or.inr ⟨x, hx, Or.inr rfl⟩) (Or.inr ⟨y, hy, Or.inr rfl⟩),
      hapart _ _ (Or.inr ⟨x, hx, Or.inl rfl⟩) (Or.inr ⟨y, hy, Or.inl rfl⟩)⟩

theorem blocks_eq_true_iff {c : Candidate} (hc : Located resources c) {r : Nat} {kind : Kind}
    (hr : HasKind resources r kind) : blocks resources c r = true ↔ Blocks resources c r := by
  have hdomain : overlaps resources r c.domain = true ↔
      c.domain ≠ 0 ∧ Related resources r c.domain := by
    rw [htree.overlaps_eq_true_iff, and_iff_right (htree.ne_zero_of_hasKind hr)]
  simp only [blocks, Bool.or_eq_true, List.any_eq_true, hdomain,
    overlaps_iff_related htree hr hc.timer]
  constructor
  · rintro ((htimer | ⟨hne, hrelated⟩) | ⟨e, he, hpin | hchannel⟩)
    · exact ⟨_, Or.inl (Or.inl rfl), htimer⟩
    · exact ⟨_, Or.inr ⟨hne, rfl⟩, hrelated⟩
    · exact ⟨_, Or.inl (Or.inr ⟨e, he, Or.inr rfl⟩),
        (overlaps_iff_related htree hr (hc.pin e he)).mp hpin⟩
    · exact ⟨_, Or.inl (Or.inr ⟨e, he, Or.inl rfl⟩),
        (overlaps_iff_related htree hr (hc.channel e he)).mp hchannel⟩
  · rintro ⟨x, (rfl | ⟨e, he, rfl | rfl⟩) | ⟨hne, rfl⟩, hrelated⟩
    · exact Or.inl (Or.inl hrelated)
    · exact Or.inr ⟨e, he, Or.inr ((overlaps_iff_related htree hr (hc.channel e he)).mpr hrelated)⟩
    · exact Or.inr ⟨e, he, Or.inl ((overlaps_iff_related htree hr (hc.pin e he)).mpr hrelated)⟩
    · exact Or.inl (Or.inr ⟨hne, hrelated⟩)

end Tree

theorem Located.congr {resources : List Resource} {a b : Candidate} (h : SameMeaning a b)
    (ha : Located resources a) : Located resources b := by
  have hendpoint : ∀ e ∈ b.liveEndpoints, ∃ e' ∈ a.liveEndpoints,
      e'.channel = e.channel ∧ e'.pin = e.pin := by
    intro e he
    obtain ⟨e', he', heq⟩ := SameMeaning.exists_endpoint h.symm he
    simp only [endpointMeaning, Prod.mk.injEq] at heq
    exact ⟨e', he', heq.2.1, heq.2.2.1⟩
  constructor
  · exact h.timer ▸ ha.timer
  · rw [← h.domain]
    exact ha.domain
  · intro e he
    obtain ⟨e', he', hchannel, -⟩ := hendpoint e he
    exact hchannel ▸ ha.channel e' he'
  · intro e he
    obtain ⟨e', he', hchannel, -⟩ := hendpoint e he
    rw [← hchannel, ← h.timer]
    exact ha.channelOfTimer e' he'
  · intro e he
    obtain ⟨e', he', -, hpin⟩ := hendpoint e he
    exact hpin ▸ ha.pin e' he'

end GrevirPeripherals.PwmFitting
