import GrevirPeripherals.PwmVerdict

/-!
Relaxing a PWM problem: weaker requirements, fewer instances and reservations, better
candidates and a larger board. A problem that was solved is not refused afterwards.
-/

namespace GrevirPeripherals.PwmRelaxation

open GrevirPeripherals.AllocationSearch
open GrevirPeripherals.ChoiceProblems
open GrevirPeripherals.ChoiceProblems.ChoiceProblem
open GrevirPeripherals.PwmAllocation
open GrevirPeripherals.PwmAllocator
open GrevirPeripherals.PwmEligibility
open GrevirPeripherals.PwmFitting
open GrevirPeripherals.PwmFrequencyWindow
open GrevirPeripherals.PwmModel
open GrevirPeripherals.PwmNormalForm
open GrevirPeripherals.PwmNumeric
open GrevirPeripherals.PwmRequirements
open GrevirPeripherals.PwmResourceTree
open GrevirPeripherals.PwmSolution
open GrevirPeripherals.PwmSoundness
open GrevirPeripherals.PwmValidation
open GrevirPeripherals.PwmVerdict
open GrevirPeripherals.StandardSort
open GrevirPeripherals.Strings

section Relations

/-- `b` asks for no more than `a`. -/
structure Loosens (a b : Config) : Prop where
  lower : b.frequency.lower.value ≤ a.frequency.lower.value
  upper : a.frequency.upper.value ≤ b.frequency.upper.value
  step : a.step.value ≤ b.step.value
  pin : b.pin = a.pin
  counterBits : b.counterBitsAtLeast ≤ a.counterBitsAtLeast
  timer : b.requiredTimer = 0 ∨ b.requiredTimer = a.requiredTimer
  waveform : b.waveform = .any ∨ b.waveform = a.waveform
  source : b.source = .any ∨ b.source = a.source

/-- An endpoint at the same place for the same request, with a step at least as fine. -/
@[mk_iff]
structure Refines (e e' : Endpoint) : Prop where
  request : e'.request = e.request
  channel : e'.channel = e.channel
  pin : e'.pin = e.pin
  step : e'.step.value ≤ e.step.value

/-- `c'` does what `c` does, with no more resources. -/
structure Improves (c c' : Candidate) : Prop where
  timer : c'.timer = c.timer
  counterBits : c.counterBits ≤ c'.counterBits
  frequency : c'.frequency.value = c.frequency.value
  waveform : c'.waveform = c.waveform
  source : c'.source = c.source
  refined : ∀ e' ∈ c'.liveEndpoints, ∃ e ∈ c.liveEndpoints, Refines e e'
  served : ∀ e ∈ c.liveEndpoints, ∃ e' ∈ c'.liveEndpoints, e'.request = e.request
  duties : c.count = 1 ∨ c.independentDuties = true →
    c'.count = 1 ∨ c'.independentDuties = true
  domain : c'.domain = 0 ∨ c'.domain = c.domain ∧ c'.setting = c.setting

/-- `p'` is a relaxation of `p`. An instance goes with all of its requests, and the board
may grow around the resources that it had. -/
structure Relaxes (p p' : Problem) : Prop where
  loosened : ∀ r' ∈ p'.requests, ∃ r ∈ p.requests, r'.key = r.key ∧ Loosens r.config r'.config
  whole : ∀ r' ∈ p'.requests, ∀ r ∈ p.requests, r.key.instanceName = r'.key.instanceName →
    r.key ∈ p'.requests.map Request.key
  candidates : ∀ r' ∈ p'.requests, ∀ c ∈ p.candidates,
    r'.key ∈ c.liveEndpoints.map Endpoint.request → ∃ c' ∈ p'.candidates, Improves c c'
  resources : p.resources ⊆ p'.resources
  reservations : p'.reservations ⊆ p.reservations

end Relations

section Fitting

variable {p p' : Problem} {c c' : Candidate}

theorem Suits.of_loosens {r r' : Request} (hloosens : Loosens r.config r'.config)
    (himproves : Improves c c') (h : Suits c r) : Suits c' r' := by
  obtain ⟨⟨hlower, hupper⟩, htimer, hbits, hwaveform, hsource⟩ := h
  constructor
  case frequency =>
    rw [FrequencyWindow.Admits, himproves.frequency]
    exact ⟨hloosens.lower.trans hlower, hupper.trans hloosens.upper⟩
  case timer =>
    rw [himproves.timer]
    rcases hloosens.timer with hnone | hsame
    · exact Or.inl hnone
    · rwa [hsame]
  case counterBits => exact hloosens.counterBits.trans (hbits.trans himproves.counterBits)
  case waveform =>
    rw [himproves.waveform]
    rcases hloosens.waveform with hany | hsame
    · exact Or.inl hany
    · rwa [hsame]
  case source =>
    rw [himproves.source]
    rcases hloosens.source with hany | hsame
    · exact Or.inl hany
    · rwa [hsame]

theorem Improves.names_iff (himproves : Improves c c') (key : Key) :
    key ∈ c'.liveEndpoints.map Endpoint.request ↔ key ∈ c.liveEndpoints.map Endpoint.request := by
  simp only [List.mem_map]
  constructor
  · rintro ⟨e', he', rfl⟩
    obtain ⟨e, he, hrefines⟩ := himproves.refined e' he'
    exact ⟨e, he, hrefines.request.symm⟩
  · rintro ⟨e, he, rfl⟩
    obtain ⟨e', he', hrequest⟩ := himproves.served e he
    exact ⟨e', he', hrequest⟩

/-- The instances that stay keep the names of their requests. -/
theorem Relaxes.names_iff (h : Relaxes p p') {r' : Request} (hr' : r' ∈ p'.requests) (key : Key) :
    key ∈ (requestsOf p'.requests r'.key.instanceName).map Request.key ↔
      key ∈ (requestsOf p.requests r'.key.instanceName).map Request.key := by
  simp only [List.mem_map, mem_requestsOf]
  constructor
  · rintro ⟨s', ⟨hs', hinstance⟩, rfl⟩
    obtain ⟨s, hs, hkey, -⟩ := h.loosened s' hs'
    exact ⟨s, ⟨hs, hkey ▸ hinstance⟩, hkey.symm⟩
  · rintro ⟨s, ⟨hs, hinstance⟩, rfl⟩
    obtain ⟨s', hs', hkey⟩ := List.mem_map.mp (h.whole r' hr' s hs hinstance)
    exact ⟨s', ⟨hs', hkey ▸ hinstance⟩, hkey⟩

theorem Fitting.of_relaxes (h : Relaxes p p') {r' : Request} (hr' : r' ∈ p'.requests)
    (himproves : Improves c c') (hfitting : Fitting p.requests r'.key.instanceName c) :
    Fitting p'.requests r'.key.instanceName c' := by
  have hrequest : ∀ s' ∈ requestsOf p'.requests r'.key.instanceName,
      ∃ s ∈ requestsOf p.requests r'.key.instanceName,
        s'.key = s.key ∧ Loosens s.config s'.config := by
    intro s' hs'
    obtain ⟨hs', hinstance⟩ := (mem_requestsOf _ _ _).mp hs'
    obtain ⟨s, hs, hkey, hloosens⟩ := h.loosened s' hs'
    exact ⟨s, (mem_requestsOf _ _ _).mpr ⟨hs, hkey ▸ hinstance⟩, hkey, hloosens⟩
  constructor
  case names =>
    intro key
    rw [himproves.names_iff, h.names_iff hr', hfitting.names]
  case endpoints =>
    intro e' he' s' hs' hkey
    obtain ⟨e, he, hrefines⟩ := himproves.refined e' he'
    obtain ⟨s, hs, hsame, hloosens⟩ := hrequest s' hs'
    have hkey' : e.request = s.key := by
      rw [← hrefines.request, hkey, hsame]
    obtain ⟨hpin, hstep⟩ := hfitting.endpoints e he s hs hkey'
    rw [hrefines.pin, hloosens.pin]
    exact ⟨hpin, hrefines.step.trans (hstep.trans hloosens.step)⟩
  case suits =>
    intro s' hs'
    obtain ⟨s, hs, -, hloosens⟩ := hrequest s' hs'
    exact Suits.of_loosens hloosens himproves (hfitting.suits s hs)
  case duties => exact himproves.duties hfitting.duties

end Fitting

section Occupation

variable {c c' : Candidate}

theorem Drives.of_improves (h : Improves c c') {x : Nat} (hx : Drives c' x) : Drives c x := by
  rcases hx with rfl | ⟨e', he', hx⟩
  · exact Or.inl h.timer
  · obtain ⟨e, he, hrefines⟩ := h.refined e' he'
    rw [hrefines.channel, hrefines.pin] at hx
    exact Or.inr ⟨e, he, hx⟩

theorem Occupies.of_improves (h : Improves c c') {x : Nat} (hx : Occupies c' x) :
    Occupies c x := by
  rcases hx with hdrives | ⟨hne, rfl⟩
  · exact Or.inl (Drives.of_improves h hdrives)
  · obtain ⟨hsame, -⟩ := h.domain.resolve_left hne
    rw [hsame] at hne ⊢
    exact Or.inr ⟨hne, rfl⟩

/-- The resource is one of the board. -/
def Known (resources : List Resource) (x : Nat) : Prop :=
  ∃ r ∈ resources, r.id = x

theorem known_of_hasKind {resources : List Resource} {x : Nat} {kind : Kind}
    (h : HasKind resources x kind) : Known resources x := by
  obtain ⟨r, hr, hid, -⟩ := h
  exact ⟨r, hr, hid⟩

theorem known_of_occupies {resources : List Resource} (h : Located resources c)
    {x : Nat} (hx : Occupies c x) : Known resources x := by
  rcases hx with (rfl | ⟨e, he, rfl | rfl⟩) | ⟨hne, rfl⟩
  · exact known_of_hasKind h.timer
  · exact known_of_hasKind (h.channel e he)
  · exact known_of_hasKind (h.pin e he)
  · exact known_of_hasKind (h.domain hne)

section Board

variable {resources resources' : List Resource} (htree : TwoLevel resources')
  (hsubset : resources ⊆ resources')

include htree hsubset

/-- The larger board gives no new parent to what the smaller one had. -/
theorem parent_of_subset {x y : Nat} (hx : Known resources x) (h : Parent resources' x y) :
    Parent resources x y := by
  obtain ⟨r, hr, hid, hparent⟩ := h
  obtain ⟨q, hq, hid'⟩ := hx
  obtain rfl := List.inj_on_of_nodup_map htree.distinct hr (hsubset hq) (hid.trans hid'.symm)
  exact ⟨r, hq, hid, hparent⟩

theorem related_of_subset {x y : Nat} (hx : Known resources x) (hy : Known resources y)
    (h : Related resources' x y) : Related resources x y := by
  rcases htree.related_cases h with rfl | hparent | hparent
  · exact Or.inl Relation.ReflTransGen.refl
  · exact Or.inr (Relation.ReflTransGen.single (parent_of_subset htree hsubset hx hparent))
  · exact Or.inl (Relation.ReflTransGen.single (parent_of_subset htree hsubset hy hparent))

end Board

end Occupation

section Solve

variable {sorter sorter' : Sorter} {p p' : Problem}

theorem unreserved_of_relaxes (h : Relaxes p p') (hmodel : ValidModel sorter p)
    (htree : TwoLevel p'.resources) {c c' : Candidate} (hc : Located p.resources c)
    (himproves : Improves c c') (hunreserved : Unreserved p c) : Unreserved p' c' := by
  rintro r hr ⟨x, hx, hrelated⟩
  have hreserved := h.reservations hr
  have hx := Occupies.of_improves himproves hx
  obtain ⟨q, hq⟩ := Option.isSome_iff_exists.mp (hmodel.known r hreserved)
  obtain ⟨hq, hid⟩ := mem_of_resource hq
  exact hunreserved r hreserved
    ⟨x, hx, related_of_subset htree h.resources ⟨q, hq, hid⟩ (known_of_occupies hc hx)
      hrelated⟩

theorem independent_of_relaxes (h : Relaxes p p') (htree : TwoLevel p'.resources)
    {a a' b b' : Candidate} (ha : Located p.resources a) (hb : Located p.resources b)
    (himproves : Improves a a') (himproves' : Improves b b')
    (hindependent : Independent p.resources a b) : Independent p'.resources a' b' := by
  constructor
  · intro x y hx hy hrelated
    have hx := Drives.of_improves himproves hx
    have hy := Drives.of_improves himproves' hy
    exact hindependent.apart x y hx hy <|
      related_of_subset htree h.resources (known_of_occupies ha (Or.inl hx))
        (known_of_occupies hb (Or.inl hy)) hrelated
  · intro hne hsame
    obtain ⟨hdomain, hsetting⟩ := himproves.domain.resolve_left hne
    obtain ⟨hdomain', hsetting'⟩ := himproves'.domain.resolve_left (hsame ▸ hne)
    rw [hsetting, hsetting']
    apply hindependent.domain
    · rwa [← hdomain]
    · rw [← hdomain, hsame, hdomain']

/-- A relaxation leaves every instance with the choice that it had, and more. -/
theorem eases_of_relaxes (h : Relaxes p p') (hmodel : ValidModel sorter p)
    (htree : TwoLevel p'.resources) :
    Eases Improves (choiceProblem p) (choiceProblem p') := by
  have hlocated : ∀ c ∈ p.candidates, Located p.resources c :=
    fun c hc => located_of_valid hmodel.resources (hmodel.candidates c hc)
  constructor
  case users =>
    rintro _ ⟨r', hr', rfl⟩
    obtain ⟨r, hr, hkey, -⟩ := h.loosened r' hr'
    exact ⟨r, hr, congrArg Key.instanceName hkey.symm⟩
  case admits =>
    rintro _ ⟨r', hr', rfl⟩ c ⟨hc, hfitting, hunreserved⟩
    have hkey : r'.key ∈ c.liveEndpoints.map Endpoint.request := by
      rw [hfitting.names, ← h.names_iff hr']
      exact List.mem_map_of_mem ((mem_requestsOf _ _ _).mpr ⟨hr', rfl⟩)
    obtain ⟨c', hc', himproves⟩ := h.candidates r' hr' c hc hkey
    exact ⟨c', himproves, hc', Fitting.of_relaxes h hr' himproves hfitting,
      unreserved_of_relaxes h hmodel htree (hlocated c hc) himproves hunreserved⟩
  case compatible =>
    rintro i - j - - a b a' b' ⟨ha, -, -⟩ ⟨hb, -, -⟩ himproves himproves' hindependent
    exact independent_of_relaxes h htree (hlocated a ha) (hlocated b hb) himproves himproves'
      hindependent

/-- What was solved is not refused after a relaxation, and unless it runs out of its budget
the allocator solves every relaxation that passes the checks. -/
theorem allocates_of_relaxes (h : Relaxes p p') (search search' : Search) (budget budget' : UInt32)
    (hok : (solve sorter search p budget).ok = true) :
    verdict (solve sorter' search' p' budget').diagnostic.status ≠ .refused ∧
      (ValidProblem sorter' p' → (solve sorter' search' p' budget').ok = true ∨
        (solve sorter' search' p' budget').diagnostic.status = .exhausted) := by
  obtain ⟨hvalid, -, choice, hallocation, -⟩ := exists_allocation_of_ok sorter search hok
  have hsolvable : (choiceProblem p).Solvable :=
    ⟨choice, (solves_iff_allocation p choice).mpr hallocation⟩
  have heases : ValidProblem sorter' p' → Eases Improves (choiceProblem p) (choiceProblem p') :=
    fun hvalid' => eases_of_relaxes h hvalid.model hvalid'.model.resources
  constructor
  · by_cases hvalid' : ValidProblem sorter' p'
    · exact (solve_exact sorter' search' p' budget').not_refused hsolvable (heases hvalid')
    · rw [undecided_of_invalid sorter' search' p' budget' hvalid']
      decide
  · intro hvalid'
    exact (verdict_of_valid sorter' search' p' budget' hvalid').of_solvable
      (hsolvable.of_eases (heases hvalid'))

end Solve

section Board

def looserRequest : Request where
  key := { instanceName := text "fan", localName := text "left" }
  config :=
    { frequency := { lower := ⟨900000000, 1⟩, upper := ⟨1100000000, 1⟩, specified := true }
      step := ⟨1, 128⟩
      pin := 31 }

/-- The board without its light, with a finer candidate and one more timer. -/
def relaxedBoard : Problem where
  requests := [looserRequest, boardRequest "fan" "right" 32]
  candidates :=
    [{ key := 9, timer := 1, counterBits := 16, configuration := 7, frequency := ⟨1000, 1⟩
       endpoints := [boardEndpoint looserRequest 11 ⟨1, 1024⟩,
         boardEndpoint (boardRequest "fan" "right" 32) 12 ⟨1, 1024⟩, {}, {}]
       count := 2 }]
  resources := boardProblem.resources ++ [⟨3, 0, .timer⟩]
  reservations := []

theorem loosens_rfl (config : Config) : Loosens config config where
  lower := le_rfl
  upper := le_rfl
  step := le_rfl
  pin := rfl
  counterBits := le_rfl
  timer := Or.inr rfl
  waveform := Or.inr rfl
  source := Or.inr rfl

theorem relaxes_relaxedBoard : Relaxes boardProblem relaxedBoard where
  loosened := by
    have hleft : Loosens (boardRequest "fan" "left" 31).config looserRequest.config := by
      constructor <;> simp [looserRequest, boardRequest, FrequencyBound.value, Ratio.value]
      all_goals norm_num
    intro r' hr'
    simp only [relaxedBoard, List.mem_cons, List.not_mem_nil, or_false] at hr'
    rcases hr' with rfl | rfl
    · exact ⟨boardRequest "fan" "left" 31, by simp [boardProblem], rfl, hleft⟩
    · exact ⟨boardRequest "fan" "right" 32, by simp [boardProblem], rfl, loosens_rfl _⟩
  whole := by decide
  candidates := by
    intro r' hr' c hc hkey
    simp only [boardProblem, List.mem_cons, List.not_mem_nil, or_false] at hc
    rcases hc with rfl | rfl
    · refine ⟨_, List.mem_cons_self, ?_⟩
      constructor <;>
        simp [Candidate.liveEndpoints, boardEndpoint, Ratio.value, refines_iff, boardRequest,
          looserRequest]
      all_goals norm_num
    · exact absurd hkey (by revert r'; decide)
  resources := by simp [relaxedBoard]
  reservations := by simp [relaxedBoard]

theorem relaxedBoard_allocates :
    verdict (solve insertionSorter backtracking relaxedBoard 100).diagnostic.status ≠ .refused ∧
      (ValidProblem insertionSorter relaxedBoard →
        (solve insertionSorter backtracking relaxedBoard 100).ok = true ∨
          (solve insertionSorter backtracking relaxedBoard 100).diagnostic.status =
            .exhausted) := by
  have hok : (solve insertionSorter backtracking boardProblem 100).ok = true := by
    decide +kernel
  exact allocates_of_relaxes relaxes_relaxedBoard backtracking backtracking 100 100 hok

end Board

end GrevirPeripherals.PwmRelaxation
