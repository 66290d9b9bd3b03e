import GrevirPeripherals.PwmRequestMerge
import GrevirPeripherals.PwmSolution

/-!
What the options of a use mean for the candidate that serves it, and that the
configuration built from them asks for exactly this.
-/

namespace GrevirPeripherals.PwmDeclarations

open GrevirPeripherals.PwmAccumulation
open GrevirPeripherals.PwmFitting
open GrevirPeripherals.PwmFrequencyWindow
open GrevirPeripherals.PwmModel
open GrevirPeripherals.PwmNumeric
open GrevirPeripherals.PwmOptions
open GrevirPeripherals.PwmRequestMerge
open GrevirPeripherals.PwmRequirements
open GrevirPeripherals.PwmWindowMeet

section Meaning

/-- The candidate, with the endpoint it gives to a use, does what the option declares. -/
def Honours (c : Candidate) (e : Endpoint) : PlainOption → Prop
  | .frequency rate policy =>
      |c.frequency.value - rate.value| ≤ rate.value * policy.ppm.toNat / 1000000
  | .dutyStepAtMost limit => e.step.value ≤ limit.value
  | .pin physical => e.pin = physical
  | .counterBitsAtLeast bits => bits ≤ c.counterBits
  | .requireTimer timer => c.timer = timerIdentity timer
  | .fastPwm => c.waveform = .fast
  | .phaseCorrectPwm => c.waveform = .phaseCorrect
  | .topFromIcr => c.source = .icr
  | .builtInTop => c.source = .builtIn
  | .topFromOcra => c.source = .ocra
  | .apbClock => c.source = .apb
  | .unknown => False

/-- The option is available on the target and carries a value in its range. -/
def Meaningful (resident : Target) (option : PlainOption) : Prop :=
  ¬Unavailable resident option ∧ ¬OutOfRange option

/-- The constraints of a configuration on the candidate and the endpoint. -/
@[mk_iff]
structure Satisfies (c : Candidate) (e : Endpoint) (config : Config) : Prop where
  frequency : config.frequency.Admits c.frequency
  step : e.step.value ≤ config.step.value
  pin : e.pin = config.pin
  counterBits : config.counterBitsAtLeast ≤ c.counterBits
  timer : config.requiredTimer = 0 ∨ config.requiredTimer = c.timer
  waveform : config.waveform = .any ∨ config.waveform = c.waveform
  source : config.source = .any ∨ config.source = c.source

theorem satisfies_iff_suits (c : Candidate) (e : Endpoint) (r : Request) :
    Satisfies c e r.config ↔
      Suits c r ∧ e.pin = r.config.pin ∧ e.step.value ≤ r.config.step.value := by
  constructor
  · rintro ⟨hfrequency, hstep, hpin, hbits, htimer, hwaveform, hsource⟩
    exact ⟨⟨hfrequency, htimer, hbits, hwaveform, hsource⟩, hpin, hstep⟩
  · rintro ⟨⟨hfrequency, htimer, hbits, hwaveform, hsource⟩, hpin, hstep⟩
    exact ⟨hfrequency, hstep, hpin, hbits, htimer, hwaveform, hsource⟩

end Meaning

section Values

variable {α : Type} {values : List α} {unset value x : α}

/-- Agreement with the merged value is agreement with every value given. -/
theorem given_eq_iff (h : Given values unset value) (hne : values ≠ []) :
    x = value ↔ ∀ y ∈ values, x = y := by
  constructor
  · rintro rfl y hy
    exact (h.eq y hy).symm
  · intro hall
    obtain ⟨y, hy⟩ := List.exists_mem_of_ne_nil values hne
    rw [hall y hy, h.eq y hy]

theorem given_unset_or_eq_iff (h : Given values unset value) (hunset : unset ∉ values) :
    value = unset ∨ value = x ↔ ∀ y ∈ values, x = y := by
  rcases eq_or_ne values [] with rfl | hne
  · simp [h.absent rfl]
  · have hvalue : value ≠ unset := by
      obtain ⟨y, hy⟩ := List.exists_mem_of_ne_nil values hne
      rintro rfl
      exact hunset (h.eq y hy ▸ hy)
    rw [or_iff_right hvalue, eq_comm, given_eq_iff h hne]

end Values

section Windows

/-- A clause covers the frequencies that are no further from its rate than its tolerance. -/
theorem covers_iff_abs (clause : Clause) (frequency : ℚ) :
    clause.Covers frequency ↔
      |frequency - clause.rate.value| ≤ clause.rate.value * clause.ppm.toNat / 1000000 := by
  rw [Clause.Covers, abs_le]
  constructor
  · rintro ⟨hlower, hupper⟩
    constructor <;> linarith
  · rintro ⟨hlower, hupper⟩
    constructor <;> linarith

end Windows

section Options

variable {resident : Target} {options : List PlainOption} {c : Candidate} {e : Endpoint}

/-- Every part that an option contributes to the configuration has its property. -/
@[mk_iff]
structure Respects (resident : Target) (c : Candidate) (e : Endpoint) (option : PlainOption) :
    Prop where
  clause : ∀ clause ∈ clauseOf option, clause.Admits c.frequency
  step : ∀ limit ∈ stepOf option, e.step.value ≤ limit.value
  pin : ∀ pin ∈ pinOf option, e.pin = pin
  bits : ∀ bits ∈ bitsOf option, bits ≤ c.counterBits
  timer : ∀ timer ∈ timerOf resident option, c.timer = timer
  waveform : ∀ waveform ∈ waveformOf resident option, c.waveform = waveform
  source : ∀ source ∈ sourceOf resident option, c.source = source

/-- For an option that is available and in range, its parts say what it declares. -/
theorem respects_iff_honours {option : PlainOption} (h : Meaningful resident option) :
    Respects resident c e option ↔ Honours c e option := by
  obtain ⟨havailable, hrange⟩ := h
  rw [respects_iff]
  cases option with
  | frequency rate policy =>
      have hclause : clauseOf (.frequency rate policy) = some ⟨rate, policy.ppm⟩ := by
        simp_all [Unavailable, OutOfRange]
      have hcovers := covers_iff_abs ⟨rate, policy.ppm⟩ c.frequency.value
      simp only [hclause, Honours, ← hcovers]
      simp [Clause.Admits, Clause.Covers]
  | _ => simp_all [Unavailable, OutOfRange, Honours]

/-- A property of all parts of some kind is one of each option's own. -/
theorem forall_filterMap_iff {α : Type} {part : PlainOption → Option α} {P : α → Prop} :
    (∀ x ∈ options.filterMap part, P x) ↔ ∀ option ∈ options, ∀ x ∈ part option, P x := by
  simp only [List.mem_filterMap, Option.mem_def]
  constructor
  · intro h option hoption x hx
    exact h x ⟨option, hoption, hx⟩
  · rintro h x ⟨option, hoption, hx⟩
    exact h option hoption x hx

/-- The merged configuration asks for what the options ask for one by one. -/
theorem satisfies_iff_respects {config : Config} (hmissing : ¬Missing options)
    (h : Merged resident options config) :
    Satisfies c e config ↔ ∀ option ∈ options, Respects resident c e option := by
  simp only [Missing, not_or] at hmissing
  have hfrequency : config.frequency.Admits c.frequency ↔
      ∀ option ∈ options, ∀ clause ∈ clauseOf option, clause.Admits c.frequency := by
    rw [h.frequency.admits_iff, List.forall_mem_map, ← forall_filterMap_iff]
    refine forall₂_congr fun clause hclause => ?_
    exact (legal_of_mem hclause).covers_iff.symm
  have hstep : e.step.value ≤ config.step.value ↔
      ∀ option ∈ options, ∀ limit ∈ stepOf option, e.step.value ≤ limit.value := by
    rw [le_isGLB_iff h.step.least.isGLB, ← forall_filterMap_iff]
    constructor
    · intro hlower limit hlimit
      exact hlower ⟨limit, hlimit, rfl⟩
    · rintro hall value ⟨limit, hlimit, rfl⟩
      exact hall limit hlimit
  have hpin : e.pin = config.pin ↔ ∀ option ∈ options, ∀ pin ∈ pinOf option, e.pin = pin := by
    rw [given_eq_iff h.pin hmissing.2.2, ← forall_filterMap_iff]
  have hbits : config.counterBitsAtLeast ≤ c.counterBits ↔
      ∀ option ∈ options, ∀ bits ∈ bitsOf option, bits ≤ c.counterBits := by
    rw [isLUB_le_iff h.counterBitsAtLeast.isLUB, ← forall_filterMap_iff]
    constructor
    · intro hupper bits hbits
      exact hupper (Or.inr hbits)
    · rintro hall bits (rfl | hbits)
      · exact Nat.zero_le _
      · exact hall bits hbits
  have htimer := given_unset_or_eq_iff (x := c.timer) h.requiredTimer
    (unset_notMem (timerOf_ne resident) options)
  have hwaveform := given_unset_or_eq_iff (x := c.waveform) h.waveform
    (unset_notMem (waveformOf_ne resident) options)
  have hsource := given_unset_or_eq_iff (x := c.source) h.source
    (unset_notMem (sourceOf_ne resident) options)
  rw [forall_filterMap_iff] at htimer hwaveform hsource
  simp only [satisfies_iff, respects_iff, hfrequency, hstep, hpin, hbits, htimer, hwaveform,
    hsource, forall_and]

end Options

section Request

variable (resident : Target) (i : Instance) (use : PwmRequest) {c : Candidate} {e : Endpoint}
  (h : (request resident i use).config.error = .none)

include h

/-- A request without an error stands on options that mean something. -/
theorem meaningful_of_error {option : PlainOption}
    (hoption : option ∈ activeOptions resident i use) : Meaningful resident option := by
  have hgreatest := (request_error resident i use).2
  rw [h] at hgreatest
  constructor
  · intro hunavailable
    exact absurd (hgreatest (Or.inl (.unsupportedOption option hoption hunavailable))) (by decide)
  · intro hrange
    exact absurd (hgreatest (Or.inl (.invalidValue option hoption hrange))) (by decide)

/-- The configuration of a use is satisfied exactly where all of its options are honoured. -/
theorem satisfies_request_iff :
    Satisfies c e (request resident i use).config ↔
      ∀ option ∈ activeOptions resident i use, Honours c e option := by
  rw [satisfies_iff_respects (not_missing_of_error resident i use h)
    (request_merged resident i use h)]
  refine forall₂_congr fun option hoption => ?_
  exact respects_iff_honours (meaningful_of_error resident i use h hoption)

end Request

end GrevirPeripherals.PwmDeclarations
