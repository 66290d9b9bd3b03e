import GrevirPeripherals.PwmAccumulation
import Mathlib.Data.List.Induction

/-!
The configuration of a request is the merge of its active options: which options
there are decides it, not their order and not the sections they come from.
-/

namespace GrevirPeripherals.PwmRequestMerge

open GrevirPeripherals.PwmAccumulation
open GrevirPeripherals.PwmFrequencyWindow
open GrevirPeripherals.PwmFrequencyWindow.FrequencyWindow
open GrevirPeripherals.PwmNumeric
open GrevirPeripherals.PwmOptions
open GrevirPeripherals.PwmRequirements
open GrevirPeripherals.PwmWindowMeet

section Latest

variable {α : Type}

/-- The value given last. -/
def latest (unset : α) (values : List α) : α :=
  values.foldl (fun _ value => value) unset

/-- Two of the values differ. -/
def Disagree (values : List α) : Prop :=
  ∃ value ∈ values, ∃ value' ∈ values, value ≠ value'

variable {unset value : α} {values : List α}

theorem latest_append : latest unset (values ++ [value]) = value := by
  rw [latest, List.foldl_append, List.foldl_cons, List.foldl_nil]

theorem latest_mem (h : values ≠ []) : latest unset values ∈ values := by
  rw [← List.dropLast_append_getLast h, latest_append]
  simp

theorem latest_eq_unset_iff (hunset : unset ∉ values) :
    latest unset values = unset ↔ values = [] := by
  constructor
  · intro h
    by_contra hne
    exact hunset (h ▸ latest_mem hne)
  · rintro rfl
    rfl

theorem eq_latest_of_not_disagree (h : ¬Disagree values) (hvalue : value ∈ values) :
    value = latest unset values := by
  by_contra hne
  exact h ⟨value, hvalue, latest unset values, latest_mem (List.ne_nil_of_mem hvalue), hne⟩

theorem Disagree.mono {values' : List α} (h : Disagree values) (hsub : values ⊆ values') :
    Disagree values' := by
  obtain ⟨value, hvalue, value', hvalue', hne⟩ := h
  exact ⟨value, hsub hvalue, value', hsub hvalue', hne⟩

/-- A further value disagrees with the last one, or there was a disagreement before. -/
theorem disagree_append_iff (hunset : unset ∉ values) :
    Disagree (values ++ [value]) ↔
      Disagree values ∨ latest unset values ≠ unset ∧ latest unset values ≠ value := by
  rw [Ne, latest_eq_unset_iff hunset]
  constructor
  · rintro ⟨x, hx, y, hy, hne⟩
    by_cases hbefore : Disagree values
    · exact Or.inl hbefore
    · have hall : ∀ z ∈ values ++ [value], z = latest unset values ∨ z = value := by
        intro z hz
        rcases List.mem_append.mp hz with hz | hz
        · exact Or.inl (eq_latest_of_not_disagree hbefore hz)
        · exact Or.inr (List.mem_singleton.mp hz)
      refine Or.inr ⟨?_, ?_⟩
      · rintro rfl
        simp_all
      · intro heq
        rw [heq] at hall
        exact hne (((or_self_iff).mp (hall x hx)).trans ((or_self_iff).mp (hall y hy)).symm)
  · rintro (h | ⟨hne, hdiffers⟩)
    · exact h.mono (List.subset_append_left _ _)
    · refine ⟨_, List.mem_append_left _ (latest_mem hne), value, ?_, hdiffers⟩
      exact List.mem_append_right _ (List.mem_singleton_self _)

end Latest

section Fields

variable (resident : Target)

/-- A field that each option changes on its own is the fold of the parts it takes. -/
theorem field_accumulated {α β : Type} {field : Config → β} {part : PlainOption → Option α}
    {merge : β → α → β}
    (h : ∀ c option, field (applyPlain resident c option) =
      (part option).elim (field c) (merge (field c)))
    (options : List PlainOption) :
    field (accumulated resident options) = (options.filterMap part).foldl merge (field {}) := by
  rw [accumulated, List.foldl_filterMap]
  refine (List.foldl_hom field ?_).symm
  intro c option
  rw [h c option]
  cases part option <;> rfl

theorem getD_eq_elim {α : Type} (value : Option α) (unset : α) :
    value.getD unset = value.elim unset fun value => value := by
  cases value <;> rfl

variable (options : List PlainOption)

theorem accumulated_frequency :
    (accumulated resident options).frequency = accumulate (options.filterMap clauseOf) := by
  rw [accumulate, meetAll, List.foldl_map]
  exact field_accumulated resident (fun c option => congrArg Config.frequency
    (applyPlain_fields resident c option)) options

theorem accumulated_step :
    (accumulated resident options).step = (options.filterMap stepOf).foldl narrow {} :=
  field_accumulated resident (fun c option => congrArg Config.step
    (applyPlain_fields resident c option)) options

theorem accumulated_pin :
    (accumulated resident options).pin = latest 0 (options.filterMap pinOf) :=
  field_accumulated resident (fun c option => (congrArg Config.pin
    (applyPlain_fields resident c option)).trans (getD_eq_elim _ _)) options

theorem accumulated_waveform :
    (accumulated resident options).waveform =
      latest .any (options.filterMap (waveformOf resident)) :=
  field_accumulated resident (fun c option => (congrArg Config.waveform
    (applyPlain_fields resident c option)).trans (getD_eq_elim _ _)) options

theorem accumulated_source :
    (accumulated resident options).source = latest .any (options.filterMap (sourceOf resident)) :=
  field_accumulated resident (fun c option => (congrArg Config.source
    (applyPlain_fields resident c option)).trans (getD_eq_elim _ _)) options

theorem accumulated_requiredTimer :
    (accumulated resident options).requiredTimer =
      latest 0 (options.filterMap (timerOf resident)) :=
  field_accumulated resident (fun c option => (congrArg Config.requiredTimer
    (applyPlain_fields resident c option)).trans (getD_eq_elim _ _)) options

theorem accumulated_counterBitsAtLeast :
    (accumulated resident options).counterBitsAtLeast = (options.filterMap bitsOf).foldl max 0 :=
  field_accumulated resident (fun c option => congrArg Config.counterBitsAtLeast
    (applyPlain_fields resident c option)) options

end Fields

section Conflict

theorem legal_of_clauseOf {option : PlainOption} {clause : Clause}
    (h : clauseOf option = some clause) : clause.Legal := by
  cases option with
  | frequency rate policy =>
      rw [clauseOf] at h
      split_ifs at h with hbad
      obtain rfl := Option.some.inj h
      simp only [Bool.or_eq_true, Bool.not_eq_true', decide_eq_true_eq, not_or,
        UInt32.lt_iff_toNat_lt, not_lt] at hbad
      exact ⟨by simpa using hbad.1.2, hbad.2⟩
  | _ => simp at h

variable (resident : Target)

theorem legal_of_mem {options : List PlainOption} {clause : Clause}
    (h : clause ∈ options.filterMap clauseOf) : clause.Legal := by
  obtain ⟨option, -, hclause⟩ := List.mem_filterMap.mp h
  exact legal_of_clauseOf hclause

/-- No option gives the value that stands for an absent one. -/
theorem unset_notMem {α : Type} {part : PlainOption → Option α} {unset : α}
    (h : ∀ option, part option ≠ some unset) (options : List PlainOption) :
    unset ∉ options.filterMap part := by
  rw [List.mem_filterMap]
  rintro ⟨option, -, hvalue⟩
  exact h option hvalue

theorem pinOf_ne (option : PlainOption) : pinOf option ≠ some 0 := by
  cases option <;> simp

theorem timerOf_ne (option : PlainOption) : timerOf resident option ≠ some 0 := by
  cases option <;> simp

theorem waveformOf_ne (option : PlainOption) : waveformOf resident option ≠ some .any := by
  cases option <;> simp

theorem sourceOf_ne (option : PlainOption) : sourceOf resident option ≠ some .any := by
  cases option <;> simp

/-- Two options give different pins, timers, waveforms or sources, or no frequency is
within every window. -/
def Conflicting (options : List PlainOption) : Prop :=
  (¬∃ frequency, ∀ clause ∈ options.filterMap clauseOf, clause.Covers frequency) ∨
    Disagree (options.filterMap pinOf) ∨
    Disagree (options.filterMap (timerOf resident)) ∨
    Disagree (options.filterMap (waveformOf resident)) ∨
    Disagree (options.filterMap (sourceOf resident))

variable (options : List PlainOption) (option : PlainOption)

theorem disagree_concat_iff {α : Type} {part : PlainOption → Option α} {unset : α}
    (h : ∀ option, part option ≠ some unset) :
    Disagree ((options ++ [option]).filterMap part) ↔
      Disagree (options.filterMap part) ∨
        ∃ value ∈ part option, latest unset (options.filterMap part) ≠ unset ∧
          latest unset (options.filterMap part) ≠ value := by
  rw [List.filterMap_append]
  cases hvalue : part option with
  | none => simp [hvalue]
  | some value =>
      rw [List.filterMap_cons_some hvalue, List.filterMap_nil,
        disagree_append_iff (unset_notMem h options)]
      simp

theorem uncovered_concat_iff :
    (¬∃ frequency, ∀ clause ∈ (options ++ [option]).filterMap clauseOf, clause.Covers frequency) ↔
      (¬∃ frequency, ∀ clause ∈ options.filterMap clauseOf, clause.Covers frequency) ∨
        ∃ clause ∈ clauseOf option,
          ((accumulated resident options).frequency.intersect clause.window).empty = true := by
  rw [List.filterMap_append]
  cases hclause : clauseOf option with
  | none =>
      rw [List.filterMap_cons_none hclause, List.filterMap_nil, List.append_nil]
      simp only [Option.not_mem_none, false_and, exists_false, or_false]
  | some clause =>
      have hmeet : (accumulated resident options).frequency.intersect clause.window =
          accumulate (options.filterMap clauseOf ++ [clause]) := by
        rw [accumulated_frequency, accumulate, accumulate, meetAll, meetAll, List.map_append,
          List.foldl_append]
        rfl
      have hlegal : ∀ x ∈ options.filterMap clauseOf ++ [clause], x.Legal := by
        intro x hx
        rcases List.mem_append.mp hx with hx | hx
        · exact legal_of_mem hx
        · obtain rfl := List.mem_singleton.mp hx
          exact legal_of_clauseOf hclause
      rw [List.filterMap_cons_some hclause, List.filterMap_nil]
      simp only [Option.mem_some_iff, exists_eq_left', hmeet, empty_accumulate_iff hlegal]
      refine (or_iff_right_of_imp ?_).symm
      rintro huncovered ⟨frequency, hcovers⟩
      exact huncovered ⟨frequency, fun x hx => hcovers x (List.mem_append_left _ hx)⟩

/-- A further option clashes with what was accumulated, or there was a conflict before. -/
theorem conflicting_concat_iff :
    Conflicting resident (options ++ [option]) ↔
      Conflicting resident options ∨ Clashes resident (accumulated resident options) option := by
  rw [Conflicting, uncovered_concat_iff resident, disagree_concat_iff options option pinOf_ne,
    disagree_concat_iff options option (timerOf_ne resident),
    disagree_concat_iff options option (waveformOf_ne resident),
    disagree_concat_iff options option (sourceOf_ne resident), Conflicting, Clashes,
    accumulated_pin, accumulated_requiredTimer, accumulated_waveform, accumulated_source]
  exact iff_of_eq (by ac_rfl)

end Conflict

section Reports

variable (resident : Target)

/-- The errors that the options give reason for, together or each on its own. -/
inductive Reports (options : List PlainOption) : ConfigError → Prop
  | none : Reports options .none
  | invalidValue (option : PlainOption) (hmem : option ∈ options) (hrange : OutOfRange option) :
      Reports options .invalidValue
  | unsupportedOption (option : PlainOption) (hmem : option ∈ options)
      (havailable : Unavailable resident option) : Reports options .unsupportedOption
  | conflict (hconflict : Conflicting resident options) : Reports options .conflict

theorem reports_concat (options : List PlainOption) (option : PlainOption) :
    {e | Reports resident (options ++ [option]) e} =
      {e | Reports resident options e} ∪
        {e | Raises resident (accumulated resident options) option e} := by
  ext e
  rw [Set.mem_union]
  constructor
  · intro h
    cases h with
    | none => exact Or.inl .none
    | invalidValue x hmem hrange =>
        rcases List.mem_append.mp hmem with hmem | hmem
        · exact Or.inl (.invalidValue x hmem hrange)
        · exact Or.inr (.invalidValue (List.mem_singleton.mp hmem ▸ hrange))
    | unsupportedOption x hmem havailable =>
        rcases List.mem_append.mp hmem with hmem | hmem
        · exact Or.inl (.unsupportedOption x hmem havailable)
        · exact Or.inr (.unsupportedOption (List.mem_singleton.mp hmem ▸ havailable))
    | conflict hconflict =>
        rcases (conflicting_concat_iff resident options option).mp hconflict with h | h
        · exact Or.inl (.conflict h)
        · exact Or.inr (.conflict h)
  · have hlast : option ∈ options ++ [option] := by simp
    rintro (h | h)
    · cases h with
      | none => exact .none
      | invalidValue x hmem hrange => exact .invalidValue x (List.mem_append_left _ hmem) hrange
      | unsupportedOption x hmem havailable =>
          exact .unsupportedOption x (List.mem_append_left _ hmem) havailable
      | conflict h => exact .conflict ((conflicting_concat_iff resident options option).mpr (.inl h))
    · cases h with
      | none => exact .none
      | invalidValue hrange => exact .invalidValue option hlast hrange
      | unsupportedOption havailable => exact .unsupportedOption option hlast havailable
      | conflict h => exact .conflict ((conflicting_concat_iff resident options option).mpr (.inr h))

/-- Whatever their order, the worst error that the options give reason for remains. -/
theorem isGreatest_accumulated_error (options : List PlainOption) :
    IsGreatest {e | Reports resident options e} (accumulated resident options).error := by
  induction options using List.reverseRecOn with
  | nil =>
      refine ⟨.none, ?_⟩
      intro e h
      cases h with
      | none => exact le_rfl
      | invalidValue x hmem | unsupportedOption x hmem => simp at hmem
      | conflict h => simp [Conflicting, Disagree] at h
  | append_singleton options option ih =>
      obtain ⟨e, hgreatest, herror⟩ := raisesTo resident (accumulated resident options) option
      have hstep : accumulated resident (options ++ [option]) =
          applyPlain resident (accumulated resident options) option := by
        rw [accumulated, List.foldl_append]
        rfl
      rw [hstep, herror, reports_concat]
      exact ih.union hgreatest

end Reports

section Step

/-- The least of the limits, in lowest terms. -/
structure IsTightest (limits : List Ratio) (step : Ratio) : Prop where
  valid : step.valid = true
  normal : step.normalized = step
  least : IsLeast {value | ∃ limit ∈ limits, limit.value = value} step.value

variable {limits limits' : List Ratio} {step step' : Ratio}

theorem IsTightest.unique (h : IsTightest limits step) (h' : IsTightest limits' step')
    (hmem : ∀ limit, limit ∈ limits ↔ limit ∈ limits') : step = step' := by
  have hleast := h.least
  simp only [hmem] at hleast
  rw [← h.normal, ← h'.normal]
  exact (Ratio.normalized_eq_iff (Ratio.positive_of_valid h.valid)
    (Ratio.positive_of_valid h'.valid)).mpr (hleast.unique h'.least)

theorem isTightest_singleton (h : step.valid = true) : IsTightest [step] step.normalized := by
  have hpositive := Ratio.positive_of_valid h
  refine ⟨Ratio.valid_normalized h, Ratio.normalized_normalized hpositive, ?_⟩
  rw [Ratio.value_normalized hpositive]
  simp [IsLeast, lowerBounds]

theorem IsTightest.narrow {limit : Ratio} (h : IsTightest limits step)
    (hlimit : limit.valid = true) :
    IsTightest (limits ++ [limit]) (narrow step limit) := by
  have hpositive := Ratio.positive_of_valid h.valid
  have hpositive' := Ratio.positive_of_valid hlimit
  have hle := Ratio.atMost_iff_value_le hpositive' hpositive
  have hne : step.numerator ≠ 0 := by
    intro hzero
    have hpos := ((Ratio.positive_iff step).mp hpositive).1
    rw [hzero] at hpos
    exact absurd hpos (by decide)
  have hunion : {value | ∃ x ∈ limits ++ [limit], x.value = value} =
      {value | ∃ x ∈ limits, x.value = value} ∪ {limit.value} := by
    ext value
    simp [or_and_right, exists_or, eq_comm, or_comm]
  have hleast : IsLeast {value | ∃ x ∈ limits ++ [limit], x.value = value}
      (min step.value limit.value) := by
    rw [hunion]
    exact h.least.union isLeast_singleton
  rw [PwmAccumulation.narrow]
  split_ifs with hcondition
  · have hle' : limit.value ≤ step.value := by
      apply hle.mp
      simpa [hne] using hcondition
    rw [min_eq_right hle', ← Ratio.value_normalized hpositive'] at hleast
    exact ⟨Ratio.valid_normalized hlimit, Ratio.normalized_normalized hpositive', hleast⟩
  · have hlt : ¬limit.value ≤ step.value := fun hge => hcondition (by simp [hle.mpr hge])
    rw [min_eq_left (le_of_not_ge hlt)] at hleast
    exact ⟨h.valid, h.normal, hleast⟩

theorem isTightest_foldl (hne : limits ≠ []) (hvalid : ∀ limit ∈ limits, limit.valid = true) :
    IsTightest limits (limits.foldl PwmAccumulation.narrow {}) := by
  induction limits using List.reverseRecOn with
  | nil => contradiction
  | append_singleton limits limit ih =>
      rw [List.foldl_append, List.foldl_cons, List.foldl_nil]
      have hlimit := hvalid limit (by simp)
      rcases eq_or_ne limits [] with rfl | hlimits
      · exact isTightest_singleton hlimit
      · exact (ih hlimits fun x hx => hvalid x (List.mem_append_left _ hx)).narrow hlimit

theorem valid_of_stepOf {option : PlainOption} {limit : Ratio}
    (h : stepOf option = some limit) : limit.valid = true := by
  cases option with
  | dutyStepAtMost raw =>
      rw [stepOf] at h
      split_ifs at h with hbad
      obtain rfl := Option.some.inj h
      simp only [Bool.or_eq_true, Bool.not_eq_true', not_or] at hbad
      simpa using hbad.1
  | _ => simp at h

theorem valid_of_mem {options : List PlainOption} {limit : Ratio}
    (h : limit ∈ options.filterMap stepOf) : limit.valid = true := by
  obtain ⟨option, -, hlimit⟩ := List.mem_filterMap.mp h
  exact valid_of_stepOf hlimit

theorem valid_foldl_narrow_iff (hvalid : ∀ limit ∈ limits, limit.valid = true) :
    (limits.foldl PwmAccumulation.narrow {}).valid = true ↔ limits ≠ [] := by
  constructor
  · rintro h rfl
    revert h
    decide
  · intro hne
    exact (isTightest_foldl hne hvalid).valid

end Step

section Merge

/-- The one value that is given, if any is. -/
structure Given {α : Type} (values : List α) (unset value : α) : Prop where
  eq : ∀ x ∈ values, x = value
  absent : values = [] → value = unset

variable {α : Type} {values values' : List α} {unset value value' : α}

theorem given_latest (h : ¬Disagree values) : Given values unset (latest unset values) := by
  constructor
  · exact fun x hx => eq_latest_of_not_disagree h hx
  · rintro rfl
    rfl

theorem Given.unique (h : Given values unset value) (h' : Given values' unset value')
    (hmem : ∀ x, x ∈ values ↔ x ∈ values') : value = value' := by
  cases values with
  | nil =>
      have hnil : values' = [] := List.eq_nil_iff_forall_not_mem.mpr fun x hx =>
        absurd ((hmem x).mpr hx) List.not_mem_nil
      rw [h.absent rfl, h'.absent hnil]
  | cons x rest =>
      have hx : x ∈ x :: rest := List.mem_cons_self
      rw [← h.eq x hx, ← h'.eq x ((hmem x).mp hx)]

/-- Some field that every request needs is never validly given. -/
def Missing (options : List PlainOption) : Prop :=
  options.filterMap clauseOf = [] ∨ options.filterMap stepOf = [] ∨ options.filterMap pinOf = []

variable (resident : Target)

/-- The canonical configuration of options without objections. -/
structure Merged (options : List PlainOption) (config : Config) : Prop where
  frequency : IsMeet ((options.filterMap clauseOf).map Clause.window) config.frequency
  step : IsTightest (options.filterMap stepOf) config.step
  pin : Given (options.filterMap pinOf) 0 config.pin
  waveform : Given (options.filterMap (waveformOf resident)) .any config.waveform
  source : Given (options.filterMap (sourceOf resident)) .any config.source
  requiredTimer : Given (options.filterMap (timerOf resident)) 0 config.requiredTimer
  counterBitsAtLeast :
    IsGreatest {bits | bits = 0 ∨ bits ∈ options.filterMap bitsOf} config.counterBitsAtLeast

theorem foldl_max_concat (values : List Nat) (value : Nat) :
    (values ++ [value]).foldl max 0 = max (values.foldl max 0) value := by
  rw [List.foldl_append, List.foldl_cons, List.foldl_nil]

theorem isGreatest_foldl_max (values : List Nat) :
    IsGreatest {bits | bits = 0 ∨ bits ∈ values} (values.foldl max 0) := by
  induction values using List.reverseRecOn with
  | nil => simp [IsGreatest, upperBounds]
  | append_singleton values value ih =>
      have hunion : {bits | bits = 0 ∨ bits ∈ values ++ [value]} =
          {bits | bits = 0 ∨ bits ∈ values} ∪ {value} := by
        ext bits
        simp [or_assoc, or_comm]
      rw [foldl_max_concat, hunion]
      exact ih.union isGreatest_singleton

theorem merged_accumulated {options : List PlainOption} (hmissing : ¬Missing options)
    (hconflict : ¬Conflicting resident options) :
    Merged resident options (accumulated resident options) := by
  simp only [Missing, not_or] at hmissing
  obtain ⟨hclauses, hlimits, -⟩ := hmissing
  simp only [Conflicting, not_or] at hconflict
  obtain ⟨-, hpin, htimer, hwaveform, hsource⟩ := hconflict
  constructor
  · rw [accumulated_frequency]
    exact isMeet_accumulate hclauses fun _ => legal_of_mem
  · rw [accumulated_step]
    exact isTightest_foldl hlimits fun _ => valid_of_mem
  · rw [accumulated_pin]
    exact given_latest hpin
  · rw [accumulated_waveform]
    exact given_latest hwaveform
  · rw [accumulated_source]
    exact given_latest hsource
  · rw [accumulated_requiredTimer]
    exact given_latest htimer
  · rw [accumulated_counterBitsAtLeast]
    exact isGreatest_foldl_max _

end Merge

section SameOptions

variable (resident : Target) {options options' : List PlainOption}
  (hmem : ∀ option, option ∈ options ↔ option ∈ options')

include hmem

theorem mem_filterMap_congr {α : Type} (part : PlainOption → Option α) (value : α) :
    value ∈ options.filterMap part ↔ value ∈ options'.filterMap part := by
  simp only [List.mem_filterMap, hmem]

theorem conflicting_congr : Conflicting resident options ↔ Conflicting resident options' := by
  simp only [Conflicting, Disagree, mem_filterMap_congr hmem]

theorem missing_congr : Missing options ↔ Missing options' := by
  simp only [Missing, List.eq_nil_iff_forall_not_mem, mem_filterMap_congr hmem]

theorem Reports.congr {e : ConfigError} (h : Reports resident options e) :
    Reports resident options' e := by
  cases h with
  | none => exact .none
  | invalidValue option hoption hrange => exact .invalidValue option ((hmem option).mp hoption) hrange
  | unsupportedOption option hoption havailable =>
      exact .unsupportedOption option ((hmem option).mp hoption) havailable
  | conflict h => exact .conflict ((conflicting_congr resident hmem).mp h)

theorem Merged.unique {config config' : Config} (h : Merged resident options config)
    (h' : Merged resident options' config') (herror : config.error = config'.error) :
    config = config' := by
  have hwindows (window : FrequencyWindow) :
      window ∈ (options.filterMap clauseOf).map Clause.window ↔
        window ∈ (options'.filterMap clauseOf).map Clause.window := by
    simp only [List.mem_map, mem_filterMap_congr hmem]
  have hbits := h.counterBitsAtLeast
  simp only [mem_filterMap_congr hmem] at hbits
  obtain ⟨frequency, step, pin, waveform, source, requiredTimer, bits, error⟩ := config
  obtain ⟨frequency', step', pin', waveform', source', requiredTimer', bits', error'⟩ := config'
  simp only at herror
  rw [Config.mk.injEq]
  exact ⟨h.frequency.unique h'.frequency hwindows,
    h.step.unique h'.step (mem_filterMap_congr hmem stepOf),
    h.pin.unique h'.pin (mem_filterMap_congr hmem pinOf),
    h.waveform.unique h'.waveform (mem_filterMap_congr hmem (waveformOf resident)),
    h.source.unique h'.source (mem_filterMap_congr hmem (sourceOf resident)),
    h.requiredTimer.unique h'.requiredTimer (mem_filterMap_congr hmem (timerOf resident)),
    hbits.unique h'.counterBitsAtLeast, herror⟩

end SameOptions

section Request

variable (resident : Target) (i : Instance) (use : PwmRequest)

theorem missing_iff (options : List PlainOption) :
    (!(accumulated resident options).frequency.valid || !(accumulated resident options).step.valid ||
      decide ((accumulated resident options).pin = 0)) = true ↔ Missing options := by
  have hfrequency := valid_accumulate_iff fun clause
    (h : clause ∈ options.filterMap clauseOf) => legal_of_mem h
  have hstep := valid_foldl_narrow_iff fun limit
    (h : limit ∈ options.filterMap stepOf) => valid_of_mem h
  have hpin := latest_eq_unset_iff (unset_notMem pinOf_ne options)
  rw [Bool.or_eq_true, Bool.or_eq_true, Bool.not_eq_true', Bool.not_eq_true', ← Bool.not_eq_true,
    ← Bool.not_eq_true, decide_eq_true_eq, accumulated_frequency, accumulated_step,
    accumulated_pin, hfrequency, hstep, hpin, not_ne_iff, not_ne_iff, or_assoc, Missing]

theorem request_of_missing (h : Missing (activeOptions resident i use)) :
    (request resident i use).config =
      (accumulated resident (activeOptions resident i use)).fail .invalidValue := by
  rw [request_config]
  exact if_pos ((missing_iff resident _).mpr h)

theorem request_of_not_missing (h : ¬Missing (activeOptions resident i use)) :
    (request resident i use).config = accumulated resident (activeOptions resident i use) := by
  rw [request_config]
  exact if_neg fun hmissing => h ((missing_iff resident _).mp hmissing)

theorem request_error :
    IsGreatest {e | Reports resident (activeOptions resident i use) e ∨
      Missing (activeOptions resident i use) ∧ e = .invalidValue}
      (request resident i use).config.error := by
  have hgreatest := isGreatest_accumulated_error resident (activeOptions resident i use)
  by_cases hmissing : Missing (activeOptions resident i use)
  · rw [request_of_missing resident i use hmissing, Config.fail_eq]
    have hunion := hgreatest.union (isGreatest_singleton (a := ConfigError.invalidValue))
    simp only [hmissing, true_and]
    exact hunion
  · rw [request_of_not_missing resident i use hmissing]
    simpa [hmissing] using hgreatest

theorem not_missing_of_error (h : (request resident i use).config.error = .none) :
    ¬Missing (activeOptions resident i use) := by
  intro hmissing
  have hle := (request_error resident i use).2 (Or.inr ⟨hmissing, rfl⟩)
  rw [h] at hle
  exact absurd hle (by decide)

theorem not_conflicting_of_error (h : (request resident i use).config.error = .none) :
    ¬Conflicting resident (activeOptions resident i use) := by
  intro hconflict
  have hle := (request_error resident i use).2 (Or.inl (.conflict hconflict))
  rw [h] at hle
  exact absurd hle (by decide)

theorem request_merged (h : (request resident i use).config.error = .none) :
    Merged resident (activeOptions resident i use) (request resident i use).config := by
  have hmissing := not_missing_of_error resident i use h
  rw [request_of_not_missing resident i use hmissing]
  exact merged_accumulated resident hmissing (not_conflicting_of_error resident i use h)

/-- The error is the worst one that the active options give reason for; without an
error the configuration is their merge; and the same active options, in whatever order
and sections, lead to the same error and then to the same configuration. -/
theorem request_canonical :
    IsGreatest {e | Reports resident (activeOptions resident i use) e ∨
      Missing (activeOptions resident i use) ∧ e = .invalidValue}
      (request resident i use).config.error ∧
    ((request resident i use).config.error = .none →
      Merged resident (activeOptions resident i use) (request resident i use).config) ∧
    ∀ (i' : Instance) (use' : PwmRequest),
      (∀ option, option ∈ activeOptions resident i use ↔
        option ∈ activeOptions resident i' use') →
      (request resident i' use').config.error = (request resident i use).config.error ∧
        ((request resident i use).config.error = .none →
          (request resident i' use').config = (request resident i use).config) := by
  refine ⟨request_error resident i use, request_merged resident i use, ?_⟩
  intro i' use' hmem
  have hmem' := fun option => (hmem option).symm
  have herror : (request resident i' use').config.error = (request resident i use).config.error := by
    refine (request_error resident i' use').unique ?_
    convert request_error resident i use using 1
    ext e
    exact or_congr ⟨.congr resident hmem', .congr resident hmem⟩
      (and_congr_left' (missing_congr hmem'))
  refine ⟨herror, fun hnone => ?_⟩
  exact (request_merged resident i' use' (herror.trans hnone)).unique resident hmem'
    (request_merged resident i use hnone) herror

/-- An instance whose options all stand outside of sections. -/
def plainInstance (options : List PlainOption) : Instance where
  name := []
  items := options.map fun option => .option (.plain option)

/-- Options that are not available do not conflict, and where there is a conflict the
last value stays. -/
theorem unavailable_or_contradictory :
    (request .esp32 (plainInstance [.frequency ⟨1000, 1⟩ .exact, .dutyStepAtMost ⟨1, 100⟩, .pin 3,
        .fastPwm, .phaseCorrectPwm]) ⟨[], []⟩).config.error = .unsupportedOption ∧
      (request .avr (plainInstance [.pin 3, .pin 4]) ⟨[], []⟩).config ≠
        (request .avr (plainInstance [.pin 4, .pin 3]) ⟨[], []⟩).config := by
  decide +kernel

end Request

end GrevirPeripherals.PwmRequestMerge
