import GrevirPeripherals.PwmOptions
import GrevirPeripherals.PwmWindowMeet
import Mathlib.Data.List.GetD

/-!
What applying a list of options leads to: sections dissolve into the options that
are active on the resident target, and each of these touches at most one field of
the configuration and raises the error.
-/

namespace GrevirPeripherals.PwmAccumulation

open GrevirPeripherals.PwmFrequencyWindow
open GrevirPeripherals.PwmFrequencyWindow.FrequencyWindow
open GrevirPeripherals.PwmNumeric
open GrevirPeripherals.PwmOptions
open GrevirPeripherals.PwmRequirements
open GrevirPeripherals.PwmWindowMeet

section Active

variable (resident : Target)

mutual

/-- The options of matching sections, at any depth, in their order. -/
def active : RequestOption → List PlainOption
  | .plain option => [option]
  | .forTarget target options => if matchesTarget resident target then activeAll options else []

def activeAll : List RequestOption → List PlainOption
  | [] => []
  | option :: options => active option ++ activeAll options

end

mutual

theorem apply_eq_foldl : ∀ (option : RequestOption) (c : Config),
    apply resident option c = (active resident option).foldl (applyPlain resident) c
  | .plain option, c => by
      rw [apply, active, List.foldl_cons, List.foldl_nil]
  | .forTarget target options, c => by
      rw [apply, active]
      split_ifs
      · exact applyAll_eq_foldl options c
      · rfl

theorem applyAll_eq_foldl : ∀ (options : List RequestOption) (c : Config),
    applyAll resident options c = (activeAll resident options).foldl (applyPlain resident) c
  | [], c => rfl
  | option :: options, c => by
      rw [applyAll, activeAll, List.foldl_append, apply_eq_foldl option c,
        applyAll_eq_foldl options]

end

/-- The active options of a use: those of its instance, then its own. -/
def activeOptions (i : Instance) (use : PwmRequest) : List PlainOption :=
  activeAll resident i.options ++ activeAll resident use.options

def accumulated (options : List PlainOption) : Config :=
  options.foldl (applyPlain resident) {}

theorem request_config (i : Instance) (use : PwmRequest) :
    (request resident i use).config =
      let config := accumulated resident (activeOptions resident i use)
      if !config.frequency.valid || !config.step.valid || config.pin = 0 then
        config.fail .invalidValue
      else config := by
  rw [request, applyAll_eq_foldl, applyAll_eq_foldl, ← List.foldl_append]
  rfl

end Active

section Given

/-- The frequency window that an option asks for, if it is well formed. -/
@[simp]
def clauseOf : PlainOption → Option Clause
  | .frequency rate policy =>
      if !policy.supported || !rate.valid || 1000000 < policy.ppm then none
      else some ⟨rate, policy.ppm⟩
  | _ => none

@[simp]
def stepOf : PlainOption → Option Ratio
  | .dutyStepAtMost limit =>
      if !limit.valid || limit.denominator < limit.numerator then none else some limit
  | _ => none

@[simp]
def pinOf : PlainOption → Option Nat
  | .pin physical => if physical = 0 then none else some physical
  | _ => none

@[simp]
def bitsOf : PlainOption → Option Nat
  | .counterBitsAtLeast bits => if bits = 0 then none else some bits
  | _ => none

variable (resident : Target)

@[simp]
def timerOf : PlainOption → Option Nat
  | .requireTimer timer =>
      if resident ≠ .atmega328p || timerIdentity timer = 0 then none
      else some (timerIdentity timer)
  | _ => none

@[simp]
def waveformOf : PlainOption → Option Waveform
  | .fastPwm => if matchesTarget resident .avr then some .fast else none
  | .phaseCorrectPwm => if matchesTarget resident .avr then some .phaseCorrect else none
  | _ => none

@[simp]
def sourceOf : PlainOption → Option Source
  | .topFromIcr => if matchesTarget resident .avr then some .icr else none
  | .builtInTop => if matchesTarget resident .avr then some .builtIn else none
  | .topFromOcra => if matchesTarget resident .avr then some .ocra else none
  | .apbClock => if resident = .esp32 then some .apb else none
  | _ => none

/-- The option is unknown, or not available on the target. -/
def Unavailable : PlainOption → Prop
  | .frequency _ policy => policy.supported = false
  | .requireTimer timer => resident ≠ .atmega328p ∨ timerIdentity timer = 0
  | .fastPwm | .phaseCorrectPwm | .topFromIcr | .builtInTop | .topFromOcra =>
      matchesTarget resident .avr = false
  | .apbClock => resident ≠ .esp32
  | .unknown => True
  | _ => False

/-- The option carries a value out of its range. -/
def OutOfRange : PlainOption → Prop
  | .frequency rate policy => rate.valid = false ∨ 1000000 < policy.ppm
  | .dutyStepAtMost limit => limit.valid = false ∨ limit.denominator < limit.numerator
  | .pin physical => physical = 0
  | .counterBitsAtLeast bits => bits = 0
  | _ => False

end Given

section Step

/-- The duty step after one more limit. -/
def narrow (step limit : Ratio) : Ratio :=
  if step.numerator = 0 || atMost limit step then limit.normalized else step

variable (resident : Target) (c : Config)

/-- The fields other than the error after one more option. -/
theorem applyPlain_fields (option : PlainOption) :
    { applyPlain resident c option with error := .none } =
      { frequency := (clauseOf option).elim c.frequency fun clause =>
          c.frequency.intersect clause.window
        step := (stepOf option).elim c.step (narrow c.step)
        pin := (pinOf option).getD c.pin
        waveform := (waveformOf resident option).getD c.waveform
        source := (sourceOf resident option).getD c.source
        requiredTimer := (timerOf resident option).getD c.requiredTimer
        counterBitsAtLeast := (bitsOf option).elim c.counterBitsAtLeast (max c.counterBitsAtLeast)
        error := .none } := by
  cases option with
  | frequency rate policy =>
      cases hsupported : policy.supported with
      | false => simp [applyPlain, Config.fail_eq, hsupported]
      | true =>
          by_cases hbad : (!rate.valid || decide (1000000 < policy.ppm)) = true
          · simp [applyPlain, Config.fail_eq, hsupported, hbad]
          · simp only [applyPlain, Config.fail_eq, clauseOf, hsupported, Bool.not_true,
              Bool.false_or, hbad]
            split_ifs <;> simp [Clause.window]
  | dutyStepAtMost limit =>
      by_cases hbad : (!limit.valid || decide (limit.denominator < limit.numerator)) = true
      · simp [applyPlain, Config.fail_eq, hbad]
      · have hstep : stepOf (.dutyStepAtMost limit) = some limit := if_neg hbad
        rw [applyPlain, if_neg hbad, hstep]
        simp only [Option.elim_some, narrow]
        split_ifs <;> simp
  | counterBitsAtLeast bits =>
      simp only [applyPlain, Config.fail_eq, bitsOf]
      split_ifs with hzero hlt
      · simp
      · simp [max_eq_right hlt.le]
      · simp [max_eq_left (Nat.le_of_not_lt hlt)]
  | unknown => simp [applyPlain, Config.fail_eq]
  | pin | requireTimer | fastPwm | phaseCorrectPwm | topFromIcr | builtInTop | topFromOcra
  | apbClock =>
      simp only [applyPlain, Config.fail_eq, pinOf, waveformOf, sourceOf, timerOf,
        mergeConstraint, avrWaveform, avrSource]
      split_ifs <;> simp_all

/-- The option contradicts what the configuration holds. -/
def Clashes (option : PlainOption) : Prop :=
  (∃ clause ∈ clauseOf option, (c.frequency.intersect clause.window).empty = true) ∨
    (∃ pin ∈ pinOf option, c.pin ≠ 0 ∧ c.pin ≠ pin) ∨
    (∃ timer ∈ timerOf resident option, c.requiredTimer ≠ 0 ∧ c.requiredTimer ≠ timer) ∨
    (∃ waveform ∈ waveformOf resident option, c.waveform ≠ .any ∧ c.waveform ≠ waveform) ∨
    ∃ source ∈ sourceOf resident option, c.source ≠ .any ∧ c.source ≠ source

/-- The errors that an option gives reason for, on its own or together with the
configuration. -/
inductive Raises (option : PlainOption) : ConfigError → Prop
  | none : Raises option .none
  | invalidValue (hrange : OutOfRange option) : Raises option .invalidValue
  | unsupportedOption (havailable : Unavailable resident option) : Raises option .unsupportedOption
  | conflict (hclash : Clashes resident c option) : Raises option .conflict

/-- The option raises the error to its worst one. -/
def RaisesTo (option : PlainOption) : Prop :=
  ∃ e, IsGreatest {e | Raises resident c option e} e ∧
    (applyPlain resident c option).error = max c.error e

section Worst

variable {resident : Target} {c : Config} {option : PlainOption}

theorem raisesTo_of_clash (h : (applyPlain resident c option).error = max c.error .conflict)
    (hclash : Clashes resident c option) : RaisesTo resident c option := by
  refine ⟨_, ⟨.conflict hclash, ?_⟩, h⟩
  intro e he
  cases e <;> decide

theorem raisesTo_of_unsupported
    (happly : applyPlain resident c option = c.fail .unsupportedOption)
    (hclash : ¬Clashes resident c option) (havailable : Unavailable resident option) :
    RaisesTo resident c option := by
  refine ⟨_, ⟨.unsupportedOption havailable, ?_⟩, by rw [happly, Config.fail_eq]⟩
  intro e he
  cases he with
  | none | invalidValue | unsupportedOption => decide
  | conflict h => exact absurd h hclash

theorem raisesTo_of_invalid (happly : applyPlain resident c option = c.fail .invalidValue)
    (hclash : ¬Clashes resident c option) (havailable : ¬Unavailable resident option)
    (hrange : OutOfRange option) : RaisesTo resident c option := by
  refine ⟨_, ⟨.invalidValue hrange, ?_⟩, by rw [happly, Config.fail_eq]⟩
  intro e he
  cases he with
  | none | invalidValue => decide
  | unsupportedOption h => exact absurd h havailable
  | conflict h => exact absurd h hclash

/-- An option without objections leaves the error as it is. -/
theorem raisesTo_of_error_eq (herror : (applyPlain resident c option).error = c.error)
    (hclash : ¬Clashes resident c option) (havailable : ¬Unavailable resident option)
    (hrange : ¬OutOfRange option) : RaisesTo resident c option := by
  refine ⟨_, ⟨.none, ?_⟩, herror.trans (max_eq_left (ConfigError.none_le _)).symm⟩
  intro e he
  cases he with
  | none => exact le_rfl
  | invalidValue h => exact absurd h hrange
  | unsupportedOption h => exact absurd h havailable
  | conflict h => exact absurd h hclash

/-- An accepted value raises a conflict exactly where it contradicts the field. -/
theorem raisesTo_of_merge {α : Type} [DecidableEq α] {field unset value : α}
    {assign : Config → α → Config}
    (happly : applyPlain resident c option = mergeConstraint c field unset value assign)
    (hassign : ∀ (config : Config) (value : α), (assign config value).error = config.error)
    (hclashes : Clashes resident c option ↔ field ≠ unset ∧ field ≠ value)
    (havailable : ¬Unavailable resident option) (hrange : ¬OutOfRange option) :
    RaisesTo resident c option := by
  by_cases hclash : field ≠ unset ∧ field ≠ value
  · apply raisesTo_of_clash
    · rw [happly, mergeConstraint, hassign, if_pos hclash, Config.fail_eq]
    · exact hclashes.mpr hclash
  · apply raisesTo_of_error_eq
    · rw [happly, mergeConstraint, hassign, if_neg hclash]
    · exact fun h => hclash (hclashes.mp h)
    · exact havailable
    · exact hrange

/-- An option that some targets lack, and whose value is merged on the others. -/
theorem raisesTo_of_guarded {blocked : Prop} [Decidable blocked] {α : Type} [DecidableEq α]
    (field unset value : α) (assign : Config → α → Config)
    (happly : applyPlain resident c option =
      if blocked then c.fail .unsupportedOption else mergeConstraint c field unset value assign)
    (hassign : ∀ (config : Config) (value : α), (assign config value).error = config.error)
    (hclashes : Clashes resident c option ↔ ¬blocked ∧ field ≠ unset ∧ field ≠ value)
    (havailable : Unavailable resident option ↔ blocked) (hrange : ¬OutOfRange option) :
    RaisesTo resident c option := by
  by_cases hblocked : blocked
  · apply raisesTo_of_unsupported
    · rw [happly, if_pos hblocked]
    · exact fun hclash => (hclashes.mp hclash).1 hblocked
    · exact havailable.mpr hblocked
  · rw [if_neg hblocked] at happly
    apply raisesTo_of_merge happly hassign
    · rw [hclashes, and_iff_right hblocked]
    · exact fun h => hblocked (havailable.mp h)
    · exact hrange

end Worst

theorem raisesTo (option : PlainOption) : RaisesTo resident c option := by
  cases option with
  | frequency rate policy =>
      cases hsupported : policy.supported with
      | false =>
          apply raisesTo_of_unsupported
          · simp [applyPlain, hsupported]
          · simp [Clashes, hsupported]
          · exact hsupported
      | true =>
          by_cases hbad : rate.valid = false ∨ 1000000 < policy.ppm
          · apply raisesTo_of_invalid
            · simp [applyPlain, hsupported, hbad]
            · simp [Clashes, hsupported, hbad]
            · simp [Unavailable, hsupported]
            · exact hbad
          · have hclashes : Clashes resident c (.frequency rate policy) ↔
                (c.frequency.intersect (around rate policy.ppm)).empty = true := by
              simp [Clashes, hsupported, hbad, Clause.window]
            cases hempty : (c.frequency.intersect (around rate policy.ppm)).empty with
            | false =>
                apply raisesTo_of_error_eq
                · simp [applyPlain, hsupported, hbad, hempty]
                · simp [hclashes, hempty]
                · simp [Unavailable, hsupported]
                · exact hbad
            | true =>
                apply raisesTo_of_clash
                · simp [applyPlain, Config.fail_eq, hsupported, hbad, hempty]
                · exact hclashes.mpr hempty
  | dutyStepAtMost limit =>
      by_cases hbad : limit.valid = false ∨ limit.denominator < limit.numerator
      · apply raisesTo_of_invalid
        · simp [applyPlain, hbad]
        · simp [Clashes]
        · simp [Unavailable]
        · exact hbad
      · apply raisesTo_of_error_eq
        · simp only [applyPlain]
          rw [if_neg (by simpa using hbad)]
          split_ifs <;> rfl
        · simp [Clashes]
        · simp [Unavailable]
        · exact hbad
  | pin physical =>
      by_cases hzero : physical = 0
      · apply raisesTo_of_invalid
        · simp [applyPlain, hzero]
        · simp [Clashes, hzero]
        · simp [Unavailable]
        · exact hzero
      · have happly : applyPlain resident c (.pin physical) =
            mergeConstraint c c.pin 0 physical fun c value => { c with pin := value } :=
          if_neg hzero
        apply raisesTo_of_merge happly fun _ _ => rfl
        · simp [Clashes, hzero]
        · simp [Unavailable]
        · exact hzero
  | counterBitsAtLeast bits =>
      by_cases hzero : bits = 0
      · apply raisesTo_of_invalid
        · simp [applyPlain, hzero]
        · simp [Clashes]
        · simp [Unavailable]
        · exact hzero
      · apply raisesTo_of_error_eq
        · simp only [applyPlain]
          split_ifs <;> rfl
        · simp [Clashes]
        · simp [Unavailable]
        · exact hzero
  | requireTimer timer =>
      apply raisesTo_of_guarded c.requiredTimer 0 (timerIdentity timer)
        (fun c value => { c with requiredTimer := value }) rfl fun _ _ => rfl
      · simp [Clashes]
      · simp [Unavailable]
      · exact id
  | fastPwm =>
      apply raisesTo_of_guarded c.waveform .any .fast (fun c value => { c with waveform := value })
        rfl fun _ _ => rfl
      · simp [Clashes]
      · simp [Unavailable]
      · exact id
  | phaseCorrectPwm =>
      apply raisesTo_of_guarded c.waveform .any .phaseCorrect
        (fun c value => { c with waveform := value }) rfl fun _ _ => rfl
      · simp [Clashes]
      · simp [Unavailable]
      · exact id
  | topFromIcr =>
      apply raisesTo_of_guarded c.source .any .icr (fun c value => { c with source := value })
        rfl fun _ _ => rfl
      · simp [Clashes]
      · simp [Unavailable]
      · exact id
  | builtInTop =>
      apply raisesTo_of_guarded c.source .any .builtIn (fun c value => { c with source := value })
        rfl fun _ _ => rfl
      · simp [Clashes]
      · simp [Unavailable]
      · exact id
  | topFromOcra =>
      apply raisesTo_of_guarded c.source .any .ocra (fun c value => { c with source := value })
        rfl fun _ _ => rfl
      · simp [Clashes]
      · simp [Unavailable]
      · exact id
  | apbClock =>
      apply raisesTo_of_guarded c.source .any .apb (fun c value => { c with source := value })
        rfl fun _ _ => rfl
      · simp [Clashes]
      · simp [Unavailable]
      · exact id
  | unknown =>
      apply raisesTo_of_unsupported rfl
      · simp [Clashes]
      · exact trivial

end Step

end GrevirPeripherals.PwmAccumulation
