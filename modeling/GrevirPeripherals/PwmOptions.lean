import GrevirPeripherals.OrderedChecks
import GrevirPeripherals.PwmRequirements

/-!
The option front end of `pwm/requirements.hpp`: options are applied in sequence to
a configuration, and the uses of all instances become the requests of the allocator.
-/

namespace GrevirPeripherals.PwmOptions

open GrevirPeripherals.OrderedChecks
open GrevirPeripherals.PwmFrequencyWindow
open GrevirPeripherals.PwmFrequencyWindow.FrequencyWindow
open GrevirPeripherals.PwmNumeric
open GrevirPeripherals.PwmRequirements
open GrevirPeripherals.Strings

inductive Target where
  | avr
  | atmega328p
  | esp32
deriving DecidableEq

/-- The accuracy policies of `Frequency`; any other type is unknown to `Accuracy`. -/
inductive Policy where
  | exact
  | withinPpm (ppm : UInt32)
  | unknown
deriving DecidableEq

inductive DeviceTimer where
  | timer0
  | timer1
  | timer2
  | unknown
deriving DecidableEq

/-- The options other than sections. Every type without a specialisation of `Apply`
of its own is unknown. -/
inductive PlainOption where
  | frequency (rate : Ratio) (policy : Policy)
  | dutyStepAtMost (limit : Ratio)
  | pin (physical : Nat)
  | counterBitsAtLeast (bits : Nat)
  | requireTimer (timer : DeviceTimer)
  | fastPwm
  | phaseCorrectPwm
  | topFromIcr
  | builtInTop
  | topFromOcra
  | apbClock
  | unknown
deriving DecidableEq

/-- An option of an instance or of a use. -/
inductive RequestOption where
  | plain (option : PlainOption)
  | forTarget (target : Target) (options : List RequestOption)

def matchesTarget (resident target : Target) : Bool :=
  resident = target || (resident = .atmega328p && target = .avr)

/-- `merge_constraint` on the field that `assign` writes. -/
def mergeConstraint {α : Type} [DecidableEq α] (config : Config) (field unset value : α)
    (assign : Config → α → Config) : Config :=
  assign (if field ≠ unset ∧ field ≠ value then config.fail .conflict else config) value

def Policy.supported : Policy → Bool
  | .exact => true
  | .withinPpm _ => true
  | .unknown => false

def Policy.ppm : Policy → UInt32
  | .exact => 0
  | .withinPpm ppm => ppm
  | .unknown => 0

def timerIdentity : DeviceTimer → Nat
  | .timer0 => 1
  | .timer1 => 2
  | .timer2 => 3
  | .unknown => 0

def avrWaveform (resident : Target) (waveform : Waveform) (c : Config) : Config :=
  if !matchesTarget resident .avr then c.fail .unsupportedOption
  else mergeConstraint c c.waveform .any waveform fun c value => { c with waveform := value }

def avrSource (resident : Target) (source : Source) (c : Config) : Config :=
  if !matchesTarget resident .avr then c.fail .unsupportedOption
  else mergeConstraint c c.source .any source fun c value => { c with source := value }

/-- `Apply<Resident, Option>::run` for an option that is no section. -/
def applyPlain (resident : Target) (c : Config) : PlainOption → Config
  | .frequency raw policy =>
      if !policy.supported then c.fail .unsupportedOption
      else if !raw.valid || 1000000 < policy.ppm then c.fail .invalidValue
      else
        let c := { c with frequency := c.frequency.intersect (around raw policy.ppm) }
        if c.frequency.empty then c.fail .conflict else c
  | .dutyStepAtMost raw =>
      if !raw.valid || raw.denominator < raw.numerator then c.fail .invalidValue
      else if c.step.numerator = 0 || atMost raw c.step then { c with step := raw.normalized }
      else c
  | .pin physical =>
      if physical = 0 then c.fail .invalidValue
      else mergeConstraint c c.pin 0 physical fun c value => { c with pin := value }
  | .counterBitsAtLeast bits =>
      if bits = 0 then c.fail .invalidValue
      else if c.counterBitsAtLeast < bits then { c with counterBitsAtLeast := bits }
      else c
  | .requireTimer timer =>
      if resident ≠ .atmega328p || timerIdentity timer = 0 then c.fail .unsupportedOption
      else
        mergeConstraint c c.requiredTimer 0 (timerIdentity timer) fun c value =>
          { c with requiredTimer := value }
  | .fastPwm => avrWaveform resident .fast c
  | .phaseCorrectPwm => avrWaveform resident .phaseCorrect c
  | .topFromIcr => avrSource resident .icr c
  | .builtInTop => avrSource resident .builtIn c
  | .topFromOcra => avrSource resident .ocra c
  | .apbClock =>
      if resident ≠ .esp32 then c.fail .unsupportedOption
      else mergeConstraint c c.source .any .apb fun c value => { c with source := value }
  | .unknown => c.fail .unsupportedOption

mutual

/-- `Apply<Resident, Option>::run`; a section for another target stays inert. -/
def apply (resident : Target) : RequestOption → Config → Config
  | .plain option, c => applyPlain resident c option
  | .forTarget target options, c =>
      if matchesTarget resident target then applyAll resident options c else c

def applyAll (resident : Target) : List RequestOption → Config → Config
  | [], c => c
  | option :: options, c => applyAll resident options (apply resident option c)

end

/-- `PwmRequest<Name, Options...>`. -/
structure PwmRequest where
  name : StringView
  options : List RequestOption

/-- What an instance is made of: uses, and options that apply to all of them. -/
inductive Item where
  | use (use : PwmRequest)
  | option (option : RequestOption)

structure Instance where
  name : StringView
  items : List Item

def Instance.uses (i : Instance) : List PwmRequest :=
  i.items.filterMap fun
    | .use use => some use
    | .option _ => none

def Instance.options (i : Instance) : List RequestOption :=
  i.items.filterMap fun
    | .use _ => none
    | .option option => some option

def keyOf (i : Instance) (use : PwmRequest) : Key where
  instanceName := i.name
  localName := use.name

def request (resident : Target) (i : Instance) (use : PwmRequest) : Request :=
  let config := applyAll resident use.options (applyAll resident i.options {})
  { key := keyOf i use
    config :=
      if !config.frequency.valid || !config.step.valid || config.pin = 0 then
        config.fail .invalidValue
      else config }

/-- The requests with their keys only. -/
def identities (instances : List Instance) : List Request :=
  instances.flatMap fun i => i.uses.map fun use => { key := keyOf i use }

def validIdentities (values : List Request) : Bool :=
  checkEach (fun r => identifier r.key.instanceName && identifier r.key.localName)
    (fun r earlier => r.key = earlier.key) [] values

def requests (resident : Target) (instances : List Instance) : List Request :=
  if validIdentities (identities instances) then
    instances.flatMap fun i => i.uses.map (request resident i)
  else identities instances

end GrevirPeripherals.PwmOptions
