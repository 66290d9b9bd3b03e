import GrevirPeripherals.PwmFrequencyWindow
import GrevirPeripherals.Strings
import Mathlib.Data.Prod.Lex

/-!
The requests of the PWM allocator: who asks, and with which configuration.
-/

namespace GrevirPeripherals.PwmRequirements

open GrevirPeripherals.PwmFrequencyWindow
open GrevirPeripherals.PwmNumeric
open GrevirPeripherals.Strings

structure Key where
  instanceName : StringView := []
  localName : StringView := []

/-- The member-wise comparison of `operator<=>`. -/
def Key.members (key : Key) : StringView ×ₗ StringView :=
  toLex (key.instanceName, key.localName)

theorem Key.members_injective : Function.Injective Key.members := by
  rintro ⟨instanceName, localName⟩ ⟨instanceName', localName'⟩ h
  simpa [members] using h

instance : LinearOrder Key :=
  LinearOrder.lift' Key.members Key.members_injective

def identifier (value : StringView) : Bool :=
  nonemptyName value

inductive Waveform where
  | any
  | fast
  | phaseCorrect
deriving DecidableEq

inductive Source where
  | any
  | icr
  | apb
  | builtIn
  | ocra
deriving DecidableEq

inductive ConfigError where
  | none
  | invalidValue
  | unsupportedOption
  | conflict
deriving DecidableEq

/-- The conversion of an error to `unsigned`. -/
def ConfigError.code : ConfigError → Nat
  | .none => 0
  | .invalidValue => 1
  | .unsupportedOption => 2
  | .conflict => 3

theorem ConfigError.code_injective : Function.Injective ConfigError.code := by
  intro a b h
  cases a <;> cases b <;> simp_all [code]

/-- Enumerators compare by their values. -/
instance : LinearOrder ConfigError :=
  LinearOrder.lift' ConfigError.code ConfigError.code_injective

theorem ConfigError.none_le (e : ConfigError) : .none ≤ e := by
  cases e <;> decide

structure Config where
  frequency : FrequencyWindow := {}
  step : Ratio := {}
  pin : Nat := 0
  waveform : Waveform := .any
  source : Source := .any
  requiredTimer : Nat := 0
  counterBitsAtLeast : Nat := 0
  error : ConfigError := .none
deriving DecidableEq

/-- The worst error is kept, whatever order the options come in. -/
def Config.fail (config : Config) (value : ConfigError) : Config :=
  if config.error < value then { config with error := value } else config

theorem Config.fail_eq (config : Config) (value : ConfigError) :
    config.fail value = { config with error := max config.error value } := by
  rw [fail]
  split_ifs with hlt
  · rw [max_eq_right hlt.le]
  · rw [max_eq_left (not_lt.mp hlt)]

structure Request where
  key : Key
  config : Config := {}
deriving DecidableEq

instance : Inhabited Request :=
  ⟨{ key := {} }⟩

end GrevirPeripherals.PwmRequirements
