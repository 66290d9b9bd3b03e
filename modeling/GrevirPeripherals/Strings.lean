import Mathlib.Data.List.Lex
import Mathlib.Order.Fin.Basic

namespace GrevirPeripherals.Strings

/-- A `std::string_view` is the sequence of its bytes. Its `<` compares them as
unsigned values from the left, as the order of lists does. -/
abbrev StringView := List (Fin 256)

/-- The bytes of an ASCII literal. -/
def text (literal : String) : StringView :=
  literal.toList.map fun c => Fin.ofNat 256 c.toNat

/-- A letter, a digit or an underscore. -/
def nameByte (c : Fin 256) : Bool :=
  (97 ≤ c && c ≤ 122) || (65 ≤ c && c ≤ 90) || (48 ≤ c && c ≤ 57) || c == 95

/-- The common body of `pwm::identifier` and `timer::valid_component`. -/
def nonemptyName (value : StringView) : Bool :=
  !value.isEmpty && value.all nameByte

example : nonemptyName (text "Timer_1") = true := by decide

end GrevirPeripherals.Strings
