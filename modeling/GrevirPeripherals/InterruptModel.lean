import GrevirPeripherals.StandardSort
import GrevirPeripherals.Strings

/-!
The data of the interrupt-timer solver. Event identities come from another
package; the solver compares them with `==` and `<` only, so they range over an
arbitrary linear order with a default value.
-/

namespace GrevirPeripherals.InterruptModel

open GrevirPeripherals.StandardSort
open GrevirPeripherals.Strings

structure Request (Event : Type) where
  event : Event
  pwmRequired : Bool := false

structure Candidate (Event : Type) where
  request : Event
  configuration : StringView := []
  timer : StringView := []
  owner : StringView := []
  source : StringView := []
  selector : StringView := []
  entry : StringView := []
  snapshotPolicy : StringView := []
  acknowledgePolicy : StringView := []
  preference : Nat := 0
  pwm : Bool := false
  periodEvent : Bool := false
  reserved : Bool := false
deriving DecidableEq

instance {Event : Type} [Inhabited Event] : Inhabited (Candidate Event) :=
  ⟨{ request := default }⟩

inductive Error where
  | none
  | invalidModel
  | duplicateRequest
  | duplicateCandidate
  | noCandidate
  | conflict
  | exhausted
deriving DecidableEq

/-- The arrays of a `Problem<R, C>`; `R` and `C` are their lengths. -/
structure Problem (Event : Type) where
  requests : List (Request Event)
  candidates : List (Candidate Event)

/-- The keys of the active interrupt demands, of which the first `count` are live. -/
structure DemandSummary (Event : Type) where
  keys : List Event
  count : Nat

/-- `keys[0..count)`. -/
def DemandSummary.live {Event : Type} (demands : DemandSummary Event) : List Event :=
  demands.keys.take demands.count

/-- One entry of the emitted plan. The solver writes `0` and `false` to its last
two fields, whose names are not visible in this package. -/
structure Binding (Event : Type) where
  event : Event
  owner : StringView := []
  configuration : StringView := []
  source : StringView := []
  selector : StringView := []
  entry : StringView := []
  snapshotPolicy : StringView := []
  acknowledgePolicy : StringView := []
  trailingNumber : Nat := 0
  trailingFlag : Bool := false
deriving DecidableEq

instance {Event : Type} [Inhabited Event] : Inhabited (Binding Event) :=
  ⟨{ event := default }⟩

structure SelectedPlan (Event : Type) where
  bindings : List (Binding Event)
  count : Nat
  allocationOk : Bool
  searchExhausted : Bool
deriving DecidableEq

/-- The value-initialised plan with room for `size` bindings. -/
def SelectedPlan.empty {Event : Type} [Inhabited Event] (size : Nat) : SelectedPlan Event where
  bindings := List.replicate size default
  count := 0
  allocationOk := false
  searchExhausted := false

structure Solution (Event : Type) where
  error : Error
  interrupts : SelectedPlan Event
  configurations : List StringView
  visited : UInt32
deriving DecidableEq

/-- The value-initialised solution for `size` requests. -/
def Solution.initial {Event : Type} [Inhabited Event] (size : Nat) : Solution Event where
  error := .none
  interrupts := SelectedPlan.empty size
  configurations := List.replicate size []
  visited := 0

section Order

variable {Event : Type}

/-- The fields `less` compares, in the order of their weight. -/
def sortKey (a : Candidate Event) : Event ×ₗ Nat ×ₗ StringView ×ₗ StringView :=
  toLex (a.request, toLex (a.preference, toLex (a.timer, a.configuration)))

theorem sortKey_eq_iff (a b : Candidate Event) :
    sortKey a = sortKey b ↔
      a.request = b.request ∧ a.preference = b.preference ∧ a.timer = b.timer ∧
        a.configuration = b.configuration := by
  simp [sortKey]

variable [LinearOrder Event]

/-- The candidate order of the solver. -/
def less (a b : Candidate Event) : Bool :=
  if a.request ≠ b.request then a.request < b.request
  else if a.preference ≠ b.preference then a.preference < b.preference
  else if a.timer ≠ b.timer then a.timer < b.timer
  else a.configuration < b.configuration

theorem less_eq_byKey : (less : Candidate Event → Candidate Event → Bool) = byKey sortKey := by
  funext a b
  rw [Bool.eq_iff_iff, byKey_eq_true_iff]
  simp only [less, sortKey, Prod.Lex.toLex_lt_toLex]
  split_ifs with hrequest hpreference htimer <;> simp_all

end Order

end GrevirPeripherals.InterruptModel
