import GrevirPeripherals.PwmRequirements

/-!
The hardware model of the PWM allocator: a tree of resources, and candidates
that each configure one timer.
-/

namespace GrevirPeripherals.PwmModel

open GrevirPeripherals.PwmNumeric
open GrevirPeripherals.PwmRequirements

inductive Kind where
  | timer
  | channel
  | pin
  | domain
deriving DecidableEq

structure Resource where
  id : Nat
  parent : Nat
  kind : Kind
deriving DecidableEq

structure Endpoint where
  request : Key := {}
  channel : Nat := 0
  pin : Nat := 0
  step : Ratio := {}
deriving DecidableEq

instance : Inhabited Endpoint :=
  ⟨{}⟩

/-- `endpoints` is the array of a candidate, of which the first `count` entries are live. -/
structure Candidate where
  key : Nat := 0
  preference : Nat := 0
  timer : Nat := 0
  counterBits : Nat := 0
  configuration : Nat := 0
  frequency : Ratio := {}
  waveform : Waveform := .any
  source : Source := .any
  endpoints : List Endpoint := List.replicate 4 {}
  count : Nat := 0
  domain : Nat := 0
  setting : Nat := 0
  independentDuties : Bool := true
deriving DecidableEq

instance : Inhabited Candidate :=
  ⟨{}⟩

/-- `endpoints[0..count)`. -/
def Candidate.liveEndpoints (c : Candidate) : List Endpoint :=
  c.endpoints.take c.count

inductive Status where
  | success
  | invalidIdentity
  | duplicateIdentity
  | invalidRequest
  | modelError
  | noCandidate
  | reserved
  | conflict
  | exhausted
deriving DecidableEq

structure Diagnostic where
  status : Status := .success
  request : Key := {}
  detail : Nat := 0
deriving DecidableEq

structure Plan where
  diagnostic : Diagnostic
  requests : List Key
  candidates : List Nat
  visited : UInt32
deriving DecidableEq

def Plan.ok (plan : Plan) : Bool :=
  plan.diagnostic.status = .success

/-- The arrays of a `Problem<R, C, H, B>`; `R`, `C`, `H` and `B` are their lengths. -/
structure Problem where
  requests : List Request
  candidates : List Candidate
  resources : List Resource
  reservations : List Nat

/-- The first resource with the given identity. -/
def resource (resources : List Resource) (id : Nat) : Option Resource :=
  resources.find? fun r => r.id = id

/-- The loop of `descendant`, whose counter bounds the steps on malformed input. -/
def descendantWithin (resources : List Resource) (ancestor : Nat) : Nat → Nat → Bool
  | 0, _ => false
  | steps + 1, child =>
      if child = 0 then false
      else if child = ancestor then true
      else
        match resource resources child with
        | none => false
        | some r => descendantWithin resources ancestor steps r.parent

def descendant (resources : List Resource) (child ancestor : Nat) : Bool :=
  descendantWithin resources ancestor (resources.length + 1) child

def overlaps (resources : List Resource) (a b : Nat) : Bool :=
  a ≠ 0 && b ≠ 0 && (descendant resources a b || descendant resources b a)

def order (c : Candidate) : Nat ×ₗ Nat ×ₗ Nat :=
  toLex (c.preference, toLex (c.timer, c.configuration))

end GrevirPeripherals.PwmModel
