import GrevirPeripherals.OrderedChecks
import GrevirPeripherals.PwmModel
import GrevirPeripherals.StandardSort

/-!
The functions of `validation.hpp`: the candidate order, the check of a model that
brings it to normal form, and the two conflict tests.
-/

namespace GrevirPeripherals.PwmValidation

open GrevirPeripherals.OrderedChecks
open GrevirPeripherals.PwmModel
open GrevirPeripherals.PwmNumeric
open GrevirPeripherals.PwmRequirements
open GrevirPeripherals.StandardSort

/-- The tuple by which `candidate_less` compares two endpoints. -/
def endpointKey (e : Endpoint) : Key ×ₗ Nat ×ₗ Nat :=
  toLex (e.request, toLex (e.channel, e.pin))

/-- The loop over the positions both candidates use. -/
def firstDifference : List Endpoint → List Endpoint → Option Bool
  | x :: xs, y :: ys =>
      if endpointKey x ≠ endpointKey y then some (decide (endpointKey x < endpointKey y))
      else firstDifference xs ys
  | _, _ => none

def candidateLess (a b : Candidate) : Bool :=
  if order a ≠ order b then decide (order a < order b)
  else
    match firstDifference a.liveEndpoints b.liveEndpoints with
    | some result => result
    | none => decide (toLex (a.count, a.key) < toLex (b.count, b.key))

def isKind (resources : List Resource) (id : Nat) (kind : Kind) : Bool :=
  match resource resources id with
  | some r => r.kind = kind
  | none => false

def validResource (resources : List Resource) (r : Resource) : Bool :=
  r.id ≠ 0 && resources.countP (fun other => r.id = other.id) = 1
    && if r.kind = .channel then isKind resources r.parent .timer else decide (r.parent = 0)

def validReservations (resources : List Resource) (reservations : List Nat) : Bool :=
  reservations.all (fun reserved => (resource resources reserved).isSome)
    && checkEach (fun _ => true) (overlaps resources) [] reservations

/-- The checks of a candidate that do not concern its endpoints. -/
def validHeader (resources : List Resource) (c : Candidate) : Bool :=
  !(c.key = 0 || c.configuration = 0 || !isKind resources c.timer .timer || c.counterBits = 0
      || !c.frequency.positive || c.count = 0 || c.endpoints.length < c.count)
    && !(c.domain ≠ 0 && (!isKind resources c.domain .domain || c.setting = 0))
    && !(c.domain = 0 && c.setting ≠ 0)

def validEndpoint (resources : List Resource) (requests : List Request) (timer : Nat)
    (e : Endpoint) : Bool :=
  !(!isKind resources e.channel .channel || !isKind resources e.pin .pin
      || !descendant resources e.channel timer || !e.step.valid || !atMost e.step ⟨1, 1⟩)
    && requests.any fun request => request.key = e.request

/-- The comparison of an endpoint with an earlier one. -/
def sharesMember (e earlier : Endpoint) : Bool :=
  e.request = earlier.request || e.channel = earlier.channel || e.pin = earlier.pin

/-- The loop over the sorted endpoints, which reduces each step once it is checked. -/
def normalizeEndpoints (resources : List Resource) (requests : List Request) (timer : Nat)
    (placed : List Endpoint) : List Endpoint → Option (List Endpoint)
  | [] => some placed
  | e :: rest =>
      if !validEndpoint resources requests timer e then none
      else
        let e := { e with step := e.step.normalized }
        if placed.any (sharesMember e) then none
        else normalizeEndpoints resources requests timer (placed ++ [e]) rest

def normalizeCandidate (sorter : Sorter) (resources : List Resource) (requests : List Request)
    (c : Candidate) : Option Candidate :=
  if !validHeader resources c then none
  else
    match normalizeEndpoints resources requests c.timer []
        (sorter.sort (byKey Endpoint.request) c.liveEndpoints) with
    | none => none
    | some endpoints =>
        some { c with
          frequency := c.frequency.normalized
          endpoints := endpoints ++ List.replicate (c.endpoints.length - c.count) {} }

/-- The comparison of two normalised candidates with one key or one configuration. -/
def consistent (a b : Candidate) : Bool :=
  !(a.key = b.key && a ≠ b)
    && !(a.timer = b.timer && a.configuration = b.configuration
      && (a.frequency ≠ b.frequency || a.waveform ≠ b.waveform || a.source ≠ b.source
        || a.domain ≠ b.domain || a.setting ≠ b.setting || a.counterBits ≠ b.counterBits))

/-- `none` stands for the result `false`, after which the model is not used. -/
def normalizeModel (sorter : Sorter) (p : Problem) : Option Problem :=
  if !p.resources.all (validResource p.resources) then none
  else if !validReservations p.resources p.reservations then none
  else
    match p.candidates.mapM (normalizeCandidate sorter p.resources p.requests) with
    | none => none
    | some candidates =>
        if !candidates.all (fun a => candidates.all (consistent a)) then none
        else some { p with candidates := sorter.sort candidateLess candidates }

/-- The condition under which a reservation rules out a candidate. -/
def blocks (resources : List Resource) (c : Candidate) (r : Nat) : Bool :=
  overlaps resources r c.timer || overlaps resources r c.domain
    || c.liveEndpoints.any fun e => overlaps resources r e.pin || overlaps resources r e.channel

/-- The loop over the reservations; `lowest` is its accumulator. -/
def lowestBlocking (resources : List Resource) (c : Candidate) : List Nat → Nat → Nat
  | [], lowest => lowest
  | r :: rest, lowest =>
      lowestBlocking resources c rest
        (if blocks resources c r && (lowest = 0 || r < lowest) then r else lowest)

def reservedBy (resources : List Resource) (reservations : List Nat) (c : Candidate) : Nat :=
  lowestBlocking resources c reservations 0

def compatible (resources : List Resource) (a b : Candidate) : Bool :=
  if overlaps resources a.timer b.timer then false
  else if a.domain ≠ 0 && a.domain = b.domain && a.setting ≠ b.setting then false
  else
    !a.liveEndpoints.any fun x => b.liveEndpoints.any fun y =>
      overlaps resources x.pin y.pin || overlaps resources x.channel y.channel

end GrevirPeripherals.PwmValidation
