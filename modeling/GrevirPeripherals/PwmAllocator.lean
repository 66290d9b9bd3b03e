import GrevirPeripherals.AllocationSearch
import GrevirPeripherals.PwmValidation
import GrevirPeripherals.UnitGrouping

/-!
`grevir::pwm::solve` of `allocator.hpp`, phase by phase. The sort of the standard
library and the column search are parameters.
-/

namespace GrevirPeripherals.PwmAllocator

open GrevirPeripherals.AllocationSearch
open GrevirPeripherals.PwmFrequencyWindow
open GrevirPeripherals.PwmModel
open GrevirPeripherals.PwmNumeric
open GrevirPeripherals.PwmRequirements
open GrevirPeripherals.PwmValidation
open GrevirPeripherals.StandardSort
open GrevirPeripherals.UnitGrouping

def checkIdentity (requests : List Request) (r : Request) : Except Diagnostic Unit :=
  if !identifier r.key.instanceName || !identifier r.key.localName then
    .error ⟨.invalidIdentity, r.key, 0⟩
  else
    let count := requests.countP fun other => other.key = r.key
    if 1 < count then .error ⟨.duplicateIdentity, r.key, count⟩ else .ok ()

def checkRequest (r : Request) : Except Diagnostic Unit :=
  if r.config.error ≠ .none then .error ⟨.invalidRequest, r.key, r.config.error.code⟩
  else if !r.config.frequency.valid || !r.config.step.valid || !atMost r.config.step ⟨1, 1⟩
      || r.config.pin = 0 then .error ⟨.invalidRequest, r.key, 0⟩
  else if r.config.frequency.empty then
    .error ⟨.invalidRequest, r.key, ConfigError.conflict.code⟩
  else .ok ()

def checkPin (resources : List Resource) (r : Request) : Except Diagnostic Unit :=
  match resource resources r.config.pin with
  | none => .error ⟨.modelError, r.key, 0⟩
  | some pin => if pin.kind ≠ .pin then .error ⟨.modelError, r.key, 0⟩ else .ok ()

/-- A request joins the unit of the first earlier request of its instance. -/
def groupUnits (placed : List Request) : List Request → Units → Units
  | [], units => units
  | r :: rest, units =>
      groupUnits (placed ++ [r]) rest <|
        match placed.findIdx? fun earlier => earlier.key.instanceName = r.key.instanceName with
        | some j => { units with unit := units.unit ++ [units.unit.getD j 0] }
        | none => ⟨units.unit ++ [units.first.length], units.first ++ [placed.length]⟩

/-- The condition under which an endpoint does not serve the request at its position. -/
def mismatch (c : Candidate) (r : Request) (e : Endpoint) : Bool :=
  e.request ≠ r.key || e.pin ≠ r.config.pin
    || !r.config.frequency.contains c.frequency
    || !atMost e.step r.config.step
    || (r.config.requiredTimer ≠ 0 && r.config.requiredTimer ≠ c.timer)
    || c.counterBits < r.config.counterBitsAtLeast
    || (r.config.waveform ≠ .any && r.config.waveform ≠ c.waveform)
    || (r.config.source ≠ .any && r.config.source ≠ c.source)

/-- The loop of `fits` over the requests and their units; `members` counts the
requests of the unit so far. -/
def fitsFrom (c : Candidate) (u : Nat) : List (Request × Nat) → Nat → Bool
  | [], members => members = c.count && (members = 1 || c.independentDuties)
  | (r, unit) :: rest, members =>
      if unit = u then
        if members = c.count then false
        else if mismatch c r (c.endpoints.getD members default) then false
        else fitsFrom c u rest (members + 1)
      else fitsFrom c u rest members

def fits (requests : List Request) (units : Units) (c : Candidate) (u : Nat) : Bool :=
  fitsFrom c u (requests.zip units.unit) 0

/-- One row of the eligibility table and the variables of the loop that fills it. -/
structure Scan where
  row : List Bool
  any : Bool
  blocker : Nat

/-- The loop over the candidates; `previous` is the one before the current. -/
def scanCandidates (fits : Candidate → Bool) (reservedBy : Candidate → Nat)
    (previous : Option Candidate) : List Candidate → Scan → Scan
  | [], scan => scan
  | c :: rest, scan =>
      scanCandidates fits reservedBy (some c) rest <|
        if previous = some c then { scan with row := scan.row ++ [false] }
        else if fits c then
          let reservation := reservedBy c
          if reservation ≠ 0 then
            { scan with
              row := scan.row ++ [false]
              blocker :=
                if scan.blocker = 0 || reservation < scan.blocker then reservation
                else scan.blocker }
          else { scan with row := scan.row ++ [true], any := true }
        else { scan with row := scan.row ++ [false] }

/-- The body of the loop over the units; `key` is that of the first request of the unit. -/
def scanUnit (fits : Candidate → Bool) (reservedBy : Candidate → Nat)
    (candidates : List Candidate) (key : Key) : Except Diagnostic (List Bool) :=
  let scan := scanCandidates fits reservedBy none candidates ⟨[], false, 0⟩
  if !scan.any then
    .error ⟨if scan.blocker = 0 then .noCandidate else .reserved, key, scan.blocker⟩
  else .ok scan.row

/-- `p.requests[i].key`. -/
def keyAt (requests : List Request) (i : Nat) : Key :=
  (requests.getD i default).key

def fail (requests : List Key) (visited : UInt32) (diagnostic : Diagnostic) : Plan where
  diagnostic := diagnostic
  requests := requests
  candidates := List.replicate requests.length 0
  visited := visited

/-- Everything after the eligibility table is complete. -/
def conclude (requests : List Key) (candidates : List Candidate) (units : Units)
    (answer : SearchResult) : Plan :=
  if !answer.success then
    fail requests answer.visited ⟨if answer.exhausted then .exhausted else .conflict, {}, 0⟩
  else
    { diagnostic := {}
      requests := requests
      candidates := units.unit.map fun u =>
        (candidates.getD (answer.selected.getD u 0) default).key
      visited := answer.visited }

/-- The units, the eligibility table and the search on a normalised problem. -/
def allocate (search : Search) (p : Problem) (budget : UInt32) : Plan :=
  let keys := p.requests.map Request.key
  let units := groupUnits [] p.requests ⟨[], []⟩
  match (List.range units.first.length).mapM fun u =>
      scanUnit (fun c => fits p.requests units c u) (reservedBy p.resources p.reservations)
        p.candidates (keyAt p.requests (units.first.getD u 0)) with
  | .error diagnostic => fail keys 0 diagnostic
  | .ok rows =>
      conclude keys p.candidates units <|
        search.run (eligibleTable p.requests.length p.candidates.length rows)
          units.first.length (admitsColumns p.candidates (compatible p.resources)) budget

def solve (sorter : Sorter) (search : Search) (p : Problem) (budget : UInt32) : Plan :=
  let requests := sorter.sort (byKey Request.key) p.requests
  let keys := requests.map Request.key
  match requests.mapM (checkIdentity requests) with
  | .error diagnostic => fail keys 0 diagnostic
  | .ok _ =>
      match requests.mapM checkRequest with
      | .error diagnostic => fail keys 0 diagnostic
      | .ok _ =>
          match normalizeModel sorter { p with requests := requests } with
          | none => fail keys 0 ⟨.modelError, {}, 0⟩
          | some normal =>
              match requests.mapM (checkPin normal.resources) with
              | .error diagnostic => fail keys 0 diagnostic
              | .ok _ => allocate search normal budget

end GrevirPeripherals.PwmAllocator
