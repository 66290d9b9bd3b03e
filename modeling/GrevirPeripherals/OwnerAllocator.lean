import GrevirPeripherals.AllocationSearch
import GrevirPeripherals.OrderedChecks
import GrevirPeripherals.OwnerModel
import GrevirPeripherals.UnitGrouping

/-!
`grevir::timer::solve` of `owner_allocator.hpp`, phase by phase. The sort of the
standard library and the column search are parameters.
-/

namespace GrevirPeripherals.OwnerAllocator

open GrevirPeripherals.AllocationSearch
open GrevirPeripherals.OrderedChecks
open GrevirPeripherals.OwnerModel
open GrevirPeripherals.StandardSort
open GrevirPeripherals.Strings
open GrevirPeripherals.UnitGrouping

def validComponent (name : StringView) : Bool :=
  nonemptyName name

variable {Identity : Type}

/-- The check of one binding against its owner and the demands. -/
def validBinding (demands : List UseDemand) (owner : StringView) (b : UseBinding) : Bool :=
  !(b.key.owner ≠ owner || !validComponent b.key.localName || b.endpoint = 0)
    && demands.any fun demand => demand.key = b.key && demand.kind = b.kind

/-- The check of one binding against an earlier one. -/
def sharesUse (b earlier : UseBinding) : Bool :=
  b.key = earlier.key || b.endpoint = earlier.endpoint || (b.pin ≠ 0 && b.pin = earlier.pin)

def validCandidate [DecidableEq Identity] [Inhabited Identity] (demands : List UseDemand)
    (c : Candidate Identity) : Bool :=
  !(!validComponent c.owner || c.identity = default || c.timer = 0 || c.bindingCount = 0
      || c.bindings.length < c.bindingCount || c.exclusiveRoles.length < c.roleCount)
    && checkEach (validBinding demands c.owner) sharesUse [] c.liveBindings
    && checkEach (fun role => role ≠ 0) (fun role earlier => role = earlier) [] c.liveRoles

/-- The loop of `fits`: the number of demands of the owner once all are found. -/
def countMatched (c : Candidate Identity) (owner : StringView) :
    List UseDemand → Nat → Option Nat
  | [], matched => some matched
  | demand :: rest, matched =>
      if demand.key.owner ≠ owner then countMatched c owner rest matched
      else if !c.liveBindings.any fun b => b.key = demand.key && b.kind = demand.kind then none
      else countMatched c owner rest (matched + 1)

def fits (demands : List UseDemand) (c : Candidate Identity) (owner : StringView) : Bool :=
  if c.owner ≠ owner then false
  else countMatched c owner demands 0 = some c.bindingCount

/-- The values `each_resource` hands to its callback, in order. -/
def eachResource (c : Candidate Identity) : List Nat :=
  c.timer ::
    ((c.liveBindings.flatMap fun b => b.endpoint :: if b.pin ≠ 0 then [b.pin] else [])
      ++ c.liveRoles)

def compatible (a b : Candidate Identity) : Bool :=
  !(eachResource a).any fun left => (eachResource b).any fun right => left = right

/-- The loop over the reservations for one candidate. -/
def isReserved (reservations : List Nat) (c : Candidate Identity) : Bool :=
  reservations.any fun r => (eachResource c).any fun occupied => r = occupied

def checkDemand (placed : List UseDemand) (demand : UseDemand) : Except Diagnostic Unit :=
  if !validComponent demand.key.owner || !validComponent demand.key.localName then
    .error ⟨.invalidIdentity, demand.key, 0⟩
  else
    match placed.getLast? with
    | some previous =>
        if demand.key = previous.key then .error ⟨.duplicateIdentity, demand.key, 0⟩ else .ok ()
    | none => .ok ()

def checkCandidates [DecidableEq Identity] [Inhabited Identity] (demands : List UseDemand)
    (candidates : List (Candidate Identity)) : Bool :=
  checkEach (validCandidate demands) (fun c earlier => c.identity = earlier.identity) []
    candidates

/-- A unit begins where the owner differs from that of the preceding demand. -/
def groupOwners (placed : List UseDemand) : List UseDemand → Units → Units
  | [], units => units
  | demand :: rest, units =>
      let opens :=
        match placed.getLast? with
        | some previous => decide (demand.key.owner ≠ previous.key.owner)
        | none => true
      let first := if opens then units.first ++ [placed.length] else units.first
      groupOwners (placed ++ [demand]) rest ⟨units.unit ++ [first.length - 1], first⟩

/-- One row of the eligibility table and the variables of the loop that fills it. -/
structure Scan where
  row : List Bool
  any : Bool
  blocked : Nat

def scanCandidates (demands : List UseDemand) (reservations : List Nat) (owner : StringView) :
    List (Candidate Identity) → Scan → Scan
  | [], scan => scan
  | c :: rest, scan =>
      scanCandidates demands reservations owner rest <|
        if !fits demands c owner then { scan with row := scan.row ++ [false] }
        else if isReserved reservations c then
          { scan with row := scan.row ++ [false], blocked := c.timer }
        else { scan with row := scan.row ++ [true], any := true }

/-- The body of the loop over the units; `key` is that of the first demand of the unit. -/
def scanUnit (demands : List UseDemand) (reservations : List Nat)
    (candidates : List (Candidate Identity)) (key : UseKey) : Except Diagnostic (List Bool) :=
  let scan := scanCandidates demands reservations key.owner candidates ⟨[], false, 0⟩
  if !scan.any then
    .error ⟨if scan.blocked = 0 then .noCandidate else .reserved, key, scan.blocked⟩
  else .ok scan.row

/-- `p.demands[i].key`. -/
def keyAt (demands : List UseDemand) (i : Nat) : UseKey :=
  (demands.getD i default).key

section Solve

variable [LinearOrder Identity] [Inhabited Identity]

def fail (uses : List UseKey) (visited : UInt32) (diagnostic : Diagnostic) : Plan Identity where
  diagnostic := diagnostic
  uses := uses
  candidates := List.replicate uses.length default
  visited := visited

/-- Everything after the eligibility table is complete. -/
def conclude (uses : List UseKey) (candidates : List (Candidate Identity)) (units : Units)
    (answer : SearchResult) : Plan Identity :=
  if !answer.success then
    fail uses answer.visited ⟨if answer.exhausted then .exhausted else .conflict, {}, 0⟩
  else
    { diagnostic := {}
      uses := uses
      candidates := units.unit.map fun u =>
        (candidates.getD (answer.selected.getD u 0) default).identity
      visited := answer.visited }

def solve (sorter : Sorter) (search : Search) (p : Problem Identity) (budget : UInt32) :
    Plan Identity :=
  let demands := sorter.sort (byKey UseDemand.key) p.demands
  let candidates := sorter.sort candidateLess p.candidates
  let uses := demands.map UseDemand.key
  match checkInOrder checkDemand [] demands with
  | .error diagnostic => fail uses 0 diagnostic
  | .ok _ =>
      if !checkCandidates demands candidates then fail uses 0 ⟨.invalidModel, {}, 0⟩
      else
        let units := groupOwners [] demands ⟨[], []⟩
        match (List.range units.first.length).mapM fun u =>
            scanUnit demands p.reservations candidates (keyAt demands (units.first.getD u 0)) with
        | .error diagnostic => fail uses 0 diagnostic
        | .ok rows =>
            conclude uses candidates units <|
              search.run (eligibleTable demands.length candidates.length rows)
                units.first.length (admitsColumns candidates compatible) budget

end Solve

end GrevirPeripherals.OwnerAllocator
