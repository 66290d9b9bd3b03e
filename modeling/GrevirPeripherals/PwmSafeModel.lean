import GrevirPeripherals.PwmSafeArithmetic
import GrevirPeripherals.PwmSolution

/-!
The model check and the two conflict tests of the PWM allocator with every index, every
division and every sort checked. The check runs through on any model, and the conflict
tests run through on the candidates that it leaves.
-/

namespace GrevirPeripherals.PwmSafeModel

open GrevirPeripherals.CheckedExecution
open GrevirPeripherals.OrderedChecks
open GrevirPeripherals.PwmCandidateOrder
open GrevirPeripherals.PwmModel
open GrevirPeripherals.PwmNormalForm
open GrevirPeripherals.PwmNumeric
open GrevirPeripherals.PwmRequirements
open GrevirPeripherals.PwmSafeArithmetic
open GrevirPeripherals.PwmUnits
open GrevirPeripherals.PwmValidation
open GrevirPeripherals.StandardSort

section CandidateOrder

/-- The loop of `candidate_less` from the position `i` on. -/
def firstDifferenceChecked (a b : List Endpoint) : Nat → Nat → Checked (Option Bool)
  | _, 0 => .ok none
  | i, remaining + 1 => do
      let x ← readAt a i
      let y ← readAt b i
      if endpointKey x ≠ endpointKey y then
        return some (decide (endpointKey x < endpointKey y))
      else firstDifferenceChecked a b (i + 1) remaining

def candidateLessChecked (a b : Candidate) : Checked Bool := do
  if order a ≠ order b then return decide (order a < order b)
  else
    match ← firstDifferenceChecked a.endpoints b.endpoints 0 (min a.count b.count) with
    | some result => return result
    | none => return decide (toLex (a.count, a.key) < toLex (b.count, b.key))

theorem firstDifferenceChecked_eq {a b : List Endpoint} {i remaining : Nat}
    (ha : i + remaining ≤ a.length) (hb : i + remaining ≤ b.length) :
    firstDifferenceChecked a b i remaining =
      .ok (firstDifference ((a.drop i).take remaining) ((b.drop i).take remaining)) := by
  induction remaining generalizing i with
  | zero => rfl
  | succ remaining ih =>
      have hia : i < a.length := by omega
      have hib : i < b.length := by omega
      rw [firstDifferenceChecked, readAt_eq_ok hia, ok_bind, readAt_eq_ok hib, ok_bind,
        ih (by omega) (by omega), List.drop_eq_getElem_cons hia, List.drop_eq_getElem_cons hib,
        List.take_succ_cons, List.take_succ_cons, firstDifference]
      split_ifs <;> rfl

/-- Positions that only one of the arrays has do not count. -/
theorem firstDifference_take (l m : List Endpoint) :
    firstDifference (l.take (min l.length m.length)) (m.take (min l.length m.length)) =
      firstDifference l m := by
  induction l generalizing m with
  | nil => simp [firstDifference]
  | cons x xs ih =>
      cases m with
      | nil => simp [firstDifference]
      | cons y ys =>
          rw [List.length_cons, List.length_cons, Nat.succ_min_succ, List.take_succ_cons,
            List.take_succ_cons, firstDifference, firstDifference, ih]

theorem candidateLessChecked_eq {a b : Candidate} (ha : a.count ≤ a.endpoints.length)
    (hb : b.count ≤ b.endpoints.length) :
    candidateLessChecked a b = .ok (candidateLess a b) := by
  have hfirst : firstDifferenceChecked a.endpoints b.endpoints 0 (min a.count b.count) =
      .ok (firstDifference a.liveEndpoints b.liveEndpoints) := by
    have htake := firstDifference_take a.liveEndpoints b.liveEndpoints
    rw [length_liveEndpoints ha, length_liveEndpoints hb, Candidate.liveEndpoints,
      Candidate.liveEndpoints, List.take_take, List.take_take,
      Nat.min_eq_left (Nat.min_le_left _ _), Nat.min_eq_left (Nat.min_le_right _ _)] at htake
    rw [firstDifferenceChecked_eq (by omega) (by omega), List.drop_zero, List.drop_zero, htake]
    rfl
  rw [candidateLessChecked, candidateLess, hfirst, ok_bind]
  split_ifs with horder
  · rfl
  · cases firstDifference a.liveEndpoints b.liveEndpoints <;> rfl

/-- A sort by the candidate order is sound where equal keys mean equal candidates. -/
theorem sortBy_candidateLessChecked (sorter : Sorter) {candidates : List Candidate}
    (hcount : ∀ c ∈ candidates, c.count ≤ c.endpoints.length)
    (hkey : ∀ a ∈ candidates, ∀ b ∈ candidates, a.key = b.key → a = b) :
    sortBy sorter candidateLessChecked candidates =
      .ok (sorter.sort candidateLess candidates) := by
  apply sortBy_eq_ok sorter candidateKey
  · exact fun a ha b hb => candidateLessChecked_eq (hcount a ha) (hcount b hb)
  · exact fun a ha b hb => candidateLess_eq_byKey (hcount a ha) (hcount b hb)
  · exact fun a ha b hb h => hkey a ha b hb (key_eq_of_candidateKey_eq h)

end CandidateOrder

section Endpoints

variable (resources : List Resource) (requests : List Request) (timer : Nat)

def validEndpointChecked (e : Endpoint) : Checked Bool := do
  if !isKind resources e.channel .channel || !isKind resources e.pin .pin
      || !descendant resources e.channel timer || !e.step.valid then return false
  else
    let bounded ← atMostChecked e.step { numerator := 1, denominator := 1 }
    if !bounded then return false
    else return requests.any fun request => request.key = e.request

theorem validEndpointChecked_eq (e : Endpoint) :
    validEndpointChecked resources requests timer e =
      .ok (validEndpoint resources requests timer e) := by
  rw [validEndpointChecked, validEndpoint, atMostChecked_eq, ok_bind]
  cases isKind resources e.channel .channel <;> cases isKind resources e.pin .pin <;>
    cases descendant resources e.channel timer <;> cases e.step.valid <;>
      cases atMost e.step { numerator := 1, denominator := 1 } <;> rfl

/-- The loop over `endpoints[0..count)` from `i` on. -/
def normalizeEndpointsChecked : Nat → Nat → List Endpoint → Checked (Option (List Endpoint))
  | _, 0, endpoints => .ok (some endpoints)
  | i, remaining + 1, endpoints => do
      let e ← readAt endpoints i
      let valid ← validEndpointChecked resources requests timer e
      if !valid then return none
      else
        let step ← normalizedChecked e.step
        let e := { e with step := step }
        let endpoints ← writeAt endpoints i e
        let shares ← anyBelow endpoints i fun earlier => .ok (sharesMember e earlier)
        if shares then return none
        else normalizeEndpointsChecked (i + 1) remaining endpoints

theorem normalizeEndpointsChecked_eq (placed rest tail : List Endpoint) :
    normalizeEndpointsChecked resources requests timer placed.length rest.length
        (placed ++ (rest ++ tail)) =
      .ok ((normalizeEndpoints resources requests timer placed rest).map (· ++ tail)) := by
  induction rest generalizing placed with
  | nil => rfl
  | cons e rest ih =>
      rw [List.length_cons, List.cons_append, normalizeEndpointsChecked, readAt_length,
        ok_bind, validEndpointChecked_eq, ok_bind, normalizeEndpoints]
      cases hvalid : validEndpoint resources requests timer e with
      | false => rfl
      | true =>
          have hstep := ((validEndpoint_eq_true_iff _ _ _ _).mp hvalid).2.2.2.1
          have hrest := ih (placed ++ [{ e with step := e.step.normalized }])
          rw [List.length_append, List.length_singleton, List.append_assoc,
            List.singleton_append] at hrest
          have hany : anyBelow (placed ++ { e with step := e.step.normalized } :: (rest ++ tail))
              placed.length (fun earlier =>
                .ok (sharesMember { e with step := e.step.normalized } earlier)) =
              .ok (placed.any (sharesMember { e with step := e.step.normalized })) := by
            rw [anyBelow_eq_ok (g := sharesMember { e with step := e.step.normalized })
              (by simp) (fun _ _ => rfl), List.take_left]
          simp only [Bool.not_true, Bool.false_eq_true, if_false,
            normalizedChecked_eq (Ratio.positive_of_valid hstep), ok_bind, writeAt_length, hany,
            hrest]
          split_ifs <;> rfl

/-- The loop that resets `endpoints[count..size)`. -/
def resetEndpoints : Nat → Nat → List Endpoint → Checked (List Endpoint)
  | _, 0, endpoints => .ok endpoints
  | i, remaining + 1, endpoints => do
      let endpoints ← writeAt endpoints i {}
      resetEndpoints (i + 1) remaining endpoints

theorem resetEndpoints_eq (placed tail : List Endpoint) :
    resetEndpoints placed.length tail.length (placed ++ tail) =
      .ok (placed ++ List.replicate tail.length ({} : Endpoint)) := by
  induction tail generalizing placed with
  | nil => rfl
  | cons e tail ih =>
      have hrest := ih (placed ++ [({} : Endpoint)])
      rw [List.length_append, List.length_singleton, List.append_assoc,
        List.singleton_append] at hrest
      rw [List.length_cons, resetEndpoints, writeAt_length, ok_bind, hrest, List.replicate_succ,
        List.append_assoc, List.singleton_append]

end Endpoints

section Model

variable (sorter : Sorter) (resources : List Resource) (requests : List Request)

def normalizeCandidateChecked (c : Candidate) : Checked (Option Candidate) := do
  if !validHeader resources c then return none
  else
    let frequency ← normalizedChecked c.frequency
    let endpoints ← sortPrefix sorter (fun a b => .ok (byKey Endpoint.request a b)) c.count
      c.endpoints
    match ← normalizeEndpointsChecked resources requests c.timer 0 c.count endpoints with
    | none => return none
    | some endpoints =>
        let endpoints ← resetEndpoints c.count (endpoints.length - c.count) endpoints
        return some { c with frequency := frequency, endpoints := endpoints }

theorem normalizeCandidateChecked_eq (c : Candidate) :
    normalizeCandidateChecked sorter resources requests c =
      .ok (normalizeCandidate sorter resources requests c) := by
  rw [normalizeCandidateChecked, normalizeCandidate]
  cases hheader : validHeader resources c with
  | false => rfl
  | true =>
      obtain ⟨-, -, -, -, hpositive, -, hcount⟩ :=
        ((validHeader_eq_true_iff resources c).mp hheader).1
      let sorted := sorter.sort (byKey Endpoint.request) c.liveEndpoints
      have hlength : sorted.length = c.count := by
        rw [(sorter.perm_byKey Endpoint.request _).length_eq, length_liveEndpoints hcount]
      have hloop := normalizeEndpointsChecked_eq resources requests c.timer [] sorted
        (c.endpoints.drop c.count)
      rw [hlength, List.nil_append, List.length_nil] at hloop
      simp only [Bool.not_true, Bool.false_eq_true, if_false, normalizedChecked_eq hpositive,
        ok_bind, sortPrefix_byKey sorter Endpoint.request hcount]
      change (normalizeEndpointsChecked resources requests c.timer 0 c.count
        (sorted ++ c.endpoints.drop c.count) >>= _) = _
      rw [hloop, ok_bind]
      change _ = Except.ok (match normalizeEndpoints resources requests c.timer [] sorted with
        | none => none
        | some endpoints => _)
      cases hendpoints : normalizeEndpoints resources requests c.timer [] sorted with
      | none => rfl
      | some endpoints =>
          have hsize : endpoints.length = c.count := by
            rw [((normalizeEndpoints_eq_some_iff resources requests c.timer [] sorted
              endpoints).mp hendpoints).2, List.nil_append, List.length_map, hlength]
          have hreset := resetEndpoints_eq endpoints (c.endpoints.drop c.count)
          rw [hsize, List.length_drop] at hreset
          have htail : (endpoints ++ c.endpoints.drop c.count).length - c.count =
              c.endpoints.length - c.count := by
            rw [List.length_append, hsize, List.length_drop, Nat.add_sub_cancel_left]
          simp only [Option.map_some, htail, hreset, ok_bind, pure_eq_ok]

/-- The loops that compare each reservation with the ones before it. -/
def reservationsOverlap (reservations : List Nat) : Nat → Nat → Checked Bool
  | _, 0 => .ok false
  | i, remaining + 1 => do
      let found ← anyBelow reservations i fun earlier => do
        let reserved ← readAt reservations i
        return overlaps resources reserved earlier
      if found then return true else reservationsOverlap reservations (i + 1) remaining

theorem reservationsOverlap_eq (placed rest : List Nat) :
    reservationsOverlap resources (placed ++ rest) placed.length rest.length =
      .ok (!checkEach (fun _ => true) (overlaps resources) placed rest) := by
  induction rest generalizing placed with
  | nil => rfl
  | cons r rest ih =>
      have hrest := ih (placed ++ [r])
      rw [List.length_append, List.length_singleton, List.append_assoc,
        List.singleton_append] at hrest
      rw [List.length_cons, reservationsOverlap,
        anyBelow_eq_ok (g := overlaps resources r) (by simp) (fun _ _ => by rw [readAt_length, ok_bind]; rfl),
        ok_bind, List.take_left, hrest, checkEach]
      cases placed.any (overlaps resources r) <;> rfl

def normalizeModelChecked (p : Problem) : Checked (Option Problem) := do
  if !p.resources.all (validResource p.resources) then return none
  else if !p.reservations.all (fun reserved => (resource p.resources reserved).isSome) then
    return none
  else if ← reservationsOverlap p.resources p.reservations 0 p.reservations.length then
    return none
  else
    match ← collect (normalizeCandidateChecked sorter p.resources p.requests) p.candidates with
    | none => return none
    | some candidates =>
        if !candidates.all (fun a => candidates.all (consistent a)) then return none
        else
          let candidates ← sortBy sorter candidateLessChecked candidates
          return some { p with candidates := candidates }

theorem normalizeModelChecked_eq (p : Problem) :
    normalizeModelChecked sorter p = .ok (normalizeModel sorter p) := by
  have hoverlap := reservationsOverlap_eq p.resources [] p.reservations
  rw [List.nil_append, List.length_nil] at hoverlap
  rw [normalizeModelChecked, normalizeModel, validReservations, hoverlap, ok_bind,
    collect_eq_ok fun c _ => normalizeCandidateChecked_eq sorter p.resources p.requests c, ok_bind]
  cases p.resources.all (validResource p.resources) with
  | false => rfl
  | true =>
      cases p.reservations.all fun reserved => (resource p.resources reserved).isSome with
      | false => rfl
      | true =>
          cases checkEach (fun _ => true) (overlaps p.resources) [] p.reservations with
          | false => rfl
          | true =>
              simp only [Bool.not_true, Bool.false_eq_true, if_false, Bool.and_self]
              cases hmap : p.candidates.mapM (normalizeCandidate sorter p.resources p.requests) with
              | none => rfl
              | some candidates =>
                  obtain ⟨hvalid, rfl⟩ := (mapM_eq_some_iff
                    (normalizeCandidate_eq_some_iff sorter p.resources p.requests) _ _).mp hmap
                  cases hconsistent : (p.candidates.map (normalForm sorter)).all fun a =>
                      (p.candidates.map (normalForm sorter)).all (consistent a) with
                  | false => simp only [hconsistent]; rfl
                  | true =>
                      have hcount : ∀ c ∈ p.candidates.map (normalForm sorter),
                          c.count ≤ c.endpoints.length := by
                        intro c hc
                        obtain ⟨c', hc', rfl⟩ := List.mem_map.mp hc
                        exact (arranged_normalForm sorter (hvalid c' hc')).count_le
                      have hkey : ∀ a ∈ p.candidates.map (normalForm sorter),
                          ∀ b ∈ p.candidates.map (normalForm sorter), a.key = b.key → a = b := by
                        intro a ha b hb hab
                        have hpair := List.all_eq_true.mp
                          (List.all_eq_true.mp hconsistent a ha) b hb
                        simp only [consistent, Bool.and_eq_true, Bool.not_eq_true',
                          Bool.and_eq_false_imp, decide_eq_true_eq, decide_eq_false_iff_not,
                          not_not] at hpair
                        exact hpair.1 hab
                      simp only [hconsistent, sortBy_candidateLessChecked sorter hcount hkey,
                        ok_bind]
                      rfl

end Model

section Conflicts

variable (resources : List Resource)

/-- The condition in the loop of `reserved_by`; the endpoints are read only while there
is no conflict. -/
def blocksChecked (c : Candidate) (r : Nat) : Checked Bool := do
  if overlaps resources r c.timer || overlaps resources r c.domain then return true
  else
    anyBelow c.endpoints c.count fun e =>
      .ok (overlaps resources r e.pin || overlaps resources r e.channel)

def lowestBlockingChecked (c : Candidate) : List Nat → Nat → Checked Nat
  | [], lowest => .ok lowest
  | r :: rest, lowest => do
      let conflict ← blocksChecked resources c r
      lowestBlockingChecked c rest
        (if conflict && (lowest = 0 || r < lowest) then r else lowest)

def reservedByChecked (reservations : List Nat) (c : Candidate) : Checked Nat :=
  lowestBlockingChecked resources c reservations 0

def compatibleChecked (a b : Candidate) : Checked Bool := do
  if overlaps resources a.timer b.timer then return false
  else if a.domain ≠ 0 && a.domain = b.domain && a.setting ≠ b.setting then return false
  else
    let clash ← anyBelow a.endpoints a.count fun x =>
      anyBelow b.endpoints b.count fun y =>
        .ok (overlaps resources x.pin y.pin || overlaps resources x.channel y.channel)
    return !clash

variable {a b c : Candidate}

theorem blocksChecked_eq (h : c.count ≤ c.endpoints.length) (r : Nat) :
    blocksChecked resources c r = .ok (blocks resources c r) := by
  rw [blocksChecked, blocks, anyBelow_eq_ok h fun _ _ => rfl]
  split_ifs with hfirst
  · rw [hfirst]
    rfl
  · rw [Bool.not_eq_true] at hfirst
    rw [hfirst]
    rfl

theorem reservedByChecked_eq (h : c.count ≤ c.endpoints.length) (reservations : List Nat) :
    reservedByChecked resources reservations c = .ok (reservedBy resources reservations c) := by
  rw [reservedByChecked, reservedBy]
  generalize 0 = lowest
  induction reservations generalizing lowest with
  | nil => rfl
  | cons r rest ih =>
      rw [lowestBlockingChecked, lowestBlocking, blocksChecked_eq resources h, ok_bind, ih]

theorem compatibleChecked_eq (ha : a.count ≤ a.endpoints.length)
    (hb : b.count ≤ b.endpoints.length) :
    compatibleChecked resources a b = .ok (compatible resources a b) := by
  have hinner : ∀ x ∈ a.endpoints.take a.count, anyBelow b.endpoints b.count (fun y =>
      .ok (overlaps resources x.pin y.pin || overlaps resources x.channel y.channel)) =
        .ok (b.liveEndpoints.any fun y =>
          overlaps resources x.pin y.pin || overlaps resources x.channel y.channel) :=
    fun x _ => anyBelow_eq_ok hb fun _ _ => rfl
  rw [compatibleChecked, compatible, anyBelow_eq_ok ha hinner, ok_bind]
  split_ifs <;> rfl

end Conflicts

end GrevirPeripherals.PwmSafeModel
