import GrevirPeripherals.PwmAllocation

/-!
What a successful PWM plan guarantees: each instance gets a candidate that serves
all of its requests, and nothing the candidate occupies is reserved or shared.
-/

namespace GrevirPeripherals.PwmSoundness

open GrevirPeripherals.AllocationSearch
open GrevirPeripherals.PwmAllocation
open GrevirPeripherals.PwmAllocator
open GrevirPeripherals.PwmCandidateOrder
open GrevirPeripherals.PwmEligibility
open GrevirPeripherals.PwmFitting
open GrevirPeripherals.PwmModel
open GrevirPeripherals.PwmNormalForm
open GrevirPeripherals.PwmNumeric
open GrevirPeripherals.PwmRequirements
open GrevirPeripherals.PwmResourceTree
open GrevirPeripherals.PwmSolution
open GrevirPeripherals.StandardSort
open GrevirPeripherals.Strings

/-- For every instance a candidate of which the model has one meaning, whose
endpoints answer the requests one to one, which meets every constraint, and which
drives nothing that is reserved or related to what another instance drives. -/
structure SoundAllocation (p : Problem) (choice : StringView → Candidate) : Prop where
  mem : ∀ r ∈ p.requests, choice r.key.instanceName ∈ p.candidates
  key : ∀ r ∈ p.requests, (choice r.key.instanceName).key ≠ 0
  unique : ∀ r ∈ p.requests, ∀ c ∈ p.candidates, c.key = (choice r.key.instanceName).key →
    SameMeaning c (choice r.key.instanceName)
  bijection : ∀ r ∈ p.requests,
    ((choice r.key.instanceName).liveEndpoints.map Endpoint.request).Perm
      ((requestsOf p.requests r.key.instanceName).map Request.key)
  endpoint : ∀ r ∈ p.requests, ∃ e ∈ (choice r.key.instanceName).liveEndpoints,
    e.request = r.key ∧ e.pin = r.config.pin ∧ e.step.value ≤ r.config.step.value
  suits : ∀ r ∈ p.requests, Suits (choice r.key.instanceName) r
  duties : ∀ r ∈ p.requests, 1 < (requestsOf p.requests r.key.instanceName).length →
    (choice r.key.instanceName).independentDuties = true
  unreserved : ∀ r ∈ p.requests, ∀ reserved ∈ p.reservations, ∀ x,
    Occupies (choice r.key.instanceName) x → ¬Related p.resources reserved x
  apart : ∀ a ∈ p.requests, ∀ b ∈ p.requests, a.key.instanceName ≠ b.key.instanceName →
    ∀ x y, Drives (choice a.key.instanceName) x → Drives (choice b.key.instanceName) y →
      ¬Related p.resources x y
  setting : ∀ a ∈ p.requests, ∀ b ∈ p.requests, a.key.instanceName ≠ b.key.instanceName →
    (choice a.key.instanceName).domain ≠ 0 →
      (choice a.key.instanceName).domain = (choice b.key.instanceName).domain →
        (choice a.key.instanceName).setting = (choice b.key.instanceName).setting

/-- Naming the same requests without repetition makes endpoints and requests correspond. -/
theorem bijection_of_fitting {resources : List Resource} {requests : List Request}
    (hidentities : ValidIdentities requests) {c : Candidate}
    (hc : ValidCandidate resources requests c) {instanceName : StringView}
    (h : Fitting requests instanceName c) :
    (c.liveEndpoints.map Endpoint.request).Perm
      ((requestsOf requests instanceName).map Request.key) := by
  have hsublist : (requestsOf requests instanceName).Sublist requests := List.filter_sublist
  have hnodup := hidentities.distinct.sublist (hsublist.map Request.key)
  exact (List.perm_ext_iff_of_nodup hc.requests_nodup hnodup).mpr h.names

theorem Allocation.sound {sorter : Sorter} {p : Problem} (h : ValidProblem sorter p)
    {choice : StringView → Candidate} (hallocation : Allocation p choice) :
    SoundAllocation p choice where
  mem := hallocation.mem
  key r hr := (h.model.candidates _ (hallocation.mem r hr)).key_ne_zero
  unique r hr c hc hkey := by
    have hmem := hallocation.mem r hr
    exact sameMeaning_of_normalForm_eq sorter (h.model.candidates c hc)
      (h.model.candidates _ hmem) (h.model.normalForm_eq_of_key_eq hc hmem hkey)
  bijection r hr := bijection_of_fitting h.identities
    (h.model.candidates _ (hallocation.mem r hr)) (hallocation.fitting r hr)
  endpoint r hr := by
    have hfitting := hallocation.fitting r hr
    have hr' := (mem_requestsOf p.requests _ r).mpr ⟨hr, rfl⟩
    obtain ⟨e, he, hkey⟩ := List.mem_map.mp
      ((hfitting.names r.key).mpr (List.mem_map_of_mem hr'))
    exact ⟨e, he, hkey, hfitting.endpoints e he r hr' hkey⟩
  suits r hr := (hallocation.fitting r hr).suits r
    ((mem_requestsOf p.requests _ r).mpr ⟨hr, rfl⟩)
  duties r hr hmany := by
    have hvalid := h.model.candidates _ (hallocation.mem r hr)
    have hfitting := hallocation.fitting r hr
    have hlength := (bijection_of_fitting h.identities hvalid hfitting).length_eq
    rw [List.length_map, List.length_map, length_liveEndpoints hvalid.count_le] at hlength
    exact hfitting.duties.resolve_left (by omega)
  unreserved r hr reserved hreserved x hoccupies hrelated :=
    hallocation.unreserved r hr reserved hreserved ⟨x, hoccupies, hrelated⟩
  apart a ha b hb hne := (hallocation.independent a ha b hb hne).apart
  setting a ha b hb hne := (hallocation.independent a ha b hb hne).domain

theorem ok_fail_iff (requests : List Key) (visited : UInt32) (diagnostic : Diagnostic) :
    (fail requests visited diagnostic).ok = true ↔ diagnostic.status = .success :=
  decide_eq_true_iff

theorem InstanceReport.status_ne_success {p : Problem} {key : Key} {diagnostic : Diagnostic}
    (h : InstanceReport p key diagnostic) : diagnostic.status ≠ .success := by
  cases h <;> simp

theorem sortedKeys_strict {sorter : Sorter} {p : Problem} (h : ValidProblem sorter p) :
    (sortedKeys sorter p).Pairwise (· < ·) :=
  List.pairwise_map.mpr (accepted h).requestsAscending

variable (sorter : Sorter) (search : Search) {p : Problem} {budget : UInt32}

/-- A plan without an error comes from an allocation of a valid problem. -/
theorem exists_allocation_of_ok (hok : (solve sorter search p budget).ok = true) :
    ValidProblem sorter p ∧ ∃ visited choice, Allocation p choice ∧
      solve sorter search p budget =
        { diagnostic := {}
          requests := sortedKeys sorter p
          candidates := (sortedKeys sorter p).map fun key => (choice key.instanceName).key
          visited := visited } := by
  by_cases hvalid : ValidProblem sorter p
  · refine ⟨hvalid, ?_⟩
    by_cases hblocked : ∃ r ∈ p.requests, NoFreeCandidate p r.key.instanceName
    · obtain ⟨key, diagnostic, -, hreport, hsolve⟩ :=
        solve_of_blocked sorter search budget hvalid hblocked
      rw [hsolve, ok_fail_iff] at hok
      exact absurd hok (InstanceReport.status_ne_success hreport)
    · have hfree : ∀ r ∈ p.requests, ¬NoFreeCandidate p r.key.instanceName := by
        intro r hr hnone
        exact hblocked ⟨r, hr, hnone⟩
      rcases solve_of_free sorter search budget hvalid hfree with
        hsuccess | ⟨visited, -, hsolve⟩ | ⟨visited, hsolve⟩
      · exact hsuccess
      · rw [hsolve, ok_fail_iff] at hok
        contradiction
      · rw [hsolve, ok_fail_iff] at hok
        contradiction
  · obtain ⟨diagnostic, hstatus, hsolve⟩ := solve_of_invalid sorter search budget hvalid
    rw [hsolve, ok_fail_iff] at hok
    exact absurd hok hstatus

/-- A successful plan lists the requested keys in ascending order and gives all
requests of an instance the key of its candidate in a sound allocation. -/
theorem solve_sound_allocation (hok : (solve sorter search p budget).ok = true) :
    (solve sorter search p budget).requests.Perm (p.requests.map Request.key) ∧
      (solve sorter search p budget).requests.Pairwise (· < ·) ∧
      (∀ key ∈ (solve sorter search p budget).candidates, key ≠ 0) ∧
      ∃ choice,
        (solve sorter search p budget).candidates =
          (solve sorter search p budget).requests.map
            (fun key => (choice key.instanceName).key) ∧
        SoundAllocation p choice := by
  obtain ⟨hvalid, visited, choice, hallocation, hsolve⟩ :=
    exists_allocation_of_ok sorter search hok
  have hsound := Allocation.sound hvalid hallocation
  rw [hsolve]
  refine ⟨sortedKeys_perm sorter p, sortedKeys_strict hvalid, ?_, choice, rfl, hsound⟩
  intro key hkey
  obtain ⟨k, hk, rfl⟩ := List.mem_map.mp hkey
  obtain ⟨r, hr, rfl⟩ := List.mem_map.mp ((sortedKeys_perm sorter p).mem_iff.mp hk)
  exact hsound.key r hr

section Board

def boardRequest (instanceName localName : String) (pin : Nat) : Request where
  key := { instanceName := text instanceName, localName := text localName }
  config :=
    { frequency := { lower := ⟨1000000000, 1⟩, upper := ⟨1000000000, 1⟩, specified := true }
      step := ⟨1, 256⟩
      pin := pin }

def boardEndpoint (r : Request) (channel : Nat) (step : Ratio) : Endpoint where
  request := r.key
  channel := channel
  pin := r.config.pin
  step := step

/-- Two timers, one of which has to drive two outputs of one instance. -/
def boardProblem : Problem where
  requests := [boardRequest "led" "dim" 33, boardRequest "fan" "left" 31,
    boardRequest "fan" "right" 32]
  candidates :=
    [{ key := 5, timer := 1, counterBits := 8, configuration := 7, frequency := ⟨2000, 2⟩
       endpoints := [boardEndpoint (boardRequest "fan" "right" 32) 12 ⟨2, 1024⟩,
         boardEndpoint (boardRequest "fan" "left" 31) 11 ⟨1, 512⟩, {}, {}]
       count := 2 },
      { key := 6, timer := 2, counterBits := 8, configuration := 8, frequency := ⟨1000, 1⟩
        endpoints := [boardEndpoint (boardRequest "led" "dim" 33) 21 ⟨1, 256⟩, {}, {}, {}]
        count := 1, domain := 41, setting := 1 }]
  resources := [⟨1, 0, .timer⟩, ⟨2, 0, .timer⟩, ⟨11, 1, .channel⟩, ⟨12, 1, .channel⟩,
    ⟨21, 2, .channel⟩, ⟨31, 0, .pin⟩, ⟨32, 0, .pin⟩, ⟨33, 0, .pin⟩, ⟨34, 0, .pin⟩,
    ⟨41, 0, .domain⟩]
  reservations := [34]

theorem board_sound_allocation :
    ∃ choice,
      (solve insertionSorter backtracking boardProblem 100).candidates =
        (solve insertionSorter backtracking boardProblem 100).requests.map
          (fun key => (choice key.instanceName).key) ∧
      SoundAllocation boardProblem choice :=
  (solve_sound_allocation insertionSorter backtracking (by decide +kernel)).2.2.2

example : (solve insertionSorter backtracking boardProblem 100).candidates = [5, 5, 6] := by
  decide +kernel

end Board

end GrevirPeripherals.PwmSoundness
