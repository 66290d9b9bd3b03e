import GrevirPeripherals.PwmFitting

/-!
A unit is an instance, and the positional comparison of its requests with the
endpoints of a normalised candidate decides whether the candidate fits it.
-/

namespace GrevirPeripherals.PwmUnits

open GrevirPeripherals.PwmAllocator
open GrevirPeripherals.PwmCandidateOrder
open GrevirPeripherals.PwmFitting
open GrevirPeripherals.PwmFrequencyWindow
open GrevirPeripherals.PwmModel
open GrevirPeripherals.PwmNormalForm
open GrevirPeripherals.PwmNumeric
open GrevirPeripherals.PwmRequirements
open GrevirPeripherals.StandardSort
open GrevirPeripherals.Strings
open GrevirPeripherals.UnitGrouping

def instancesOf (requests : List Request) : List StringView :=
  requests.map fun r => r.key.instanceName

@[simp]
theorem instancesOf_length (requests : List Request) :
    (instancesOf requests).length = requests.length := by
  simp [instancesOf]

theorem instancesOf_getElem? (requests : List Request) {i : Nat} (hi : i < requests.length) :
    (instancesOf requests)[i]? = some (keyAt requests i).instanceName := by
  rw [instancesOf, List.getElem?_map, List.getElem?_eq_getElem hi, keyAt,
    List.getD_eq_getElem _ _ hi]
  rfl

/-- The first earlier request of an instance stands for all of them. -/
theorem groupUnits_grouping (placed rest : List Request) (units : Units)
    (h : Grouping (instancesOf placed) units.unit units.first) :
    Grouping (instancesOf (placed ++ rest)) (groupUnits placed rest units).unit
      (groupUnits placed rest units).first := by
  induction rest generalizing placed units with
  | nil => simpa [groupUnits] using h
  | cons r rest ih =>
      have hsplit : placed ++ r :: rest = (placed ++ [r]) ++ rest := by simp
      have hinstances : instancesOf (placed ++ [r]) =
          instancesOf placed ++ [r.key.instanceName] := by
        simp [instancesOf]
      rw [groupUnits, hsplit]
      apply ih
      rw [hinstances]
      cases hfound : placed.findIdx? fun earlier =>
          earlier.key.instanceName = r.key.instanceName with
      | some j =>
          obtain ⟨hj, hsame, -⟩ := List.findIdx?_eq_some_iff_getElem.mp hfound
          have hlabel : (instancesOf placed)[j]? = some r.key.instanceName := by
            rw [instancesOf, List.getElem?_map, List.getElem?_eq_getElem hj]
            simpa using hsame
          exact h.known hlabel
      | none =>
          have hnew : r.key.instanceName ∉ instancesOf placed := by
            intro hmem
            obtain ⟨earlier, hearlier, heq⟩ := List.mem_map.mp hmem
            have := List.findIdx?_eq_none_iff.mp hfound earlier hearlier
            simp [heq] at this
          simpa using h.fresh hnew

/-- The unit arrays of `solve`. -/
def solverUnits (requests : List Request) : Units :=
  groupUnits [] requests ⟨[], []⟩

theorem grouping_solverUnits (requests : List Request) :
    Grouping (instancesOf requests) (solverUnits requests).unit (solverUnits requests).first :=
  groupUnits_grouping [] requests ⟨[], []⟩ grouping_nil

/-- The instance of a unit. -/
def unitInstance (requests : List Request) (u : Nat) : StringView :=
  (keyAt requests ((solverUnits requests).first.getD u 0)).instanceName

theorem label_unitInstance (requests : List Request) {u : Nat}
    (hu : u < (solverUnits requests).first.length) :
    (instancesOf requests)[(solverUnits requests).first.getD u 0]? =
      some (unitInstance requests u) := by
  have hlt := (grouping_solverUnits requests).first_lt u hu
  rw [instancesOf_length] at hlt
  exact instancesOf_getElem? _ hlt

theorem unitInstance_ne (requests : List Request) {u v : Nat}
    (hu : u < (solverUnits requests).first.length)
    (hv : v < (solverUnits requests).first.length) (huv : u ≠ v) :
    unitInstance requests u ≠ unitInstance requests v := by
  intro heq
  apply (grouping_solverUnits requests).label_ne hu hv huv
  rw [label_unitInstance requests hu, label_unitInstance requests hv, heq]

theorem exists_unit_of_request {requests : List Request} {r : Request} (hr : r ∈ requests) :
    ∃ u, u < (solverUnits requests).first.length ∧
      unitInstance requests u = r.key.instanceName := by
  have hmem : r.key.instanceName ∈ instancesOf requests := List.mem_map_of_mem hr
  obtain ⟨u, hu, hlabel⟩ := (grouping_solverUnits requests).exists_unit hmem
  rw [label_unitInstance requests hu] at hlabel
  exact ⟨u, hu, Option.some.inj hlabel⟩

theorem exists_request_of_unit (requests : List Request) {u : Nat}
    (hu : u < (solverUnits requests).first.length) :
    ∃ r ∈ requests, r.key.instanceName = unitInstance requests u := by
  have hmem := List.mem_of_getElem? (label_unitInstance requests hu)
  obtain ⟨r, hr, heq⟩ := List.mem_map.mp hmem
  exact ⟨r, hr, heq⟩

/-- The requests the loop of `fits` looks at are those of the instance. -/
theorem members_of_unit (requests : List Request) {u : Nat}
    (hu : u < (solverUnits requests).first.length) :
    ((requests.zip (solverUnits requests).unit).filter fun pair => pair.2 = u).map Prod.fst =
      requestsOf requests (unitInstance requests u) := by
  obtain ⟨number, hnumber, hunit⟩ := (grouping_solverUnits requests).exists_byLabel id
  have hzip : requests.zip (solverUnits requests).unit =
      requests.map fun r => (r, number r.key.instanceName) := by
    rw [List.map_id_fun, id_eq, instancesOf, List.map_map] at hunit
    rw [hunit]
    exact List.map_prod_left_eq_zip.symm
  rw [hzip, List.filter_map, List.map_map, requestsOf]
  change List.map id _ = _
  rw [List.map_id]
  apply List.filter_congr
  intro r hr
  obtain ⟨v, hv, hinstance⟩ := exists_unit_of_request hr
  have hv' : number r.key.instanceName = v := by
    apply hnumber v hv
    rw [label_unitInstance requests hv, hinstance]
  rw [Function.comp_apply, decide_eq_decide, hv', ← hinstance]
  constructor
  · rintro rfl
    rfl
  · intro heq
    by_contra hne
    exact unitInstance_ne requests hv hu hne heq

section Fits

/-- What `solve` asks of the configuration of a request. -/
structure ValidRequest (r : Request) : Prop where
  error : r.config.error = .none
  frequency : r.config.frequency.valid = true
  step : r.config.step.valid = true
  stepLe : atMost r.config.step ⟨1, 1⟩ = true
  pin : r.config.pin ≠ 0
  nonempty : r.config.frequency.empty = false

theorem checkRequest_eq_ok_iff (r : Request) : checkRequest r = .ok () ↔ ValidRequest r := by
  rw [checkRequest]
  split_ifs with herror hbounds hempty
  · refine iff_of_false (by simp) fun h => herror h.error
  · simp only [Bool.or_eq_true, Bool.not_eq_true', decide_eq_true_eq] at hbounds
    refine iff_of_false (by simp) fun h => ?_
    rcases hbounds with ((hfrequency | hstep) | hle) | hpin
    · exact absurd h.frequency (by simp [hfrequency])
    · exact absurd h.step (by simp [hstep])
    · exact absurd h.stepLe (by simp [hle])
    · exact h.pin hpin
  · refine iff_of_false (by simp) fun h => ?_
    rw [h.nonempty] at hempty
    contradiction
  · simp only [Bool.or_eq_true, Bool.not_eq_true', decide_eq_true_eq, not_or,
      Bool.not_eq_false] at hbounds
    refine iff_of_true rfl ⟨not_not.mp herror, hbounds.1.1.1, hbounds.1.1.2, hbounds.1.2,
      hbounds.2, by simpa using hempty⟩

theorem mismatch_eq_false_iff {c : Candidate} {r : Request} {e : Endpoint}
    (hr : ValidRequest r) (hfrequency : c.frequency.positive = true)
    (hstep : e.step.positive = true) :
    mismatch c r e = false ↔
      e.request = r.key ∧ (e.pin = r.config.pin ∧ e.step.value ≤ r.config.step.value) ∧
        Suits c r := by
  have hcontains := FrequencyWindow.contains_eq_true_iff hr.frequency hr.nonempty hfrequency
  have hle := Ratio.atMost_iff_value_le hstep (Ratio.positive_of_valid hr.step)
  simp only [mismatch, Bool.or_eq_false_iff, Bool.and_eq_false_imp, decide_eq_false_iff_not,
    decide_eq_true_eq, not_not, Bool.not_eq_false', hcontains, hle, Nat.not_lt]
  constructor
  · rintro ⟨⟨⟨⟨⟨⟨⟨hkey, hpin⟩, hadmits⟩, hstep⟩, htimer⟩, hbits⟩, hwaveform⟩, hsource⟩
    exact ⟨hkey, ⟨hpin, hstep⟩, hadmits, Decidable.or_iff_not_imp_left.mpr htimer, hbits,
      Decidable.or_iff_not_imp_left.mpr hwaveform, Decidable.or_iff_not_imp_left.mpr hsource⟩
  · rintro ⟨hkey, ⟨hpin, hstep⟩, hadmits, htimer, hbits, hwaveform, hsource⟩
    exact ⟨⟨⟨⟨⟨⟨⟨hkey, hpin⟩, hadmits⟩, hstep⟩, Decidable.or_iff_not_imp_left.mp htimer⟩, hbits⟩,
      Decidable.or_iff_not_imp_left.mp hwaveform⟩, Decidable.or_iff_not_imp_left.mp hsource⟩

/-- The loop pairs the requests of the unit with the live endpoints by position. -/
theorem fitsFrom_eq_true_iff {c : Candidate} (hcount : c.count ≤ c.endpoints.length) (u : Nat)
    (pairs : List (Request × Nat)) (members : Nat) (hmembers : members ≤ c.count) :
    fitsFrom c u pairs members = true ↔
      List.Forall₂ (fun r e => mismatch c r e = false)
          ((pairs.filter fun pair => pair.2 = u).map Prod.fst) (c.liveEndpoints.drop members) ∧
        (c.count = 1 ∨ c.independentDuties = true) := by
  have hlength := length_liveEndpoints hcount
  induction pairs generalizing members with
  | nil =>
      simp only [fitsFrom, List.filter_nil, List.map_nil, List.forall₂_nil_left_iff,
        List.drop_eq_nil_iff, hlength, Bool.and_eq_true, Bool.or_eq_true, decide_eq_true_eq]
      constructor
      · rintro ⟨rfl, hduties⟩
        exact ⟨le_rfl, hduties⟩
      · rintro ⟨hle, hduties⟩
        obtain rfl : members = c.count := by omega
        exact ⟨rfl, hduties⟩
  | cons pair rest ih =>
      obtain ⟨r, unit⟩ := pair
      rw [fitsFrom]
      by_cases hunit : unit = u
      · rw [if_pos hunit, List.filter_cons_of_pos (by simpa using hunit), List.map_cons]
        split_ifs with hfull hmismatch
        · have hnil : c.liveEndpoints.drop members = [] :=
            List.drop_eq_nil_of_le (by omega)
          simp [hnil]
        · have hlt : members < c.liveEndpoints.length := by omega
          have hread : c.endpoints.getD members default = c.liveEndpoints[members] := by
            rw [List.getD_eq_getElem _ _ (by omega)]
            exact (List.getElem_take ..).symm
          rw [List.drop_eq_getElem_cons hlt, List.forall₂_cons, ← hread, hmismatch]
          simp
        · have hlt : members < c.liveEndpoints.length := by omega
          have hread : c.endpoints.getD members default = c.liveEndpoints[members] := by
            rw [List.getD_eq_getElem _ _ (by omega)]
            exact (List.getElem_take ..).symm
          have hsucc : members + 1 ≤ c.count := by omega
          rw [Bool.not_eq_true] at hmismatch
          rw [List.drop_eq_getElem_cons hlt, List.forall₂_cons, ← hread,
            and_iff_right hmismatch]
          exact ih (members + 1) hsucc
      · rw [if_neg hunit, List.filter_cons_of_neg (by simpa using hunit)]
        exact ih members hmembers

/-- What the model check leaves of a candidate for the comparison by position. -/
structure Arranged (c : Candidate) : Prop where
  count_le : c.count ≤ c.endpoints.length
  frequency : c.frequency.positive = true
  steps : ∀ e ∈ c.liveEndpoints, e.step.positive = true
  ascending : c.liveEndpoints.Pairwise fun x y => x.request < y.request

theorem arranged_normalForm (sorter : Sorter) {resources : List Resource}
    {requests : List Request} {c : Candidate} (h : ValidCandidate resources requests c) :
    Arranged (normalForm sorter c) := by
  have hperm := sortedEndpoints_perm sorter c
  have hlive := liveEndpoints_normalForm sorter h.count_le
  constructor
  · have hlength : c.liveEndpoints.length = c.count := length_liveEndpoints h.count_le
    simp only [normalForm, List.length_append, List.length_map, List.length_replicate,
      Sorter.length_byKey, hlength]
    omega
  · exact Ratio.positive_normalized h.frequency_positive
  · intro e he
    rw [hlive] at he
    obtain ⟨e', he', rfl⟩ := List.mem_map.mp he
    exact Ratio.positive_normalized (h.step_positive (hperm.mem_iff.mp he'))
  · rw [hlive, List.pairwise_map]
    have hdistinct : (sortedEndpoints sorter c).Pairwise fun x y => x.request ≠ y.request :=
      List.pairwise_map.mp ((hperm.map _).nodup_iff.mpr h.requests_nodup)
    exact (sorter.ascending_byKey _ _).imp₂ (fun _ _ => lt_of_le_of_ne) hdistinct

/-- Comparing the requests of a unit with the endpoints by position decides
whether the candidate fits its instance. -/
theorem fits_eq_true_iff {requests : List Request}
    (hascending : requests.Pairwise fun a b => a.key < b.key)
    (hrequests : ∀ r ∈ requests, ValidRequest r) {c : Candidate} (hc : Arranged c) {u : Nat}
    (hu : u < (solverUnits requests).first.length) :
    fits requests (solverUnits requests) c u = true ↔
      Fitting requests (unitInstance requests u) c := by
  have hmembers : ∀ r ∈ requestsOf requests (unitInstance requests u), ValidRequest r := by
    intro r hr
    exact hrequests r ((mem_requestsOf _ _ _).mp hr).1
  have hpositional : List.Forall₂ (fun r e => mismatch c r e = false)
        (requestsOf requests (unitInstance requests u)) c.liveEndpoints ↔
      List.Forall₂ (fun r e => r.key = e.request ∧
          ((e.pin = r.config.pin ∧ e.step.value ≤ r.config.step.value) ∧ Suits c r))
        (requestsOf requests (unitInstance requests u)) c.liveEndpoints := by
    rw [List.forall₂_iff_get, List.forall₂_iff_get]
    apply and_congr_right'
    apply forall₃_congr
    intro i hi hi'
    rw [mismatch_eq_false_iff (hmembers _ (List.get_mem _ _)) hc.frequency
      (hc.steps _ (List.get_mem _ _)), eq_comm]
  have hmembersAscending : (requestsOf requests (unitInstance requests u)).Pairwise
      fun a b => a.key < b.key := hascending.filter _
  rw [fits, fitsFrom_eq_true_iff hc.count_le u _ 0 (Nat.zero_le _), members_of_unit requests hu,
    List.drop_zero, hpositional, forall₂_iff_of_ascending hmembersAscending hc.ascending]
  constructor
  · rintro ⟨⟨hnames, hmatch⟩, hduties⟩
    refine ⟨fun key => (hnames key).symm, ?_, ?_, hduties⟩
    · intro e he r hr hkey
      exact (hmatch r hr e he hkey.symm).1
    · intro r hr
      obtain ⟨e, he, hkey⟩ := List.mem_map.mp
        ((hnames r.key).mp (List.mem_map_of_mem hr))
      exact (hmatch r hr e he hkey.symm).2
  · intro h
    refine ⟨⟨fun key => (h.names key).symm, ?_⟩, h.duties⟩
    intro r hr e he hkey
    exact ⟨h.endpoints e he r hr hkey.symm, h.suits r hr⟩

end Fits

end GrevirPeripherals.PwmUnits
