import GrevirPeripherals.OwnerValidation

/-!
The unit arrays and the eligibility table of the owner allocator. A unit is an
owner, and its row marks the candidates that fit the owner and are not reserved.
-/

namespace GrevirPeripherals.OwnerEligibility

open GrevirPeripherals.AllocationSearch
open GrevirPeripherals.OrderedChecks
open GrevirPeripherals.OwnerAllocator
open GrevirPeripherals.OwnerModel
open GrevirPeripherals.OwnerValidation
open GrevirPeripherals.Strings
open GrevirPeripherals.UnitGrouping

def ownersOf (demands : List UseDemand) : List StringView :=
  demands.map fun demand => demand.key.owner

@[simp]
theorem ownersOf_length (demands : List UseDemand) :
    (ownersOf demands).length = demands.length := by
  simp [ownersOf]

theorem ownersOf_getElem? (demands : List UseDemand) {i : Nat} (hi : i < demands.length) :
    (ownersOf demands)[i]? = some (keyAt demands i).owner := by
  rw [ownersOf, List.getElem?_map, List.getElem?_eq_getElem hi, keyAt,
    List.getD_eq_getElem _ _ hi]
  rfl

/-- In ascending order the owners that compare unequal to their predecessor are new. -/
theorem groupOwners_grouping (placed rest : List UseDemand) (units : Units)
    (hascending : (placed ++ rest).Pairwise fun a b => a.key ≤ b.key)
    (h : Grouping (ownersOf placed) units.unit units.first)
    (hlast : 0 < placed.length →
      units.unit.getD (placed.length - 1) 0 = units.first.length - 1) :
    Grouping (ownersOf (placed ++ rest)) (groupOwners placed rest units).unit
      (groupOwners placed rest units).first := by
  induction rest generalizing placed units with
  | nil => simpa [groupOwners] using h
  | cons demand rest ih =>
      have hsplit : placed ++ demand :: rest = (placed ++ [demand]) ++ rest := by simp
      have howners : ownersOf (placed ++ [demand]) = ownersOf placed ++ [demand.key.owner] := by
        simp [ownersOf]
      have hlength : units.unit.length = placed.length := by simpa using h.length
      have hbefore := (List.pairwise_append.mp hascending).2.2
      have happended : ∀ last : Nat,
          (units.unit ++ [last]).getD ((placed ++ [demand]).length - 1) 0 = last := by
        intro last
        simp [← hlength]
      rw [groupOwners]
      rw [hsplit] at hascending ⊢
      apply ih _ _ hascending _ fun _ => happended _
      rw [howners]
      cases hprevious : placed.getLast? with
      | none =>
          have hempty : placed = [] := List.getLast?_eq_none_iff.mp hprevious
          subst hempty
          simpa using h.fresh (List.not_mem_nil (a := demand.key.owner))
      | some previous =>
          have hpos : 0 < placed.length :=
            List.length_pos_of_mem (List.mem_of_getLast? hprevious)
          by_cases hsame : demand.key.owner = previous.key.owner
          · have hlabel : (ownersOf placed)[placed.length - 1]? = some demand.key.owner := by
              rw [List.getLast?_eq_getElem?] at hprevious
              rw [ownersOf, List.getElem?_map, hprevious, hsame]
              rfl
            have hknown := h.known hlabel
            rw [hlast hpos] at hknown
            simpa [hsame] using hknown
          · have hnew : demand.key.owner ∉ ownersOf placed := by
              intro hmem
              obtain ⟨earlier, hearlier, heq⟩ := List.mem_map.mp hmem
              obtain ⟨front, rfl⟩ := List.getLast?_eq_some_iff.mp hprevious
              have hle : earlier.key.owner ≤ previous.key.owner := by
                rcases List.mem_append.mp hearlier with hfront | hend
                · have hpairwise := (List.pairwise_append.mp hascending).1
                  have hpairwise := (List.pairwise_append.mp hpairwise).1
                  exact owner_le_of_le ((List.pairwise_append.mp hpairwise).2.2 earlier hfront
                    previous (by simp))
                · rw [List.mem_singleton.mp hend]
              have hge : previous.key.owner ≤ demand.key.owner :=
                owner_le_of_le (hbefore previous (by simp) demand (by simp))
              exact hsame (le_antisymm (heq ▸ hle) hge)
            simpa [hsame] using h.fresh hnew

theorem grouping_of_ascending {demands : List UseDemand}
    (hascending : demands.Pairwise fun a b => a.key ≤ b.key) :
    Grouping (ownersOf demands) (groupOwners [] demands ⟨[], []⟩).unit
      (groupOwners [] demands ⟨[], []⟩).first :=
  groupOwners_grouping [] demands ⟨[], []⟩ hascending grouping_nil (by simp)

section Scan

variable {Identity : Type} (demands : List UseDemand) (reservations : List Nat)
  (owner : StringView)

/-- The entry of the eligibility table for a candidate. -/
def isFree (c : Candidate Identity) : Bool :=
  fits demands c owner && !isReserved reservations c

def isBlocked (c : Candidate Identity) : Bool :=
  fits demands c owner && isReserved reservations c

theorem scanCandidates_eq (candidates : List (Candidate Identity)) (scan : Scan) :
    scanCandidates demands reservations owner candidates scan =
      { row := scan.row ++ candidates.map (isFree demands reservations owner)
        any := scan.any || candidates.any (isFree demands reservations owner)
        blocked := ((candidates.filter (isBlocked demands reservations owner)).getLast?.map
          Candidate.timer).getD scan.blocked } := by
  induction candidates generalizing scan with
  | nil => simp [scanCandidates]
  | cons c rest ih =>
      rw [scanCandidates, ih]
      cases hfits : fits demands c owner with
      | false => simp [isFree, isBlocked, hfits]
      | true =>
          cases hreserved : isReserved reservations c with
          | false => simp [isFree, isBlocked, hfits, hreserved]
          | true =>
              have hblocked : isBlocked demands reservations owner c = true := by
                simp [isBlocked, hfits, hreserved]
              rw [List.filter_cons_of_pos hblocked, List.getLast?_cons]
              cases (rest.filter (isBlocked demands reservations owner)).getLast? <;>
                simp [isFree, hfits, hreserved]

theorem scanUnit_eq_ok_iff (candidates : List (Candidate Identity)) (key : UseKey)
    (row : List Bool) :
    scanUnit demands reservations candidates key = .ok row ↔
      row = candidates.map (isFree demands reservations key.owner) ∧
        ∃ c ∈ candidates, isFree demands reservations key.owner c = true := by
  rw [scanUnit, scanCandidates_eq, ← List.any_eq_true]
  cases candidates.any (isFree demands reservations key.owner) <;> simp [eq_comm]

theorem scanUnit_eq_error_iff (candidates : List (Candidate Identity)) (key : UseKey)
    (diagnostic : Diagnostic) :
    scanUnit demands reservations candidates key = .error diagnostic ↔
      (∀ c ∈ candidates, isFree demands reservations key.owner c = false) ∧
        let blocked := ((candidates.filter (isBlocked demands reservations key.owner)).getLast?.map
          Candidate.timer).getD 0
        diagnostic = ⟨if blocked = 0 then .noCandidate else .reserved, key, blocked⟩ := by
  have hnone : (∀ c ∈ candidates, isFree demands reservations key.owner c = false) ↔
      candidates.any (isFree demands reservations key.owner) = false := by
    simp
  rw [scanUnit, scanCandidates_eq, hnone]
  cases candidates.any (isFree demands reservations key.owner) <;> simp [eq_comm]

end Scan

section Table

variable {Identity : Type} [LinearOrder Identity]

/-- The fields that order the candidates of one owner. -/
def preferenceKey (c : Candidate Identity) : Nat ×ₗ Nat ×ₗ Identity :=
  toLex (c.preference, toLex (c.timer, c.identity))

/-- A fitting candidate after which no other comes in the order of preference. -/
structure LastFitting (demands : List UseDemand) (candidates : List (Candidate Identity))
    (owner : StringView) (c : Candidate Identity) : Prop where
  mem : c ∈ candidates
  fitting : Fitting demands owner c
  last : ∀ other ∈ candidates, Fitting demands owner other →
    preferenceKey other ≤ preferenceKey c

/-- The report on an owner none of whose fitting candidates is free. -/
inductive OwnerReport (demands : List UseDemand) (candidates : List (Candidate Identity))
    (key : UseKey) : Diagnostic → Prop
  | noCandidate (h : ∀ c ∈ candidates, ¬Fitting demands key.owner c) :
      OwnerReport demands candidates key ⟨.noCandidate, key, 0⟩
  | reserved (c : Candidate Identity) (h : LastFitting demands candidates key.owner c) :
      OwnerReport demands candidates key ⟨.reserved, key, c.timer⟩

theorem OwnerReport.perm {demands demands' : List UseDemand}
    {candidates candidates' : List (Candidate Identity)} (hdemands : demands.Perm demands')
    (hcandidates : candidates.Perm candidates') {key : UseKey} {diagnostic : Diagnostic}
    (h : OwnerReport demands candidates key diagnostic) :
    OwnerReport demands' candidates' key diagnostic := by
  cases h with
  | noCandidate h =>
      apply OwnerReport.noCandidate
      intro c hc hfitting
      exact h c (hcandidates.mem_iff.mpr hc) (hfitting.perm hdemands.symm)
  | reserved c h =>
      apply OwnerReport.reserved c
      refine ⟨hcandidates.mem_iff.mp h.mem, h.fitting.perm hdemands, ?_⟩
      intro other hother hfitting
      exact h.last other (hcandidates.mem_iff.mpr hother) (hfitting.perm hdemands.symm)

theorem preferenceKey_le_of_sortKey_le {a b : Candidate Identity} (howner : a.owner = b.owner)
    (h : sortKey a ≤ sortKey b) : preferenceKey a ≤ preferenceKey b := by
  rw [sortKey, sortKey, Prod.Lex.toLex_le_toLex] at h
  rcases h with hlt | ⟨-, hle⟩
  · exact absurd howner hlt.ne
  · exact hle

variable [Inhabited Identity]

/-- The arrays of the solver once they are sorted and have passed the checks. -/
structure Accepted (demands : List UseDemand) (candidates : List (Candidate Identity)) :
    Prop where
  demandsAscending : demands.Pairwise fun a b => a.key ≤ b.key
  validDemands : ValidDemands demands
  candidatesAscending : candidates.Pairwise fun a b => sortKey a ≤ sortKey b
  validCandidates : ValidCandidates demands candidates

variable {demands : List UseDemand} {candidates : List (Candidate Identity)}
  {reservations : List Nat}

theorem Accepted.isFree_iff (h : Accepted demands candidates) {c : Candidate Identity}
    (hc : c ∈ candidates) (owner : StringView) :
    isFree demands reservations owner c = true ↔
      Fitting demands owner c ∧ Unreserved reservations c := by
  rw [isFree, Bool.and_eq_true, Bool.not_eq_true', isReserved_eq_false_iff,
    fits_eq_true_iff h.validDemands (h.validCandidates.wellFormed c hc)]

theorem Accepted.isBlocked_iff (h : Accepted demands candidates) {c : Candidate Identity}
    (hc : c ∈ candidates) (owner : StringView) :
    isBlocked demands reservations owner c = true ↔
      Fitting demands owner c ∧ ¬Unreserved reservations c := by
  rw [isBlocked, Bool.and_eq_true, ← isReserved_eq_false_iff, Bool.not_eq_false,
    fits_eq_true_iff h.validDemands (h.validCandidates.wellFormed c hc)]

/-- The last blocked candidate of the loop is the last fitting one, since in a
unit without a free candidate every fitting candidate is blocked. -/
theorem Accepted.ownerReport (h : Accepted demands candidates) {key : UseKey}
    {diagnostic : Diagnostic}
    (herror : scanUnit demands reservations candidates key = .error diagnostic) :
    (∀ c ∈ candidates, Fitting demands key.owner c → ¬Unreserved reservations c) ∧
      OwnerReport demands candidates key diagnostic := by
  obtain ⟨hfree, hdiagnostic⟩ := (scanUnit_eq_error_iff _ _ _ _ _).mp herror
  have hblocked : ∀ c ∈ candidates, Fitting demands key.owner c →
      ¬Unreserved reservations c := by
    intro c hc hfitting hunreserved
    have htrue : isFree demands reservations key.owner c = true :=
      (h.isFree_iff hc key.owner).mpr ⟨hfitting, hunreserved⟩
    rw [hfree c hc] at htrue
    contradiction
  refine ⟨hblocked, ?_⟩
  have hmem : ∀ c, c ∈ candidates.filter (isBlocked demands reservations key.owner) ↔
      c ∈ candidates ∧ Fitting demands key.owner c := by
    intro c
    rw [List.mem_filter]
    constructor
    · rintro ⟨hc, hb⟩
      exact ⟨hc, ((h.isBlocked_iff hc _).mp hb).1⟩
    · rintro ⟨hc, hfitting⟩
      exact ⟨hc, (h.isBlocked_iff hc _).mpr ⟨hfitting, hblocked c hc hfitting⟩⟩
  have hsorted := h.candidatesAscending.filter (isBlocked demands reservations key.owner)
  rw [hdiagnostic]
  cases hlast : (candidates.filter (isBlocked demands reservations key.owner)).getLast? with
  | none =>
      rw [List.getLast?_eq_none_iff] at hlast
      apply OwnerReport.noCandidate
      intro c hc hfitting
      have := (hmem c).mpr ⟨hc, hfitting⟩
      rw [hlast] at this
      contradiction
  | some c =>
      obtain ⟨hc, hfitting⟩ := (hmem c).mp (List.mem_of_getLast? hlast)
      have htimer := (h.validCandidates.wellFormed c hc).timer
      simp only [Option.map_some, Option.getD_some, if_neg htimer]
      apply OwnerReport.reserved c
      refine ⟨hc, hfitting, ?_⟩
      intro other hother hfitting'
      obtain ⟨front, hfront⟩ := List.getLast?_eq_some_iff.mp hlast
      have hmem' := (hmem other).mpr ⟨hother, hfitting'⟩
      rw [hfront, List.mem_append, List.mem_singleton] at hmem'
      rcases hmem' with hmem' | rfl
      · rw [hfront] at hsorted
        have hle := (List.pairwise_append.mp hsorted).2.2 other hmem' c (by simp)
        exact preferenceKey_le_of_sortKey_le
          (hfitting'.sameOwner.trans hfitting.sameOwner.symm) hle
      · exact le_rfl

/-- The owner of a unit. -/
def ownerAt (demands : List UseDemand) (first : List Nat) (u : Nat) : StringView :=
  (keyAt demands (first.getD u 0)).owner

/-- The completed table lists the fitting, unreserved candidates of every unit. -/
theorem Accepted.tabulates (h : Accepted demands candidates) {first : List Nat}
    {rows : List (List Bool)} (size columns : Nat)
    (hrows : ((List.range first.length).mapM fun u =>
      scanUnit demands reservations candidates (keyAt demands (first.getD u 0))) = .ok rows) :
    Tabulates candidates
      (fun u c => Fitting demands (ownerAt demands first u) c ∧ Unreserved reservations c)
      first.length (eligibleTable size columns rows) := by
  obtain ⟨hlength, hall⟩ := (mapM_range_eq_ok_iff _ _ _).mp hrows
  have hentry : ∀ u, u < first.length → ∀ c,
      entry (eligibleTable size columns rows) u c = true ↔
        ∃ hc : c < candidates.length,
          Fitting demands (ownerAt demands first u) candidates[c] ∧
            Unreserved reservations candidates[c] := by
    intro u hu c
    have hrow := ((scanUnit_eq_ok_iff _ _ _ _ _).mp (hall u hu)).1
    rw [entry_eligibleTable size columns (hlength ▸ hu)]
    change (rows.getD u default).getD c false = true ↔ _
    rw [hrow]
    by_cases hc : c < candidates.length
    · rw [List.getD_eq_getElem _ _ (by simpa using hc), List.getElem_map,
        h.isFree_iff (List.getElem_mem hc)]
      exact ⟨fun hfree => ⟨hc, hfree⟩, fun hfree => hfree.2⟩
    · rw [List.getD_eq_default _ _ (by simpa using hc)]
      exact iff_of_false (by simp) fun hfree => hc hfree.1
  constructor
  · intro u hu c hc
    obtain ⟨hlt, hfree⟩ := (hentry u hu c).mp hc
    rw [List.getD_eq_getElem _ _ hlt]
    exact ⟨hlt, hfree⟩
  · intro u hu x hx hfree
    obtain ⟨c, hc, rfl⟩ := List.getElem_of_mem hx
    exact ⟨c, List.getD_eq_getElem _ _ hc, (hentry u hu c).mpr ⟨hc, hfree⟩⟩

end Table

end GrevirPeripherals.OwnerEligibility
