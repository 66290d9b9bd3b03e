import GrevirPeripherals.OwnerSoundness
import GrevirPeripherals.Rearrangement
import Mathlib.Order.Bounds.Basic

/-!
The owner allocator gives the same plan for every order of the arrays of a problem
and of the live bindings and roles of its candidates.
-/

namespace GrevirPeripherals.OwnerPresentation

open GrevirPeripherals.AllocationSearch
open GrevirPeripherals.OwnerAllocator
open GrevirPeripherals.OwnerEligibility
open GrevirPeripherals.OwnerModel
open GrevirPeripherals.OwnerSolution
open GrevirPeripherals.OwnerSoundness
open GrevirPeripherals.OwnerValidation
open GrevirPeripherals.Rearrangement
open GrevirPeripherals.StandardSort
open GrevirPeripherals.Strings

variable {Identity : Type}

section Relations

/-- The slots past the live ones are not compared. -/
structure CandidatePresents (c c' : Candidate Identity) : Prop where
  owner : c.owner = c'.owner
  identity : c.identity = c'.identity
  timer : c.timer = c'.timer
  preference : c.preference = c'.preference
  size : c.bindings.length = c'.bindings.length
  bindings : c.liveBindings.Perm c'.liveBindings
  bindingCount : c.bindingCount = c'.bindingCount
  roleSize : c.exclusiveRoles.length = c'.exclusiveRoles.length
  roles : c.liveRoles.Perm c'.liveRoles
  roleCount : c.roleCount = c'.roleCount

/-- Two presentations of one problem. -/
structure Presents (p q : Problem Identity) : Prop where
  demands : p.demands.Perm q.demands
  candidates : Rearranged CandidatePresents p.candidates q.candidates
  reservations : p.reservations.Perm q.reservations

theorem CandidatePresents.symm {c c' : Candidate Identity} (h : CandidatePresents c c') :
    CandidatePresents c' c :=
  ⟨h.owner.symm, h.identity.symm, h.timer.symm, h.preference.symm, h.size.symm, h.bindings.symm,
    h.bindingCount.symm, h.roleSize.symm, h.roles.symm, h.roleCount.symm⟩

theorem Presents.symm {p q : Problem Identity} (h : Presents p q) : Presents q p :=
  ⟨h.demands.symm, h.candidates.swap.mono fun _ _ => CandidatePresents.symm,
    h.reservations.symm⟩

end Relations

section Candidate

variable {c c' : Candidate Identity} (h : CandidatePresents c c')

include h

theorem CandidatePresents.wellFormed [Inhabited Identity] {demands : List UseDemand}
    (hformed : WellFormed demands c) : WellFormed demands c' where
  owner := h.owner ▸ hformed.owner
  identity := h.identity ▸ hformed.identity
  timer := h.timer ▸ hformed.timer
  bindingCount := h.bindingCount ▸ h.size ▸ hformed.bindingCount
  roleCount := h.roleCount ▸ h.roleSize ▸ hformed.roleCount
  bindings b hb := h.owner ▸ hformed.bindings b (h.bindings.mem_iff.mpr hb)
  distinct := by
    apply h.bindings.pairwise hformed.distinct
    rintro a b ⟨hkey, hendpoint, hpin⟩
    refine ⟨hkey.symm, hendpoint.symm, ?_⟩
    intro hne heq
    exact hpin (heq ▸ hne) heq.symm
  roles role hrole := hformed.roles role (h.roles.mem_iff.mpr hrole)
  distinctRoles := h.roles.nodup_iff.mp hformed.distinctRoles

theorem CandidatePresents.sortKey_eq [LinearOrder Identity] : sortKey c = sortKey c' := by
  rw [sortKey, sortKey, h.owner, h.preference, h.timer, h.identity]

theorem CandidatePresents.fits_eq (demands : List UseDemand) (owner : StringView) :
    fits demands c owner = fits demands c' owner := by
  have hmatched : ∀ matched, countMatched c owner demands matched =
      countMatched c' owner demands matched := by
    induction demands with
    | nil => exact fun _ => rfl
    | cons demand rest ih =>
        intro matched
        rw [countMatched, countMatched, h.bindings.any_eq, ih, ih]
  rw [fits, fits, h.owner, hmatched, h.bindingCount]

theorem CandidatePresents.eachResource_perm : (eachResource c).Perm (eachResource c') := by
  rw [eachResource, eachResource, h.timer]
  exact ((h.bindings.flatMap_right _).append h.roles).cons _

end Candidate

section Pair

variable {c c' d d' : Candidate Identity}

theorem isReserved_congr {reservations reservations' : List Nat}
    (hperm : reservations.Perm reservations') (h : CandidatePresents c c') :
    isReserved reservations c = isReserved reservations' c' := by
  rw [isReserved, isReserved, hperm.any_eq]
  congr 1
  funext r
  exact h.eachResource_perm.any_eq

theorem compatible_congr (hc : CandidatePresents c c') (hd : CandidatePresents d d') :
    compatible c d = compatible c' d' := by
  rw [compatible, compatible, hc.eachResource_perm.any_eq]
  congr 2
  funext left
  exact hd.eachResource_perm.any_eq

end Pair

section Lists

variable {candidates candidates' : List (Candidate Identity)}
  (h : List.Forall₂ CandidatePresents candidates candidates')

include h

theorem scanCandidates_congr {reservations reservations' : List Nat}
    (hperm : reservations.Perm reservations') (demands : List UseDemand) (owner : StringView)
    (scan : Scan) :
    scanCandidates demands reservations owner candidates scan =
      scanCandidates demands reservations' owner candidates' scan := by
  induction h generalizing scan with
  | nil => rfl
  | cons hc _ ih =>
      rw [scanCandidates, scanCandidates, hc.fits_eq, isReserved_congr hperm hc, hc.timer]
      exact ih _

theorem scanUnit_congr {reservations reservations' : List Nat}
    (hperm : reservations.Perm reservations') (demands : List UseDemand) :
    scanUnit demands reservations candidates = scanUnit demands reservations' candidates' := by
  funext key
  rw [scanUnit, scanUnit, scanCandidates_congr h hperm]

variable [Inhabited Identity]

theorem getD_presents (i : Nat) :
    CandidatePresents (candidates.getD i default) (candidates'.getD i default) := by
  obtain ⟨hlength, hall⟩ := List.forall₂_iff_get.mp h
  rcases Nat.lt_or_ge i candidates.length with hi | hi
  · rw [List.getD_eq_getElem _ _ hi, List.getD_eq_getElem _ _ (hlength ▸ hi)]
    exact hall i hi (hlength ▸ hi)
  · rw [List.getD_eq_default _ _ hi, List.getD_eq_default _ _ (hlength ▸ hi)]
    exact ⟨rfl, rfl, rfl, rfl, rfl, List.Perm.refl _, rfl, rfl, List.Perm.refl _, rfl⟩

theorem admitsColumns_congr :
    admitsColumns candidates compatible = admitsColumns candidates' compatible := by
  funext a b
  exact compatible_congr (getD_presents h a) (getD_presents h b)

end Lists

section Checks

variable {p q : Problem Identity} (h : Presents p q)

include h

theorem faulty_congr : {key | Faulty p.demands key} = {key | Faulty q.demands key} := by
  ext key
  exact ⟨Faulty.perm h.demands, Faulty.perm h.demands.symm⟩

theorem validCandidates_of_presents [Inhabited Identity]
    (hvalid : ValidCandidates p.demands p.candidates) :
    ValidCandidates q.demands q.candidates where
  wellFormed c' hc' := by
    obtain ⟨c, hc, hpresents⟩ := h.candidates.exists_left hc'
    exact hpresents.wellFormed ((hvalid.wellFormed c hc).perm h.demands)
  distinct := by
    have hidentities := h.candidates.map_perm fun c _ c' _ hpresents => hpresents.identity
    have hnodup : (p.candidates.map Candidate.identity).Nodup :=
      List.pairwise_map.mpr hvalid.distinct
    exact List.pairwise_map.mp (hidentities.nodup_iff.mp hnodup)

end Checks

section Solve

variable (sorter : Sorter) {p q : Problem Identity} (h : Presents p q)

include h

theorem sortedUses_congr : sortedUses sorter p = sortedUses sorter q :=
  sorter.map_sort_byKey_congr UseDemand.key h.demands

theorem sortedDemands_congr (hvalid : ValidDemands p.demands) :
    sortedDemands sorter p = sortedDemands sorter q := by
  apply sorter.sort_byKey_congr h.demands
  intro a ha b hb hkey
  exact List.inj_on_of_nodup_map hvalid.nodup_keys ha hb hkey

variable [LinearOrder Identity] [Inhabited Identity]

/-- No two candidates have one identity, so the sort leaves each in the same place. -/
theorem sortedCandidates_congr (hvalid : ValidCandidates p.demands p.candidates) :
    List.Forall₂ CandidatePresents (sortedCandidates sorter p) (sortedCandidates sorter q) := by
  have hrearranged := h.candidates.perm (sortedCandidates_perm sorter p)
    (sortedCandidates_perm sorter q).symm
  apply hrearranged.forall₂_of_ascending fun c c' hpresents => hpresents.sortKey_eq
  · exact sortedCandidates_ascending sorter p
  · exact sortedCandidates_ascending sorter q
  · intro a ha b hb hkey
    have hidentities : (q.candidates.map Candidate.identity).Nodup :=
      List.pairwise_map.mpr (validCandidates_of_presents h hvalid).distinct
    apply List.inj_on_of_nodup_map hidentities
    · exact (sortedCandidates_perm sorter q).mem_iff.mp ha
    · exact (sortedCandidates_perm sorter q).mem_iff.mp hb
    · simp only [sortKey, toLex_inj, Prod.mk.injEq] at hkey
      exact hkey.2.2.2

theorem scanUnits_congr (hdemands : ValidDemands p.demands)
    (hcandidates : ValidCandidates p.demands p.candidates) :
    scanUnits sorter p = scanUnits sorter q := by
  have hscan := scanUnit_congr (sortedCandidates_congr sorter h hcandidates) h.reservations
  rw [scanUnits, scanUnits, solverUnits, solverUnits, sortedDemands_congr sorter h hdemands]
  simp only [hscan]

theorem conclude_congr (hdemands : ValidDemands p.demands)
    (hcandidates : ValidCandidates p.demands p.candidates) (answer : SearchResult) :
    conclude (sortedUses sorter p) (sortedCandidates sorter p) (solverUnits sorter p) answer =
      conclude (sortedUses sorter q) (sortedCandidates sorter q) (solverUnits sorter q) answer := by
  have hsorted := sortedCandidates_congr sorter h hcandidates
  rw [conclude, conclude, sortedUses_congr sorter h, solverUnits, solverUnits,
    sortedDemands_congr sorter h hdemands]
  simp only [(getD_presents hsorted _).identity]

variable (search : Search) (budget : UInt32)

/-- The plan is the same in every field, whatever the order of the arrays. -/
theorem solve_order_independent :
    solve sorter search p budget = solve sorter search q budget := by
  by_cases hdemands : ValidDemands p.demands
  · have hdemands' := hdemands.perm h.demands
    by_cases hcandidates : ValidCandidates p.demands p.candidates
    · have hcandidates' := validCandidates_of_presents h hcandidates
      have hsorted := sortedCandidates_congr sorter h hcandidates
      have hlength : (sortedDemands sorter p).length = (sortedDemands sorter q).length := by
        rw [sortedDemands_congr sorter h hdemands]
      have hunits : solverUnits sorter p = solverUnits sorter q := by
        rw [solverUnits, solverUnits, sortedDemands_congr sorter h hdemands]
      rw [solve_of_valid sorter search budget hdemands hcandidates,
        solve_of_valid sorter search budget hdemands' hcandidates',
        scanUnits_congr sorter h hdemands hcandidates, admitsColumns_congr hsorted,
        hsorted.length_eq, hlength]
      cases scanUnits sorter q with
      | error diagnostic => rw [sortedUses_congr sorter h]
      | ok rows =>
          simp only [conclude_congr sorter h hdemands hcandidates]
          rw [hunits]
    · have hcandidates' : ¬ValidCandidates q.demands q.candidates :=
        fun hvalid => hcandidates (validCandidates_of_presents h.symm hvalid)
      rw [solve_of_invalidCandidates sorter search budget hdemands hcandidates,
        solve_of_invalidCandidates sorter search budget hdemands' hcandidates',
        sortedUses_congr sorter h]
  · have hdemands' : ¬ValidDemands q.demands := fun hvalid => hdemands (hvalid.perm h.demands.symm)
    obtain ⟨key, hleast, hsolve⟩ := solve_of_faulty sorter search budget hdemands
    obtain ⟨key', hleast', hsolve'⟩ := solve_of_faulty sorter search budget hdemands'
    rw [faulty_congr h] at hleast
    rw [hsolve, hsolve', hleast.unique hleast', sortedUses_congr sorter h]

end Solve

section Reversed

/-- The candidate with its live bindings and roles in the opposite order. -/
def reversedCandidate (c : Candidate Identity) : Candidate Identity :=
  { c with
    bindings := c.liveBindings.reverse ++ c.bindings.drop c.bindingCount
    exclusiveRoles := c.liveRoles.reverse ++ c.exclusiveRoles.drop c.roleCount }

/-- The problem with every array in the opposite order. -/
def reversed (p : Problem Identity) : Problem Identity where
  demands := p.demands.reverse
  candidates := (p.candidates.map reversedCandidate).reverse
  reservations := p.reservations.reverse

theorem take_reversed {α : Type} {l : List α} {count : Nat} (h : count ≤ l.length) :
    ((l.take count).reverse ++ l.drop count).take count = (l.take count).reverse := by
  apply List.take_left'
  rw [List.length_reverse, List.length_take, Nat.min_eq_left h]

theorem length_reversed {α : Type} (l : List α) (count : Nat) :
    ((l.take count).reverse ++ l.drop count).length = l.length := by
  rw [List.length_append, List.length_reverse, ← List.length_append, List.take_append_drop]

theorem presents_reversedCandidate {c : Candidate Identity}
    (hbindings : c.bindingCount ≤ c.bindings.length)
    (hroles : c.roleCount ≤ c.exclusiveRoles.length) :
    CandidatePresents c (reversedCandidate c) where
  owner := rfl
  identity := rfl
  timer := rfl
  preference := rfl
  size := (length_reversed _ _).symm
  bindings := by
    have hlive : (reversedCandidate c).liveBindings = c.liveBindings.reverse :=
      take_reversed hbindings
    rw [hlive]
    exact (List.reverse_perm _).symm
  bindingCount := rfl
  roleSize := (length_reversed _ _).symm
  roles := by
    have hlive : (reversedCandidate c).liveRoles = c.liveRoles.reverse := take_reversed hroles
    rw [hlive]
    exact (List.reverse_perm _).symm
  roleCount := rfl

theorem presents_reversed {p : Problem Identity} (hcounts : ∀ c ∈ p.candidates,
    c.bindingCount ≤ c.bindings.length ∧ c.roleCount ≤ c.exclusiveRoles.length) :
    Presents p (reversed p) where
  demands := (List.reverse_perm _).symm
  candidates := by
    refine ⟨p.candidates.map reversedCandidate, ?_, (List.reverse_perm _).symm⟩
    rw [List.forall₂_map_right_iff, List.forall₂_same]
    exact fun c hc => presents_reversedCandidate (hcounts c hc).1 (hcounts c hc).2
  reservations := (List.reverse_perm _).symm

theorem board_order_independent :
    solve insertionSorter backtracking boardProblem 100 =
      solve insertionSorter backtracking (reversed boardProblem) 100 :=
  solve_order_independent insertionSorter (presents_reversed (by decide)) backtracking 100

end Reversed

end GrevirPeripherals.OwnerPresentation
