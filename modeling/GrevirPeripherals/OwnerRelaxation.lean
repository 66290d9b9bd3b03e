import GrevirPeripherals.OwnerApplication
import Mathlib.Data.List.Flatten

/-!
Relaxing an application of timer owners: some instances go, reservations are given up, and
candidates are replaced by others that hold less. What was placed is not refused afterwards.
-/

namespace GrevirPeripherals.OwnerRelaxation

open GrevirPeripherals.AllocationSearch
open GrevirPeripherals.ChoiceProblems
open GrevirPeripherals.ChoiceProblems.ChoiceProblem
open GrevirPeripherals.OwnerAllocator
open GrevirPeripherals.OwnerApplication
open GrevirPeripherals.OwnerModel
open GrevirPeripherals.OwnerSoundness
open GrevirPeripherals.OwnerValidation
open GrevirPeripherals.OwnerVerdict
open GrevirPeripherals.StandardSort
open GrevirPeripherals.Strings

variable {α Identity : Type}

/-- `c'` answers the same uses of the same owner, and holds nothing that `c` does not. -/
structure Improves (c c' : Candidate Identity) : Prop where
  owner : c'.owner = c.owner
  uses : ∀ use, use ∈ c'.liveBindings.map useOfBinding ↔ use ∈ c.liveBindings.map useOfBinding
  resources : ∀ resource, Occupies c' resource → Occupies c resource

/-- Instances with one name go together, and every candidate of an instance that stays is
replaced by one that is as good. -/
structure Relaxes (instances instances' : List (Instance α)) (p p' : Problem Identity) :
    Prop where
  kept : instances'.Sublist instances
  whole : ∀ i' ∈ instances', ∀ i ∈ instances, i.name = i'.name → i ∈ instances'
  candidates : ∀ i' ∈ instances', ∀ c ∈ p.candidates, c.owner = i'.name →
    ∃ c' ∈ p'.candidates, Improves c c'
  reservations : p'.reservations ⊆ p.reservations

variable {instances instances' : List (Instance α)} {p p' : Problem Identity}

theorem Improves.disjoint {a a' b b' : Candidate Identity} (ha : Improves a a')
    (hb : Improves b b') (h : DisjointResources a b) : DisjointResources a' b' :=
  fun resource hleft hright => h resource (ha.resources _ hleft) (hb.resources _ hright)

section Relaxes

variable (h : Relaxes instances instances' p p')

include h

theorem Relaxes.unreserved {c c' : Candidate Identity} (himproves : Improves c c')
    (hunreserved : Unreserved p.reservations c) : Unreserved p'.reservations c' :=
  fun r hr hoccupies => hunreserved r (h.reservations hr) (himproves.resources r hoccupies)

theorem Relaxes.serves {i' : Instance α} (hi' : i' ∈ instances') {c c' : Candidate Identity}
    (himproves : Improves c c') (hserves : Serves instances i'.name c) :
    Serves instances' i'.name c' := by
  constructor
  case sameOwner => rw [himproves.owner, hserves.sameOwner]
  case uses =>
    intro use
    rw [himproves.uses, hserves.uses]
    constructor
    · rintro ⟨i, hi, hname, huse⟩
      exact ⟨i, h.whole i' hi' i hi hname, hname, huse⟩
    · rintro ⟨i, hi, hname, huse⟩
      exact ⟨i, h.kept.subset hi, hname, huse⟩

theorem Relaxes.eases :
    Eases Improves (choiceProblem (posed instances p)) (choiceProblem (posed instances' p')) := by
  constructor
  case users =>
    rintro _ ⟨demand, hdemand, rfl⟩
    obtain ⟨i, hi, hkey⟩ := (mem_demands_iff demand).mp hdemand
    exact ⟨demand, (mem_demands_iff demand).mpr ⟨i, h.kept.subset hi, hkey⟩, rfl⟩
  case admits =>
    rintro _ ⟨demand, hdemand, rfl⟩ c ⟨hc, hfitting, hunreserved⟩
    obtain ⟨i', hi', use, -, rfl⟩ := (mem_demands_iff demand).mp hdemand
    obtain ⟨c', hc', himproves⟩ := h.candidates i' hi' c hc hfitting.sameOwner
    have hserves := (fitting_iff_serves _ _).mp hfitting
    exact ⟨c', himproves, hc', (fitting_iff_serves _ _).mpr (h.serves hi' himproves hserves),
      h.unreserved himproves hunreserved⟩
  case compatible =>
    rintro _ - _ - - a b a' b' - - ha hb hdisjoint
    exact ha.disjoint hb hdisjoint

theorem Relaxes.wellDeclared (hdeclared : WellDeclared instances) : WellDeclared instances' := by
  have hsublist : (declaredKeys instances').Sublist (declaredKeys instances) :=
    h.kept.flatMap _
  exact ⟨fun key hkey => hdeclared.named key (hsublist.subset hkey),
    hdeclared.distinct.sublist hsublist⟩

/-- What was placed is not refused after a relaxation, and unless it runs out of its budget
the allocator places it again wherever the new candidates are well formed. -/
theorem places_of_relaxes [LinearOrder Identity] [Inhabited Identity] {sorter : Sorter}
    (sorter' : Sorter) (search search' : Search) (budget budget' : UInt32)
    (hok : (solve sorter search (posed instances p) budget).ok = true) :
    verdict (solve sorter' search' (posed instances' p') budget').diagnostic.status ≠ .refused ∧
      (ValidCandidates (demands instances') p'.candidates →
        (solve sorter' search' (posed instances' p') budget').ok = true ∨
          (solve sorter' search' (posed instances' p') budget').diagnostic.status =
            .exhausted) := by
  obtain ⟨hdemands, -, -, choice, hallocation, -⟩ := exists_allocation_of_ok sorter search hok
  have hsolvable : (choiceProblem (posed instances p)).Solvable :=
    ⟨choice, (solves_iff_allocation _ choice).mpr hallocation⟩
  constructor
  · exact (solve_exact sorter' search' (posed instances' p') budget').not_refused hsolvable h.eases
  · intro hcandidates
    have hdeclared := h.wellDeclared ((validDemands_iff instances).mp hdemands)
    have hvalid := And.intro ((validDemands_iff instances').mpr hdeclared) hcandidates
    exact (verdict_of_valid sorter' search' (posed instances' p') budget' hvalid).of_solvable
      (hsolvable.of_eases h.eases)

end Relaxes

section Board

/-- The drive without its clock, its event source and the reservation of the board. -/
def relaxedBoard : Problem Nat where
  demands := []
  candidates :=
    [{ owner := text "drive"
       identity := 23
       timer := 2
       bindings :=
         [{ key := (boardDemand "drive" "period" .pwm).key, kind := .periodEvent, endpoint := 202 },
           { key := (boardDemand "drive" "output" .pwm).key, endpoint := 201 }, {}, {}]
       bindingCount := 2
       exclusiveRoles := [402, 0, 0, 0, 0, 0, 0, 0]
       roleCount := 1 }]
  reservations := []

theorem relaxes_relaxedBoard :
    Relaxes [drive, clock] [drive] boardProblem relaxedBoard where
  kept := by simp
  whole := by
    intro i' hi' i hi hname
    obtain rfl := List.mem_singleton.mp hi'
    simp only [List.mem_cons, List.not_mem_nil, or_false] at hi
    rcases hi with rfl | rfl
    · exact List.mem_singleton_self _
    · exact absurd hname (by decide)
  candidates := by
    intro i' hi' c hc howner
    obtain rfl := List.mem_singleton.mp hi'
    simp only [boardProblem, List.mem_cons, List.not_mem_nil, or_false] at hc
    rcases hc with rfl | rfl
    · refine ⟨_, List.mem_singleton_self _, rfl, ?_, ?_⟩
      · simp [Candidate.liveBindings, useOfBinding, boardDemand, or_comm]
      · simp only [← mem_eachResource_iff]
        decide
    · exact absurd howner (by decide)
  reservations := by simp [relaxedBoard]

theorem relaxedBoard_places :
    verdict (solve insertionSorter backtracking (posed [drive] relaxedBoard)
        100).diagnostic.status ≠ .refused ∧
      (ValidCandidates (demands [drive]) relaxedBoard.candidates →
        (solve insertionSorter backtracking (posed [drive] relaxedBoard) 100).ok = true ∨
          (solve insertionSorter backtracking (posed [drive] relaxedBoard) 100).diagnostic.status =
            .exhausted) := by
  have hok : (solve insertionSorter backtracking (posed [drive, clock] boardProblem) 100).ok =
      true := by
    decide +kernel
  exact places_of_relaxes relaxes_relaxedBoard insertionSorter backtracking backtracking 100 100 hok

end Board

end GrevirPeripherals.OwnerRelaxation
