import GrevirPeripherals.OwnerVerdict
import GrevirPeripherals.ScanLoops
import Mathlib.Algebra.GroupWithZero.Nat

/-!
The owners of an application from `own.hpp` to a plan: the declarations become the array
of demands, and what the allocator makes of them is read back in terms of the declarations.
-/

namespace GrevirPeripherals.OwnerApplication

open GrevirPeripherals.AllocationSearch
open GrevirPeripherals.ChoiceProblems
open GrevirPeripherals.OwnerAllocation
open GrevirPeripherals.OwnerAllocator
open GrevirPeripherals.OwnerModel
open GrevirPeripherals.OwnerSolution
open GrevirPeripherals.OwnerSoundness
open GrevirPeripherals.OwnerValidation
open GrevirPeripherals.OwnerVerdict
open GrevirPeripherals.ScanLoops
open GrevirPeripherals.StandardSort
open GrevirPeripherals.Strings

section Declarations

/-- A type with `is_timer_use`, such as a `PeriodEventUse`. -/
structure Use where
  name : StringView
  kind : UseKind

/-- An item of `Own`: a use, or an option of any other type. -/
inductive Item (α : Type) where
  | use (use : Use)
  | option (option : α)

def Item.isUse {α : Type} : Item α → Bool
  | .use _ => true
  | .option _ => false

/-- `Own<Items...>`, which rejects an owner without uses. -/
structure Own (α : Type) where
  items : List (Item α)
  hasUses : (items.map fun item => item.isUse.toNat).sum > 0

structure Instance (α : Type) where
  name : StringView
  demand : Own α

variable {α : Type}

def Own.count (own : Own α) : Nat :=
  (own.items.map fun item => item.isUse.toNat).sum

/-- The uses, in their order, visited with the state `s` of the visitor. -/
def Own.visit {σ : Type} (own : Own α) (f : σ → Use → σ) (s : σ) : σ :=
  own.items.foldl (fun s item =>
    match item with
    | .use use => f s use
    | .option _ => s) s

def demandOf (i : Instance α) (use : Use) : UseDemand where
  key := { owner := i.name, localName := use.name }
  kind := use.kind

/-- The array of `demands`, filled instance by instance. -/
def demands (instances : List (Instance α)) : List UseDemand :=
  let count := (instances.map fun i => i.demand.count).sum
  let result : List UseDemand × Nat := (List.replicate count {}, 0)
  (instances.foldl (fun result i => i.demand.visit (put (demandOf i)) result) result).1

def Own.uses (own : Own α) : List Use :=
  own.items.filterMap fun
    | .use use => some use
    | .option _ => none

theorem Own.visit_eq {σ : Type} (own : Own α) (f : σ → Use → σ) (s : σ) :
    own.visit f s = own.uses.foldl f s := by
  rw [visit, uses]
  induction own.items generalizing s with
  | nil => rfl
  | cons item items ih => cases item <;> exact ih _

theorem Own.count_eq (own : Own α) : own.count = own.uses.length := by
  rw [count, uses]
  induction own.items with
  | nil => rfl
  | cons item items ih =>
      cases item with
      | use use =>
          rw [List.map_cons, List.sum_cons, ih, Nat.add_comm]
          rfl
      | option option =>
          rw [List.map_cons, List.sum_cons, ih]
          exact Nat.zero_add _

theorem Own.uses_ne_nil (own : Own α) : own.uses ≠ [] := by
  have hpos : 0 < own.count := own.hasUses
  rw [count_eq] at hpos
  exact List.length_pos_iff.mp hpos

/-- The array has one entry for each use and is filled to its end. -/
theorem demands_eq (instances : List (Instance α)) :
    demands instances = instances.flatMap fun i => i.demand.uses.map (demandOf i) := by
  have hvisits : (fun (result : List UseDemand × Nat) (i : Instance α) =>
        i.demand.visit (put (demandOf i)) result) =
      fun result i => (i.demand.uses.map (demandOf i)).foldl (put id) result := by
    funext result i
    rw [Own.visit_eq, List.foldl_map]
    rfl
  have hlength : (instances.map fun i => i.demand.count).sum =
      (instances.flatMap fun i => i.demand.uses.map (demandOf i)).length := by
    simp only [List.length_flatMap, List.length_map, Own.count_eq]
  have hfill := foldl_put id (instances.flatMap fun i => i.demand.uses.map (demandOf i)) []
    (List.replicate (instances.map fun i => i.demand.count).sum {})
    (by rw [List.length_replicate, hlength])
  rw [List.foldl_flatMap, List.nil_append, List.map_id] at hfill
  rw [demands, hvisits]
  exact congrArg Prod.fst hfill

end Declarations

section Placements

variable {α Identity : Type} (instances : List (Instance α))

/-- The keys of all uses, in the order of their declaration. -/
def declaredKeys : List UseKey :=
  instances.flatMap fun i => i.demand.uses.map fun use => (demandOf i use).key

/-- A candidate that belongs to the owner and binds what is declared under its name, each
use with its kind, and nothing else. -/
structure Serves (owner : StringView) (c : Candidate Identity) : Prop where
  sameOwner : c.owner = owner
  uses : ∀ use, use ∈ c.liveBindings.map useOfBinding ↔
    ∃ i ∈ instances, i.name = owner ∧ ∃ u ∈ i.demand.uses, useOfDemand (demandOf i u) = use

/-- One candidate for each name, none of them holding a reserved resource and no two
holding one resource. -/
structure Placement (p : Problem Identity) (choice : StringView → Candidate Identity) :
    Prop where
  mem : ∀ i ∈ instances, choice i.name ∈ p.candidates
  serves : ∀ i ∈ instances, Serves instances i.name (choice i.name)
  unreserved : ∀ i ∈ instances, Unreserved p.reservations (choice i.name)
  disjoint : ∀ i ∈ instances, ∀ j ∈ instances, i.name ≠ j.name →
    DisjointResources (choice i.name) (choice j.name)

/-- The problem that the application poses on the candidates and reservations of `p`. -/
def posed (p : Problem Identity) : Problem Identity :=
  { p with demands := demands instances }

variable {instances}

theorem mem_demands_iff (demand : UseDemand) :
    demand ∈ demands instances ↔
      ∃ i ∈ instances, ∃ use ∈ i.demand.uses, demandOf i use = demand := by
  rw [demands_eq]
  simp only [List.mem_flatMap, List.mem_map]

variable (instances) in
/-- Every instance is an owner, since it has a use. -/
theorem forall_owner_iff (P : StringView → Prop) :
    (∀ demand ∈ demands instances, P demand.key.owner) ↔ ∀ i ∈ instances, P i.name := by
  constructor
  · intro h i hi
    obtain ⟨use, huse⟩ := List.exists_mem_of_ne_nil _ i.demand.uses_ne_nil
    exact h _ ((mem_demands_iff _).mpr ⟨i, hi, use, huse, rfl⟩)
  · intro h demand hdemand
    obtain ⟨i, hi, use, -, rfl⟩ := (mem_demands_iff demand).mp hdemand
    exact h i hi

theorem fitting_iff_serves (owner : StringView) (c : Candidate Identity) :
    Fitting (demands instances) owner c ↔ Serves instances owner c := by
  have huses : ∀ use, use ∈ (demandsOf (demands instances) owner).map useOfDemand ↔
      ∃ i ∈ instances, i.name = owner ∧ ∃ u ∈ i.demand.uses, useOfDemand (demandOf i u) = use := by
    intro use
    simp only [List.mem_map, demandsOf, List.mem_filter, mem_demands_iff, decide_eq_true_eq]
    constructor
    · rintro ⟨_, ⟨⟨i, hi, u, hu, rfl⟩, howner⟩, rfl⟩
      exact ⟨i, hi, howner, u, hu, rfl⟩
    · rintro ⟨i, hi, howner, u, hu, rfl⟩
      exact ⟨_, ⟨⟨i, hi, u, hu, rfl⟩, howner⟩, rfl⟩
  constructor
  · rintro ⟨howner, hall⟩
    exact ⟨howner, fun use => (hall use).trans (huses use)⟩
  · rintro ⟨howner, hall⟩
    exact ⟨howner, fun use => (hall use).trans (huses use).symm⟩

/-- The allocations of the posed problem are the placements of the application. -/
theorem allocation_iff_placement (p : Problem Identity)
    (choice : StringView → Candidate Identity) :
    Allocation (posed instances p) choice ↔ Placement instances p choice := by
  have hmem := forall_owner_iff instances fun owner => choice owner ∈ p.candidates
  have hserves := forall_owner_iff instances fun owner => Serves instances owner (choice owner)
  have hunreserved := forall_owner_iff instances fun owner =>
    Unreserved p.reservations (choice owner)
  have hdisjoint := forall_owner_iff instances fun owner => ∀ demand ∈ demands instances,
    owner ≠ demand.key.owner → DisjointResources (choice owner) (choice demand.key.owner)
  have hdisjoint' := fun owner => forall_owner_iff instances fun owner' =>
    owner ≠ owner' → DisjointResources (choice owner) (choice owner')
  simp only [← fitting_iff_serves] at hserves
  constructor
  · intro h
    refine ⟨hmem.mp h.mem, ?_, hunreserved.mp h.unreserved, ?_⟩
    · exact fun i hi => (fitting_iff_serves _ _).mp (hserves.mp h.fitting i hi)
    · exact fun i hi => (hdisjoint' i.name).mp (hdisjoint.mp h.disjoint i hi)
  · intro h
    refine ⟨hmem.mpr h.mem, ?_, hunreserved.mpr h.unreserved, ?_⟩
    · exact hserves.mpr fun i hi => (fitting_iff_serves _ _).mpr (h.serves i hi)
    · exact hdisjoint.mpr fun i hi => (hdisjoint' i.name).mpr (h.disjoint i hi)

end Placements

section Solve

variable {α Identity : Type} [LinearOrder Identity] [Inhabited Identity] (sorter : Sorter)
  (search : Search) (instances : List (Instance α)) (p : Problem Identity) (budget : UInt32)

/-- The names of the declarations are components, and no two uses have one key. -/
structure WellDeclared : Prop where
  named : ∀ key ∈ declaredKeys instances, WellNamed key
  distinct : (declaredKeys instances).Nodup

/-- What a plan says about the declarations: a success places every instance and names
the candidates use by use, a refusal means that there is no placement, and sound
declarations that can be placed are placed unless the budget runs out. -/
structure Settles (plan : Plan Identity) : Prop where
  realized : plan.ok = true → WellDeclared instances ∧
    plan.uses.Perm (declaredKeys instances) ∧ plan.uses.Pairwise (· < ·) ∧
      ∃ choice, Placement instances p choice ∧
        plan.candidates = plan.uses.map fun key => (choice key.owner).identity
  refused : verdict plan.diagnostic.status = .refused →
    ¬∃ choice, Placement instances p choice
  complete : WellDeclared instances → ValidCandidates (demands instances) p.candidates →
    (∃ choice, Placement instances p choice) →
      plan.ok = true ∨ plan.diagnostic.status = .exhausted

theorem map_key_demands : (demands instances).map UseDemand.key = declaredKeys instances := by
  rw [demands_eq, declaredKeys]
  simp only [List.map_flatMap, List.map_map]
  rfl

theorem validDemands_iff : ValidDemands (demands instances) ↔ WellDeclared instances := by
  have hnamed : (∀ demand ∈ demands instances, WellNamed demand.key) ↔
      ∀ key ∈ declaredKeys instances, WellNamed key := by
    rw [← map_key_demands, List.forall_mem_map]
  have hdistinct : ((demands instances).Pairwise fun a b => a.key ≠ b.key) ↔
      (declaredKeys instances).Nodup := by
    rw [← map_key_demands]
    exact List.pairwise_map.symm
  constructor
  · rintro ⟨h, h'⟩
    exact ⟨hnamed.mp h, hdistinct.mp h'⟩
  · rintro ⟨h, h'⟩
    exact ⟨hnamed.mpr h, hdistinct.mpr h'⟩

/-- From the declarations to the plan and back, whatever the candidates and reservations. -/
theorem solve_settles_owners :
    Settles instances p (solve sorter search (posed instances p) budget) := by
  have hsolvable : (choiceProblem (posed instances p)).Solvable ↔
      ∃ choice, Placement instances p choice :=
    exists_congr fun choice =>
      (solves_iff_allocation _ choice).trans (allocation_iff_placement p choice)
  constructor
  case realized =>
    intro hok
    obtain ⟨hdemands, -, visited, choice, hallocation, hsolve⟩ :=
      exists_allocation_of_ok sorter search hok
    have hperm := sortedUses_perm sorter (posed instances p)
    rw [posed, map_key_demands] at hperm
    rw [hsolve]
    exact ⟨(validDemands_iff instances).mp hdemands, hperm, sortedUses_strict sorter hdemands,
      choice, (allocation_iff_placement p choice).mp hallocation, rfl⟩
  case refused =>
    intro hrefused
    rw [← hsolvable]
    exact (solve_exact sorter search (posed instances p) budget).not_solvable hrefused
  case complete =>
    intro hdeclared hcandidates hplacement
    have hvalid := And.intro ((validDemands_iff instances).mpr hdeclared) hcandidates
    exact (verdict_of_valid sorter search (posed instances p) budget hvalid).of_solvable
      (hsolvable.mpr hplacement)

end Solve

section Board

/-- The declarations behind the demands of the board. -/
def clock : Instance Unit where
  name := text "clock"
  demand := { items := [.use ⟨text "tick", .periodEvent⟩], hasUses := by decide }

def drive : Instance Unit where
  name := text "drive"
  demand :=
    { items := [.use ⟨text "output", .pwm⟩, .option (), .use ⟨text "period", .periodEvent⟩]
      hasUses := by decide }

example : (solve insertionSorter backtracking (posed [drive, clock] boardProblem) 100).candidates =
    [11, 22, 22] := by
  decide +kernel

end Board

end GrevirPeripherals.OwnerApplication
