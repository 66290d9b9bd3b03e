import GrevirPeripherals.OwnerAllocator
import Mathlib.Data.List.Perm.Subperm
import Mathlib.Order.Bounds.Defs

/-!
What the owner allocator's checks accept, stated without reference to the order
of the arrays: the demands, the candidates, and the fit of a candidate.
-/

namespace GrevirPeripherals.OwnerValidation

open GrevirPeripherals.OrderedChecks
open GrevirPeripherals.OwnerAllocator
open GrevirPeripherals.OwnerModel
open GrevirPeripherals.StandardSort
open GrevirPeripherals.Strings

def WellNamed (key : UseKey) : Prop :=
  validComponent key.owner = true ∧ validComponent key.localName = true

instance (key : UseKey) : Decidable (WellNamed key) :=
  inferInstanceAs (Decidable (_ ∧ _))

structure ValidDemands (demands : List UseDemand) : Prop where
  wellNamed : ∀ demand ∈ demands, WellNamed demand.key
  distinct : demands.Pairwise fun a b => a.key ≠ b.key

/-- A key of the demands that is malformed or occurs more than once. -/
def Faulty (demands : List UseDemand) (key : UseKey) : Prop :=
  key ∈ demands.map UseDemand.key ∧
    (¬WellNamed key ∨ 2 ≤ (demands.map UseDemand.key).count key)

theorem Faulty.perm {demands demands' : List UseDemand} (hperm : demands.Perm demands')
    {key : UseKey} (h : Faulty demands key) : Faulty demands' key := by
  have hkeys := hperm.map UseDemand.key
  rw [Faulty, ← hkeys.mem_iff, ← hkeys.count_eq]
  exact h

theorem ValidDemands.perm {demands demands' : List UseDemand} (hperm : demands.Perm demands')
    (h : ValidDemands demands) : ValidDemands demands' where
  wellNamed demand hdemand := h.wellNamed demand (hperm.mem_iff.mpr hdemand)
  distinct := hperm.pairwise h.distinct fun hab => hab.symm

theorem ValidDemands.nodup_keys {demands : List UseDemand} (h : ValidDemands demands) :
    (demands.map UseDemand.key).Nodup :=
  List.pairwise_map.mpr h.distinct

theorem checkDemand_eq_ok_iff (placed : List UseDemand) (demand : UseDemand) :
    checkDemand placed demand = .ok () ↔
      WellNamed demand.key ∧
        ∀ previous, placed.getLast? = some previous → previous.key ≠ demand.key := by
  rw [checkDemand, WellNamed]
  cases howner : validComponent demand.key.owner with
  | false => simp
  | true =>
      cases hlocal : validComponent demand.key.localName with
      | false => simp
      | true =>
          cases hlast : placed.getLast? with
          | none => simp
          | some previous =>
              simp only [Bool.not_true, Bool.or_self, Bool.false_eq_true, if_false, true_and,
                and_self, Option.some.injEq, forall_eq']
              split_ifs with heq
              · exact iff_of_false nofun fun hne => hne heq.symm
              · exact iff_of_true rfl fun hne => heq hne.symm

/-- The two ways in which a demand can fail, both reported for its own key. -/
theorem checkDemand_eq_error_iff (placed : List UseDemand) (demand : UseDemand)
    (diagnostic : Diagnostic) :
    checkDemand placed demand = .error diagnostic ↔
      (¬WellNamed demand.key ∧ diagnostic = ⟨.invalidIdentity, demand.key, 0⟩) ∨
        (WellNamed demand.key ∧ diagnostic = ⟨.duplicateIdentity, demand.key, 0⟩ ∧
          ∃ previous, placed.getLast? = some previous ∧ previous.key = demand.key) := by
  rw [checkDemand, WellNamed]
  cases howner : validComponent demand.key.owner with
  | false => simpa using eq_comm
  | true =>
      cases hlocal : validComponent demand.key.localName with
      | false => simpa using eq_comm
      | true =>
          cases hlast : placed.getLast? with
          | none => simp
          | some previous =>
              by_cases heq : demand.key = previous.key
              · simpa [heq] using eq_comm
              · simp [heq, Ne.symm heq]

theorem checked_demands_iff {demands : List UseDemand}
    (hascending : demands.Pairwise fun a b => a.key ≤ b.key) :
    (∀ placed demand rest, demands = placed ++ demand :: rest →
      checkDemand placed demand = .ok ()) ↔ ValidDemands demands := by
  constructor
  · intro hchecked
    constructor
    · intro demand hdemand
      obtain ⟨placed, rest, hsplit⟩ := List.append_of_mem hdemand
      exact ((checkDemand_eq_ok_iff _ _).mp (hchecked _ _ _ hsplit)).1
    · apply pairwise_ne_of_adjacent hascending
      intro placed demand rest hsplit
      exact ((checkDemand_eq_ok_iff _ _).mp (hchecked _ _ _ hsplit)).2
  · rintro h placed demand rest rfl
    rw [checkDemand_eq_ok_iff]
    refine ⟨h.wellNamed demand (by simp), ?_⟩
    intro previous hprevious
    exact (List.pairwise_append.mp h.distinct).2.2 previous
      (List.mem_of_getLast? hprevious) demand (by simp)

/-- The report on demands that fail names the least faulty key. -/
theorem checkDemands_error {demands : List UseDemand}
    (hascending : demands.Pairwise fun a b => a.key ≤ b.key) {diagnostic : Diagnostic}
    (h : checkInOrder checkDemand [] demands = .error diagnostic) :
    IsLeast {key | Faulty demands key} diagnostic.use ∧
      diagnostic = ⟨if WellNamed diagnostic.use then .duplicateIdentity else .invalidIdentity,
        diagnostic.use, 0⟩ := by
  obtain ⟨placed, demand, rest, rfl, herror, hok⟩ :=
    (checkInOrder_eq_error_iff _ _ _ _).mp h
  rw [List.nil_append] at herror
  have hsplit := List.pairwise_append.mp hascending
  have hplaced : ValidDemands placed := (checked_demands_iff hsplit.1).mp hok
  have hrest : ∀ x ∈ demand :: rest, demand.key ≤ x.key := by
    rw [List.forall_mem_cons]
    exact ⟨le_rfl, fun x hx => List.rel_of_pairwise_cons hsplit.2.1 hx⟩
  -- A fault among the placed demands alone would have been found earlier.
  have hleast : ∀ key, Faulty (placed ++ demand :: rest) key → demand.key ≤ key := by
    rintro key ⟨hmem, hfault⟩
    have hlater : key ∈ (demand :: rest).map UseDemand.key := by
      rw [List.map_append, List.mem_append] at hmem
      rcases hmem with hmem | hmem
      · obtain ⟨x, hx, rfl⟩ := List.mem_map.mp hmem
        rcases hfault with hnamed | hcount
        · exact absurd (hplaced.wellNamed x hx) hnamed
        · have hone := List.nodup_iff_count_le_one.mp hplaced.nodup_keys x.key
          rw [List.map_append, List.count_append] at hcount
          exact List.count_pos_iff.mp (by omega)
      · exact hmem
    obtain ⟨x, hx, rfl⟩ := List.mem_map.mp hlater
    exact hrest x hx
  have hkey : demand.key ∈ (placed ++ demand :: rest).map UseDemand.key := by
    simp
  rcases (checkDemand_eq_error_iff _ _ _).mp herror with
    ⟨hnamed, rfl⟩ | ⟨hnamed, rfl, previous, hprevious, heq⟩
  · exact ⟨⟨⟨hkey, Or.inl hnamed⟩, hleast⟩, by simp [hnamed]⟩
  · refine ⟨⟨⟨hkey, Or.inr ?_⟩, hleast⟩, by simp [hnamed]⟩
    have hbefore : 0 < (placed.map UseDemand.key).count demand.key := by
      rw [List.count_pos_iff, ← heq]
      exact List.mem_map_of_mem (List.mem_of_getLast? hprevious)
    have hhere : 0 < ((demand :: rest).map UseDemand.key).count demand.key := by
      rw [List.count_pos_iff]
      simp
    change 2 ≤ List.count demand.key _
    rw [List.map_append, List.count_append]
    omega

/-- The key and kind under which a binding answers a demand. -/
def useOfBinding (b : UseBinding) : UseKey × UseKind :=
  (b.key, b.kind)

def useOfDemand (demand : UseDemand) : UseKey × UseKind :=
  (demand.key, demand.kind)

def demandsOf (demands : List UseDemand) (owner : StringView) : List UseDemand :=
  demands.filter fun demand => demand.key.owner = owner

theorem ValidDemands.nodup_uses {demands : List UseDemand} (h : ValidDemands demands)
    (owner : StringView) : ((demandsOf demands owner).map useOfDemand).Nodup := by
  apply List.pairwise_map.mpr
  apply (h.distinct.filter _).imp
  intro a b hne heq
  exact hne (congrArg Prod.fst heq)

section Candidates

variable {Identity : Type}

/-- What makes a candidate well formed against the demands. -/
structure WellFormed [Inhabited Identity] (demands : List UseDemand) (c : Candidate Identity) :
    Prop where
  owner : validComponent c.owner = true
  identity : c.identity ≠ default
  timer : c.timer ≠ 0
  bindingCount : 0 < c.bindingCount ∧ c.bindingCount ≤ c.bindings.length
  roleCount : c.roleCount ≤ c.exclusiveRoles.length
  bindings : ∀ b ∈ c.liveBindings, b.key.owner = c.owner ∧
    validComponent b.key.localName = true ∧ b.endpoint ≠ 0 ∧
      ∃ demand ∈ demands, useOfDemand demand = useOfBinding b
  distinct : c.liveBindings.Pairwise fun a b =>
    b.key ≠ a.key ∧ b.endpoint ≠ a.endpoint ∧ (b.pin ≠ 0 → b.pin ≠ a.pin)
  roles : ∀ role ∈ c.liveRoles, role ≠ 0
  distinctRoles : c.liveRoles.Nodup

theorem validBinding_eq_true_iff (demands : List UseDemand) (owner : StringView)
    (b : UseBinding) :
    validBinding demands owner b = true ↔
      b.key.owner = owner ∧ validComponent b.key.localName = true ∧ b.endpoint ≠ 0 ∧
        ∃ demand ∈ demands, useOfDemand demand = useOfBinding b := by
  simp [validBinding, useOfDemand, useOfBinding, and_assoc]

theorem sharesUse_eq_false_iff (b earlier : UseBinding) :
    sharesUse b earlier = false ↔
      b.key ≠ earlier.key ∧ b.endpoint ≠ earlier.endpoint ∧
        (b.pin ≠ 0 → b.pin ≠ earlier.pin) := by
  simp [sharesUse, and_assoc]

theorem validCandidate_eq_true_iff [DecidableEq Identity] [Inhabited Identity]
    (demands : List UseDemand) (c : Candidate Identity) :
    validCandidate demands c = true ↔ WellFormed demands c := by
  simp only [validCandidate, Bool.and_eq_true, checkEach_iff, validBinding_eq_true_iff,
    sharesUse_eq_false_iff, Bool.not_eq_true', Bool.or_eq_false_iff, decide_eq_false_iff_not,
    decide_eq_true_eq, Bool.not_eq_false']
  constructor
  · rintro ⟨⟨⟨⟨⟨⟨⟨howner, hidentity⟩, htimer⟩, hcount⟩, hsize⟩, hroles⟩, hbindings⟩, hrole⟩
    exact
      { owner := howner
        identity := hidentity
        timer := htimer
        bindingCount := ⟨Nat.pos_of_ne_zero hcount, Nat.le_of_not_lt hsize⟩
        roleCount := Nat.le_of_not_lt hroles
        bindings := hbindings.1
        distinct := hbindings.2
        roles := hrole.1
        distinctRoles := hrole.2.imp fun hne => Ne.symm hne }
  · intro h
    refine ⟨⟨⟨⟨⟨⟨⟨h.owner, h.identity⟩, h.timer⟩, h.bindingCount.1.ne'⟩, ?_⟩, ?_⟩,
      h.bindings, h.distinct⟩, h.roles, h.distinctRoles.imp fun hne => Ne.symm hne⟩
    · exact h.bindingCount.2.not_gt
    · exact h.roleCount.not_gt

/-- The candidates pass their checks and no two of them share an identity. -/
structure ValidCandidates [Inhabited Identity] (demands : List UseDemand)
    (candidates : List (Candidate Identity)) : Prop where
  wellFormed : ∀ c ∈ candidates, WellFormed demands c
  distinct : candidates.Pairwise fun a b => a.identity ≠ b.identity

theorem checkCandidates_eq_true_iff [DecidableEq Identity] [Inhabited Identity]
    (demands : List UseDemand) (candidates : List (Candidate Identity)) :
    checkCandidates demands candidates = true ↔ ValidCandidates demands candidates := by
  simp only [checkCandidates, checkEach_iff, validCandidate_eq_true_iff,
    decide_eq_false_iff_not]
  constructor
  · rintro ⟨hformed, hdistinct⟩
    exact ⟨hformed, hdistinct.imp fun hne => Ne.symm hne⟩
  · rintro ⟨hformed, hdistinct⟩
    exact ⟨hformed, hdistinct.imp fun hne => Ne.symm hne⟩

theorem WellFormed.perm [Inhabited Identity] {demands demands' : List UseDemand}
    (hperm : demands.Perm demands') {c : Candidate Identity} (h : WellFormed demands c) :
    WellFormed demands' c := by
  refine { h with bindings := ?_ }
  intro b hb
  obtain ⟨howner, hlocal, hendpoint, demand, hdemand, huse⟩ := h.bindings b hb
  exact ⟨howner, hlocal, hendpoint, demand, hperm.mem_iff.mp hdemand, huse⟩

theorem ValidCandidates.perm [Inhabited Identity] {demands demands' : List UseDemand}
    {candidates candidates' : List (Candidate Identity)} (hdemands : demands.Perm demands')
    (hcandidates : candidates.Perm candidates') (h : ValidCandidates demands candidates) :
    ValidCandidates demands' candidates' where
  wellFormed c hc := (h.wellFormed c (hcandidates.mem_iff.mpr hc)).perm hdemands
  distinct := hcandidates.pairwise h.distinct fun hab => hab.symm

theorem WellFormed.nodup_uses [Inhabited Identity] {demands : List UseDemand}
    {c : Candidate Identity} (h : WellFormed demands c) :
    (c.liveBindings.map useOfBinding).Nodup := by
  apply List.pairwise_map.mpr
  apply h.distinct.imp
  rintro a b ⟨hkey, -⟩ heq
  exact hkey (congrArg Prod.fst heq).symm

theorem WellFormed.length_liveBindings [Inhabited Identity] {demands : List UseDemand}
    {c : Candidate Identity} (h : WellFormed demands c) :
    c.liveBindings.length = c.bindingCount := by
  rw [Candidate.liveBindings, List.length_take]
  exact Nat.min_eq_left h.bindingCount.2

/-- A candidate fits an owner when its bindings answer exactly the owner's demands. -/
structure Fitting (demands : List UseDemand) (owner : StringView) (c : Candidate Identity) :
    Prop where
  sameOwner : c.owner = owner
  uses : ∀ use, use ∈ c.liveBindings.map useOfBinding ↔
    use ∈ (demandsOf demands owner).map useOfDemand

theorem Fitting.perm {demands demands' : List UseDemand} (hperm : demands.Perm demands')
    {owner : StringView} {c : Candidate Identity} (h : Fitting demands owner c) :
    Fitting demands' owner c where
  sameOwner := h.sameOwner
  uses use := by
    rw [h.uses use]
    exact ((hperm.filter _).map useOfDemand).mem_iff

theorem countMatched_eq_some_iff (c : Candidate Identity) (owner : StringView)
    (demands : List UseDemand) (matched count : Nat) :
    countMatched c owner demands matched = some count ↔
      (∀ demand ∈ demandsOf demands owner,
        useOfDemand demand ∈ c.liveBindings.map useOfBinding) ∧
        matched + (demandsOf demands owner).length = count := by
  induction demands generalizing matched with
  | nil => simp [countMatched, demandsOf]
  | cons demand rest ih =>
      rw [countMatched]
      by_cases howner : demand.key.owner = owner
      · have hfilter : demandsOf (demand :: rest) owner = demand :: demandsOf rest owner :=
          List.filter_cons_of_pos (by simpa using howner)
        have hfound : (c.liveBindings.any fun b =>
              b.key = demand.key && b.kind = demand.kind) = true ↔
            useOfDemand demand ∈ c.liveBindings.map useOfBinding := by
          simp [useOfDemand, useOfBinding]
        rw [hfilter, List.forall_mem_cons, List.length_cons, ← hfound,
          if_neg (not_not.mpr howner)]
        cases hany : c.liveBindings.any fun b =>
            b.key = demand.key && b.kind = demand.kind with
        | false => simp
        | true =>
            simp only [Bool.not_true, Bool.false_eq_true, if_false, true_and]
            rw [ih, Nat.add_assoc, Nat.add_comm 1]
      · have hfilter : demandsOf (demand :: rest) owner = demandsOf rest owner :=
          List.filter_cons_of_neg (by simpa using howner)
        rw [hfilter, if_pos howner]
        exact ih matched

/-- Counting the matched demands is enough: bindings and demands are duplicate free. -/
theorem fits_eq_true_iff [Inhabited Identity] {demands : List UseDemand}
    (hdemands : ValidDemands demands) {c : Candidate Identity} (hc : WellFormed demands c)
    (owner : StringView) : fits demands c owner = true ↔ Fitting demands owner c := by
  have hlength : c.liveBindings.length = c.bindingCount := hc.length_liveBindings
  have hloop := countMatched_eq_some_iff c owner demands 0 c.bindingCount
  rw [Nat.zero_add] at hloop
  rw [fits]
  constructor
  · intro h
    split_ifs at h with howner
    obtain ⟨hfound, hcount⟩ := hloop.mp (by simpa using h)
    refine ⟨not_not.mp howner, ?_⟩
    have hsubset : (demandsOf demands owner).map useOfDemand ⊆
        c.liveBindings.map useOfBinding := by
      intro use huse
      obtain ⟨demand, hdemand, rfl⟩ := List.mem_map.mp huse
      exact hfound demand hdemand
    have hperm := (List.subperm_of_subset (hdemands.nodup_uses owner) hsubset).perm_of_length_le
      (by simp [hlength, hcount])
    intro use
    exact hperm.mem_iff.symm
  · rintro ⟨howner, huses⟩
    have hperm := (List.perm_ext_iff_of_nodup hc.nodup_uses (hdemands.nodup_uses owner)).mpr huses
    rw [if_neg (not_not.mpr howner), decide_eq_true_eq, hloop]
    constructor
    · intro demand hdemand
      rw [huses]
      exact List.mem_map_of_mem hdemand
    · simpa [hlength] using hperm.length_eq.symm

/-- The bindings of a fitting candidate and the owner's demands correspond one to one. -/
theorem Fitting.uses_perm [Inhabited Identity] {demands : List UseDemand}
    (hdemands : ValidDemands demands) {c : Candidate Identity} (hc : WellFormed demands c)
    {owner : StringView} (h : Fitting demands owner c) :
    (c.liveBindings.map useOfBinding).Perm ((demandsOf demands owner).map useOfDemand) :=
  (List.perm_ext_iff_of_nodup hc.nodup_uses (hdemands.nodup_uses owner)).mpr h.uses

/-- A candidate occupies its timer, the endpoints and non-zero pins of its
bindings, and its exclusive roles. -/
def Occupies (c : Candidate Identity) (resource : Nat) : Prop :=
  resource = c.timer ∨
    (∃ b ∈ c.liveBindings, resource = b.endpoint ∨ (b.pin ≠ 0 ∧ resource = b.pin)) ∨
    resource ∈ c.liveRoles

theorem mem_eachResource_iff (c : Candidate Identity) (resource : Nat) :
    resource ∈ eachResource c ↔ Occupies c resource := by
  have hbinding : ∀ b : UseBinding,
      resource ∈ b.endpoint :: (if b.pin ≠ 0 then [b.pin] else []) ↔
        resource = b.endpoint ∨ (b.pin ≠ 0 ∧ resource = b.pin) := by
    intro b
    split_ifs with hpin <;> simp [hpin]
  simp only [eachResource, Occupies, List.mem_cons, List.mem_append, List.mem_flatMap]
  simp only [← List.mem_cons, hbinding]

def Unreserved (reservations : List Nat) (c : Candidate Identity) : Prop :=
  ∀ r ∈ reservations, ¬Occupies c r

theorem isReserved_eq_false_iff (reservations : List Nat) (c : Candidate Identity) :
    isReserved reservations c = false ↔ Unreserved reservations c := by
  simp only [isReserved, List.any_eq_false, Unreserved]
  simp only [← mem_eachResource_iff, List.any_eq_true, decide_eq_true_eq, exists_eq_right']

/-- No resource of any category belongs to both candidates. -/
def DisjointResources (a b : Candidate Identity) : Prop :=
  ∀ resource, Occupies a resource → ¬Occupies b resource

theorem compatible_eq_true_iff (a b : Candidate Identity) :
    compatible a b = true ↔ DisjointResources a b := by
  simp only [compatible, Bool.not_eq_true', List.any_eq_false, decide_eq_true_eq, DisjointResources,
    ← mem_eachResource_iff, List.any_eq_true, exists_eq_right']

theorem compatible_comm (a b : Candidate Identity) : compatible a b = compatible b a := by
  rw [Bool.eq_iff_iff, compatible_eq_true_iff, compatible_eq_true_iff]
  constructor
  · intro h resource hb ha
    exact h resource ha hb
  · intro h resource ha hb
    exact h resource hb ha

end Candidates

end GrevirPeripherals.OwnerValidation
