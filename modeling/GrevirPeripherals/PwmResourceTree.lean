import GrevirPeripherals.PwmValidation
import Mathlib.Logic.Relation

/-!
Containment of resources. A model that passes the check is a forest of timers,
their channels, pins and domains, and the bounded walk over the parents decides
containment in it.
-/

namespace GrevirPeripherals.PwmResourceTree

open GrevirPeripherals.PwmModel
open GrevirPeripherals.PwmValidation

/-- The parent relation of a resource array, in which 0 is no resource. -/
def Parent (resources : List Resource) (child parent : Nat) : Prop :=
  ∃ r ∈ resources, r.id = child ∧ r.parent = parent ∧ parent ≠ 0

/-- `outer` is `inner` or one of its ancestors. -/
def Contains (resources : List Resource) (outer inner : Nat) : Prop :=
  Relation.ReflTransGen (Parent resources) inner outer

/-- Two resources are equal, or one contains the other. -/
def Related (resources : List Resource) (a b : Nat) : Prop :=
  Contains resources a b ∨ Contains resources b a

def HasKind (resources : List Resource) (id : Nat) (kind : Kind) : Prop :=
  ∃ r ∈ resources, r.id = id ∧ r.kind = kind

structure TwoLevel (resources : List Resource) : Prop where
  nonzero : ∀ r ∈ resources, r.id ≠ 0
  distinct : (resources.map Resource.id).Nodup
  channel : ∀ r ∈ resources, r.kind = .channel → HasKind resources r.parent .timer
  root : ∀ r ∈ resources, r.kind ≠ .channel → r.parent = 0

section Lookup

variable {resources : List Resource}

theorem mem_of_resource {id : Nat} {r : Resource} (h : resource resources id = some r) :
    r ∈ resources ∧ r.id = id := by
  rw [resource] at h
  exact ⟨List.mem_of_find?_eq_some h, by simpa using List.find?_some h⟩

/-- With distinct identities the first match is the only one. -/
theorem resource_eq_some_iff (hdistinct : (resources.map Resource.id).Nodup) {id : Nat}
    {r : Resource} : resource resources id = some r ↔ r ∈ resources ∧ r.id = id := by
  constructor
  · exact mem_of_resource
  · rintro ⟨hr, rfl⟩
    have hsome : (resource resources r.id).isSome := by
      rw [resource, List.find?_isSome]
      exact ⟨r, hr, by simp⟩
    obtain ⟨found, hfound⟩ := Option.isSome_iff_exists.mp hsome
    obtain ⟨hmem, hid⟩ := mem_of_resource hfound
    rw [hfound, List.inj_on_of_nodup_map hdistinct hmem hr hid]

theorem resource_eq_none_iff {id : Nat} :
    resource resources id = none ↔ ∀ r ∈ resources, r.id ≠ id := by
  simp [resource]

theorem hasKind_of_isKind {id : Nat} {kind : Kind} (h : isKind resources id kind = true) :
    HasKind resources id kind := by
  rw [isKind] at h
  split at h
  next r hr =>
    obtain ⟨hmem, hid⟩ := mem_of_resource hr
    exact ⟨r, hmem, hid, by simpa using h⟩
  next => contradiction

theorem isKind_eq_true_iff (hdistinct : (resources.map Resource.id).Nodup) (id : Nat)
    (kind : Kind) : isKind resources id kind = true ↔ HasKind resources id kind := by
  constructor
  · exact hasKind_of_isKind
  · rintro ⟨r, hr, hid, hkind⟩
    have hfound := (resource_eq_some_iff hdistinct).mpr ⟨hr, hid⟩
    simp [isKind, hfound, hkind]

theorem distinct_iff_countP :
    (resources.map Resource.id).Nodup ↔
      ∀ r ∈ resources, resources.countP (fun other => r.id = other.id) = 1 := by
  have hcount : ∀ r : Resource, resources.countP (fun other => r.id = other.id) =
      (resources.map Resource.id).count r.id := by
    intro r
    rw [List.count, List.countP_map]
    congr 1
    funext other
    rw [Bool.eq_iff_iff, Function.comp_apply, beq_iff_eq, decide_eq_true_iff]
    exact eq_comm
  simp only [hcount, List.nodup_iff_count_eq_one, List.forall_mem_map]

theorem twoLevel_iff :
    resources.all (validResource resources) = true ↔ TwoLevel resources := by
  simp only [List.all_eq_true, validResource, Bool.and_eq_true, decide_eq_true_eq]
  constructor
  · intro h
    have hdistinct := distinct_iff_countP.mpr fun r hr => (h r hr).1.2
    refine ⟨fun r hr => (h r hr).1.1, hdistinct, ?_, ?_⟩
    · intro r hr hkind
      have hparent := (h r hr).2
      rw [if_pos hkind] at hparent
      exact hasKind_of_isKind hparent
    · intro r hr hkind
      have hparent := (h r hr).2
      rw [if_neg hkind] at hparent
      simpa using hparent
  · intro h r hr
    refine ⟨⟨h.nonzero r hr, distinct_iff_countP.mp h.distinct r hr⟩, ?_⟩
    split_ifs with hkind
    · exact (isKind_eq_true_iff h.distinct _ _).mpr (h.channel r hr hkind)
    · simpa using h.root r hr hkind

end Lookup

namespace TwoLevel

variable {resources : List Resource} (h : TwoLevel resources)

include h

theorem kind_unique {id : Nat} {kind kind' : Kind} (hkind : HasKind resources id kind)
    (hkind' : HasKind resources id kind') : kind = kind' := by
  obtain ⟨r, hr, hid, rfl⟩ := hkind
  obtain ⟨r', hr', hid', rfl⟩ := hkind'
  rw [List.inj_on_of_nodup_map h.distinct hr hr' (hid.trans hid'.symm)]

theorem ne_zero_of_hasKind {id : Nat} {kind : Kind} (hkind : HasKind resources id kind) :
    id ≠ 0 := by
  obtain ⟨r, hr, rfl, -⟩ := hkind
  exact h.nonzero r hr

/-- Only channels have a parent, and it is a timer. -/
theorem kinds_of_parent {child parent : Nat} (hparent : Parent resources child parent) :
    HasKind resources child .channel ∧ HasKind resources parent .timer := by
  obtain ⟨r, hr, hchild, rfl, hne⟩ := hparent
  by_cases hkind : r.kind = .channel
  · exact ⟨⟨r, hr, hchild, hkind⟩, h.channel r hr hkind⟩
  · exact absurd (h.root r hr hkind) hne

theorem contains_iff (outer inner : Nat) :
    Contains resources outer inner ↔ inner = outer ∨ Parent resources inner outer := by
  constructor
  · intro hcontains
    rcases Relation.ReflTransGen.cases_head hcontains with heq | ⟨middle, hfirst, hrest⟩
    · exact Or.inl heq
    · rcases Relation.ReflTransGen.cases_head hrest with rfl | ⟨last, hsecond, -⟩
      · exact Or.inr hfirst
      · -- A timer has no parent.
        have hkind := h.kind_unique (h.kinds_of_parent hfirst).2 (h.kinds_of_parent hsecond).1
        contradiction
  · rintro (rfl | hparent)
    · exact Relation.ReflTransGen.refl
    · exact Relation.ReflTransGen.single hparent

/-- Two steps of the walk are enough, and its bound allows them. -/
theorem descendant_eq_true_iff (child ancestor : Nat) :
    descendant resources child ancestor = true ↔
      child ≠ 0 ∧ Contains resources ancestor child := by
  rw [h.contains_iff, descendant, descendantWithin]
  by_cases hzero : child = 0
  · simp [hzero]
  by_cases heq : child = ancestor
  · simp [heq, heq ▸ hzero]
  rw [if_neg hzero, if_neg heq, or_iff_right heq, and_iff_right hzero]
  cases hchild : resource resources child with
  | none =>
      have hnone := resource_eq_none_iff.mp hchild
      refine iff_of_false (by simp) ?_
      rintro ⟨r, hr, hid, -⟩
      exact hnone r hr hid
  | some r =>
      obtain ⟨hr, hid⟩ := mem_of_resource hchild
      obtain ⟨steps, hsteps⟩ := Nat.exists_eq_add_one.mpr (List.length_pos_of_mem hr)
      have hparent : ∀ parent, Parent resources child parent ↔ r.parent = parent ∧ parent ≠ 0 := by
        intro parent
        constructor
        · rintro ⟨r', hr', hid', hparent, hne⟩
          obtain rfl := List.inj_on_of_nodup_map h.distinct hr hr' (hid.trans hid'.symm)
          exact ⟨hparent, hne⟩
        · rintro ⟨hparent, hne⟩
          exact ⟨r, hr, hid, hparent, hne⟩
      simp only [hsteps, descendantWithin, hparent]
      by_cases hroot : r.parent = 0
      · simp only [hroot, if_true, Bool.false_eq_true, false_iff, not_and, not_not]
        exact Eq.symm
      rw [if_neg hroot]
      by_cases hfound : r.parent = ancestor
      · simp [hfound, hfound ▸ hroot]
      rw [if_neg hfound]
      refine iff_of_false ?_ fun hparent => hfound hparent.1
      cases htimer : resource resources r.parent with
      | none => simp
      | some timer =>
          obtain ⟨htimer, hid'⟩ := mem_of_resource htimer
          have hkind := (h.kinds_of_parent ((hparent r.parent).mpr ⟨rfl, hroot⟩)).2
          have hzero' : timer.parent = 0 := by
            apply h.root timer htimer
            intro hchannel
            have := h.kind_unique hkind ⟨timer, htimer, hid', hchannel⟩
            contradiction
          cases steps <;> simp [descendantWithin, hzero']

theorem overlaps_eq_true_iff (a b : Nat) :
    overlaps resources a b = true ↔ (a ≠ 0 ∧ b ≠ 0) ∧ Related resources a b := by
  simp only [overlaps, Bool.and_eq_true, Bool.or_eq_true, decide_eq_true_eq,
    h.descendant_eq_true_iff, Related]
  constructor
  · rintro ⟨hne, hba | hab⟩
    · exact ⟨hne, Or.inr hba.2⟩
    · exact ⟨hne, Or.inl hab.2⟩
  · rintro ⟨hne, hab | hba⟩
    · exact ⟨hne, Or.inr ⟨hne.2, hab⟩⟩
    · exact ⟨hne, Or.inl ⟨hne.1, hba⟩⟩

/-- How two resources of known kinds can be related. -/
theorem related_cases {a b : Nat} (hrelated : Related resources a b) :
    a = b ∨ Parent resources a b ∨ Parent resources b a := by
  rcases hrelated with hab | hba
  · rcases (h.contains_iff a b).mp hab with rfl | hparent
    · exact Or.inl rfl
    · exact Or.inr (Or.inr hparent)
  · rcases (h.contains_iff b a).mp hba with rfl | hparent
    · exact Or.inl rfl
    · exact Or.inr (Or.inl hparent)

end TwoLevel

theorem overlaps_comm (resources : List Resource) (a b : Nat) :
    overlaps resources a b = overlaps resources b a := by
  rw [overlaps, overlaps, Bool.or_comm, Bool.and_comm (decide (a ≠ 0))]

section Permutation

variable {resources resources' : List Resource}

theorem HasKind.perm (hperm : resources.Perm resources') {id : Nat} {kind : Kind}
    (h : HasKind resources id kind) : HasKind resources' id kind := by
  obtain ⟨r, hr, hid, hkind⟩ := h
  exact ⟨r, hperm.mem_iff.mp hr, hid, hkind⟩

theorem TwoLevel.perm (hperm : resources.Perm resources') (h : TwoLevel resources) :
    TwoLevel resources' where
  nonzero r hr := h.nonzero r (hperm.mem_iff.mpr hr)
  distinct := (hperm.map _).nodup_iff.mp h.distinct
  channel r hr hkind := (h.channel r (hperm.mem_iff.mpr hr) hkind).perm hperm
  root r hr hkind := h.root r (hperm.mem_iff.mpr hr) hkind

theorem TwoLevel.resource_congr (h : TwoLevel resources) (hperm : resources.Perm resources') :
    resource resources = resource resources' := by
  funext id
  apply Option.ext
  intro r
  rw [resource_eq_some_iff h.distinct, resource_eq_some_iff (h.perm hperm).distinct,
    hperm.mem_iff]

theorem TwoLevel.descendant_congr (h : TwoLevel resources) (hperm : resources.Perm resources') :
    descendant resources = descendant resources' := by
  have hwithin : ∀ ancestor steps child,
      descendantWithin resources ancestor steps child =
        descendantWithin resources' ancestor steps child := by
    intro ancestor steps
    induction steps with
    | zero => intro child; rfl
    | succ steps ih =>
        intro child
        simp only [descendantWithin, h.resource_congr hperm, ih]
  funext child ancestor
  rw [descendant, descendant, hwithin, hperm.length_eq]

theorem TwoLevel.overlaps_congr (h : TwoLevel resources) (hperm : resources.Perm resources') :
    overlaps resources = overlaps resources' := by
  funext a b
  simp only [overlaps, h.descendant_congr hperm]

theorem TwoLevel.isKind_congr (h : TwoLevel resources) (hperm : resources.Perm resources') :
    isKind resources = isKind resources' := by
  funext id kind
  simp only [isKind, h.resource_congr hperm]

end Permutation

end GrevirPeripherals.PwmResourceTree
