import GrevirPeripherals.PwmResourceTree
import GrevirPeripherals.ShortWalks

/-!
The bounded walk over the parents on an arbitrary resource array, whose identities
may repeat, whose parents may be missing and whose chains may be cyclic.
-/

namespace GrevirPeripherals.PwmReachability

open GrevirPeripherals.PwmModel
open GrevirPeripherals.PwmResourceTree
open GrevirPeripherals.ShortWalks

section Chain

variable (resources : List Resource)

/-- `child = x 0, …, x k = ancestor` are not zero, and each but the last is followed by
the parent of the first resource of its identity. -/
structure Ancestry (child ancestor k : Nat) (x : Nat → Nat) : Prop where
  start : x 0 = child
  finish : x k = ancestor
  nonzero : ∀ i, i ≤ k → x i ≠ 0
  parent : ∀ i, i < k → ∃ r, resource resources (x i) = some r ∧ r.parent = x (i + 1)

def Reaches (child ancestor : Nat) : Prop :=
  ∃ k x, Ancestry resources child ancestor k x

/-- One step of a chain. -/
def FirstParent (child parent : Nat) : Prop :=
  parent ≠ 0 ∧ ∃ r, resource resources child = some r ∧ r.parent = parent

/-- The loop of `descendant` with the number of times that its body is entered. -/
def descendantWalk (ancestor : Nat) : Nat → Nat → Bool × Nat
  | 0, _ => (false, 0)
  | steps + 1, child =>
      if child = 0 then (false, 0)
      else if child = ancestor then (true, 1)
      else
        match resource resources child with
        | none => (false, 1)
        | some r =>
            let rest := descendantWalk ancestor steps r.parent
            (rest.1, 1 + rest.2)

theorem descendantWalk_fst (ancestor steps child : Nat) :
    (descendantWalk resources ancestor steps child).1 =
      descendantWithin resources ancestor steps child := by
  induction steps generalizing child with
  | zero => rfl
  | succ steps ih =>
      rw [descendantWalk, descendantWithin]
      split_ifs
      · rfl
      · rfl
      · cases resource resources child with
        | none => rfl
        | some r => exact ih r.parent

theorem descendantWalk_snd_le (ancestor steps child : Nat) :
    (descendantWalk resources ancestor steps child).2 ≤ steps := by
  induction steps generalizing child with
  | zero => exact le_rfl
  | succ steps ih =>
      rw [descendantWalk]
      split_ifs
      · exact Nat.zero_le _
      · exact Nat.succ_le_succ (Nat.zero_le steps)
      · cases resource resources child with
        | none => exact Nat.succ_le_succ (Nat.zero_le steps)
        | some r =>
            change 1 + (descendantWalk resources ancestor steps r.parent).2 ≤ steps + 1
            have hrest := ih r.parent
            omega

variable {resources} {child ancestor k : Nat} {x : Nat → Nat}

theorem ancestry_iff_isWalk :
    Ancestry resources child ancestor k x ↔
      child ≠ 0 ∧ IsWalk (FirstParent resources) child ancestor k x := by
  constructor
  · rintro ⟨rfl, hfinish, hnonzero, hparent⟩
    refine ⟨hnonzero 0 (Nat.zero_le k), rfl, hfinish, ?_⟩
    intro i hi
    exact ⟨hnonzero (i + 1) hi, hparent i hi⟩
  · rintro ⟨hchild, hstart, hfinish, hstep⟩
    refine ⟨hstart, hfinish, ?_, fun i hi => (hstep i hi).2⟩
    intro i hi
    cases i with
    | zero =>
        rw [hstart]
        exact hchild
    | succ i => exact (hstep i hi).1

/-- The loop decides the chains that its counter allows. -/
theorem descendantWithin_eq_true_iff (steps : Nat) :
    descendantWithin resources ancestor steps child = true ↔
      ∃ k x, k < steps ∧ Ancestry resources child ancestor k x := by
  simp only [ancestry_iff_isWalk]
  induction steps generalizing child with
  | zero => simp [descendantWithin]
  | succ steps ih =>
      rw [descendantWithin]
      by_cases hzero : child = 0
      · simp [hzero]
      by_cases hfound : child = ancestor
      · subst hfound
        rw [if_neg hzero, if_pos rfl]
        exact iff_of_true rfl ⟨0, _, Nat.succ_pos steps, hzero, .refl child⟩
      rw [if_neg hzero, if_neg hfound]
      -- The chain has a first step, which is the one the loop takes.
      have hlonger : ∀ k x, IsWalk (FirstParent resources) child ancestor k x →
          ∃ k', k = k' + 1 := by
        intro k x hwalk
        refine Nat.exists_eq_succ_of_ne_zero ?_
        rintro rfl
        exact hfound (hwalk.start.symm.trans hwalk.finish)
      cases hchild : resource resources child with
      | none =>
          refine iff_of_false (by simp) ?_
          rintro ⟨k, x, -, -, hwalk⟩
          obtain ⟨k, rfl⟩ := hlonger k x hwalk
          obtain ⟨-, r, hr, -⟩ := hwalk.tail.1
          rw [hchild] at hr
          contradiction
      | some r =>
          change descendantWithin resources ancestor steps r.parent = true ↔ _
          rw [ih]
          constructor
          · rintro ⟨k, x, hk, hparent, hwalk⟩
            exact ⟨k + 1, _, Nat.succ_lt_succ hk, hzero,
              hwalk.cons ⟨hparent, r, hchild, rfl⟩⟩
          · rintro ⟨k, x, hk, -, hwalk⟩
            obtain ⟨k, rfl⟩ := hlonger k x hwalk
            obtain ⟨⟨hparent, r', hr', hstep⟩, hrest⟩ := hwalk.tail
            rw [hchild] at hr'
            obtain rfl := Option.some.inj hr'
            rw [← hstep] at hparent hrest
            exact ⟨k, _, Nat.lt_of_succ_lt_succ hk, hparent, hrest⟩

/-- A chain leaves only identities of the array, so the counter allows a shortest one. -/
theorem reaches_iff :
    Reaches resources child ancestor ↔
      ∃ k x, k < resources.length + 1 ∧ Ancestry resources child ancestor k x := by
  constructor
  · rintro ⟨k, x, hchain⟩
    obtain ⟨hchild, hwalk⟩ := ancestry_iff_isWalk.mp hchain
    have hleaves : ∀ c d, FirstParent resources c d →
        c ∈ (resources.map Resource.id).toFinset := by
      rintro c d ⟨-, r, hr, -⟩
      obtain ⟨hmem, rfl⟩ := mem_of_resource hr
      exact List.mem_toFinset.mpr (List.mem_map_of_mem hmem)
    obtain ⟨k', x', hk, hshort⟩ := hwalk.exists_short _ hleaves
    have hcard := List.toFinset_card_le (resources.map Resource.id)
    rw [List.length_map] at hcard
    exact ⟨k', x', Nat.lt_succ_of_le (hk.trans hcard), ancestry_iff_isWalk.mpr ⟨hchild, hshort⟩⟩
  · rintro ⟨k, x, -, hchain⟩
    exact ⟨k, x, hchain⟩

theorem descendant_iff_reaches :
    descendant resources child ancestor = true ↔ Reaches resources child ancestor := by
  rw [descendant, descendantWithin_eq_true_iff, reaches_iff]

end Chain

/-- The walk decides reachability on every array within its bound, and the overlap test
is symmetric and holds for two identities one of which is reachable from the other. -/
theorem descendant_decides_reachability (resources : List Resource) (a b : Nat) :
    ((descendantWalk resources b (resources.length + 1) a).1 = descendant resources a b ∧
        (descendantWalk resources b (resources.length + 1) a).2 ≤ resources.length + 1 ∧
          (descendant resources a b = true ↔ Reaches resources a b)) ∧
      overlaps resources a b = overlaps resources b a ∧
        (overlaps resources a b = true ↔
          (a ≠ 0 ∧ b ≠ 0) ∧ (Reaches resources a b ∨ Reaches resources b a)) := by
  refine ⟨⟨descendantWalk_fst resources b _ a, descendantWalk_snd_le resources b _ a,
    descendant_iff_reaches⟩, overlaps_comm resources a b, ?_⟩
  simp only [overlaps, Bool.and_eq_true, Bool.or_eq_true, decide_eq_true_eq,
    descendant_iff_reaches]

/-- A cycle of two resources, entered through a third one. -/
example : descendant [⟨1, 2, .channel⟩, ⟨2, 3, .channel⟩, ⟨3, 2, .channel⟩] 1 3 = true := by
  decide

end GrevirPeripherals.PwmReachability
