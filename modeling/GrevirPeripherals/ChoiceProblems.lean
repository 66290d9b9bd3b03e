import Mathlib.Data.Set.Basic
import Mathlib.Logic.Nonempty

/-!
Choice problems: every user takes an option that it admits, and the options of every two
users are compatible. A problem becomes easier with fewer users and with better options,
and an exact solver never refuses the easier of two problems alone. A problem that splits
into parts can be solved part by part.
-/

namespace GrevirPeripherals.ChoiceProblems

universe u v w

structure ChoiceProblem (U : Type u) (C : Type v) where
  users : Set U
  admits : U → C → Prop
  compatible : U → U → C → C → Prop

namespace ChoiceProblem

variable {U : Type u} {C D : Type v}

structure Solves (P : ChoiceProblem U C) (choice : U → C) : Prop where
  admits : ∀ i ∈ P.users, P.admits i (choice i)
  compatible : ∀ i ∈ P.users, ∀ j ∈ P.users, i ≠ j → P.compatible i j (choice i) (choice j)

def Solvable (P : ChoiceProblem U C) : Prop :=
  ∃ choice, P.Solves choice

/-- The users of `Q` are users of `P`, and what they could take in `P` they can replace in
`Q` by something better. -/
structure Eases (better : C → D → Prop) (P : ChoiceProblem U C) (Q : ChoiceProblem U D) :
    Prop where
  users : Q.users ⊆ P.users
  admits : ∀ i ∈ Q.users, ∀ c, P.admits i c → ∃ d, better c d ∧ Q.admits i d
  compatible : ∀ i ∈ Q.users, ∀ j ∈ Q.users, i ≠ j → ∀ c c' d d', P.admits i c → P.admits j c' →
    better c d → better c' d' → P.compatible i j c c' → Q.compatible i j d d'

variable {P : ChoiceProblem U C} {Q : ChoiceProblem U D}

theorem Solvable.of_eases [Nonempty D] {better : C → D → Prop} (h : Eases better P Q)
    (hsolvable : P.Solvable) : Q.Solvable := by
  classical
  obtain ⟨choice, hadmits, hcompatible⟩ := hsolvable
  have hreplace : ∀ i, ∃ d, i ∈ Q.users → better (choice i) d ∧ Q.admits i d := by
    intro i
    by_cases hi : i ∈ Q.users
    · obtain ⟨d, hd⟩ := h.admits i hi _ (hadmits i (h.users hi))
      exact ⟨d, fun _ => hd⟩
    · exact ⟨Classical.arbitrary D, fun hmem => absurd hmem hi⟩
  choose replacement hreplacement using hreplace
  refine ⟨replacement, fun i hi => (hreplacement i hi).2, ?_⟩
  intro i hi j hj hne
  exact h.compatible i hi j hj hne _ _ _ _ (hadmits i (h.users hi)) (hadmits j (h.users hj))
    (hreplacement i hi).1 (hreplacement j hj).1 (hcompatible i (h.users hi) j (h.users hj) hne)

section Parts

variable {ι : Type w} {label : U → ι} {parts : ι → ChoiceProblem U C}

/-- Every part has the users of one label, and options of users with different labels are
compatible whatever they are. -/
structure Splits (label : U → ι) (P : ChoiceProblem U C) (parts : ι → ChoiceProblem U C) :
    Prop where
  users : ∀ u i, u ∈ (parts i).users ↔ u ∈ P.users ∧ label u = i
  admits : ∀ u ∈ P.users, ∀ c, (parts (label u)).admits u c ↔ P.admits u c
  compatible : ∀ u ∈ P.users, ∀ v ∈ P.users, label u = label v → ∀ c d,
    (parts (label u)).compatible u v c d ↔ P.compatible u v c d
  separated : ∀ u ∈ P.users, ∀ v ∈ P.users, label u ≠ label v → ∀ c d,
    P.admits u c → P.admits v d → P.compatible u v c d

theorem Splits.solves_part (h : Splits label P parts) {choice : U → C} (hsolves : P.Solves choice)
    (i : ι) : (parts i).Solves choice := by
  constructor
  case admits =>
    intro u hmem
    obtain ⟨hu, rfl⟩ := (h.users u i).mp hmem
    exact (h.admits u hu _).mpr (hsolves.admits u hu)
  case compatible =>
    intro u hmem v hmem' hne
    obtain ⟨hu, rfl⟩ := (h.users u i).mp hmem
    obtain ⟨hv, hlabel⟩ := (h.users v _).mp hmem'
    exact (h.compatible u hu v hv hlabel.symm _ _).mpr (hsolves.compatible u hu v hv hne)

/-- Every user takes what it takes in its own part. -/
theorem Splits.solves_whole (h : Splits label P parts) {choice : ι → U → C}
    (hsolves : ∀ i, (parts i).Solves (choice i)) : P.Solves fun u => choice (label u) u := by
  have hadmits : ∀ u ∈ P.users, P.admits u (choice (label u) u) := fun u hu =>
    (h.admits u hu _).mp ((hsolves (label u)).admits u ((h.users u _).mpr ⟨hu, rfl⟩))
  refine ⟨hadmits, ?_⟩
  intro u hu v hv hne
  by_cases hlabel : label u = label v
  · have hmem := (h.users u (label u)).mpr ⟨hu, rfl⟩
    have hmem' := (h.users v (label u)).mpr ⟨hv, hlabel.symm⟩
    rw [← hlabel]
    exact (h.compatible u hu v hv hlabel _ _).mp
      ((hsolves (label u)).compatible u hmem v hmem' hne)
  · exact h.separated u hu v hv hlabel _ _ (hadmits u hu) (hadmits v hv)

theorem Splits.solvable_iff (h : Splits label P parts) :
    P.Solvable ↔ ∀ i, (parts i).Solvable := by
  constructor
  · rintro ⟨choice, hsolves⟩ i
    exact ⟨choice, h.solves_part hsolves i⟩
  · intro hparts
    choose choice hsolves using hparts
    exact ⟨_, h.solves_whole hsolves⟩

end Parts

end ChoiceProblem

/-- What holds of two entries with different labels holds throughout a list if it holds among
the entries of every label. -/
theorem pairwise_of_parts {α : Type u} {ι : Type v} [DecidableEq ι] {f : α → ι}
    {r : α → α → Prop} {xs : List α}
    (hcross : ∀ a b, f a ≠ f b → r a b)
    (hparts : ∀ i, (xs.filter fun a => f a = i).Pairwise r) : xs.Pairwise r := by
  induction xs with
  | nil => exact List.Pairwise.nil
  | cons x xs ih =>
      constructor
      · intro y hy
        by_cases hlabel : f x = f y
        · have hfirst := hparts (f x)
          rw [List.filter_cons_of_pos (by simp), List.pairwise_cons] at hfirst
          exact hfirst.1 y (List.mem_filter.mpr ⟨hy, decide_eq_true hlabel.symm⟩)
        · exact hcross x y hlabel
      · exact ih fun i => (hparts i).sublist ((List.sublist_cons_self x xs).filter _)

/-- What a solver says about a problem, if it says anything. -/
inductive Verdict where
  | solved
  | refused
  | undecided
deriving DecidableEq

open ChoiceProblem

/-- A verdict that the problem bears out. -/
inductive Exact {U : Type u} {C : Type v} (P : ChoiceProblem U C) : Verdict → Prop
  | solved (h : P.Solvable) : Exact P .solved
  | refused (h : ¬P.Solvable) : Exact P .refused
  | undecided : Exact P .undecided

/-- What a solver does with a problem that it accepts: it refuses what cannot be solved,
solves the problem or gives up. -/
inductive Answered {U : Type u} {C : Type v} (P : ChoiceProblem U C) (R S G : Prop) : Prop
  | refused (h : R) (hnot : ¬P.Solvable)
  | solved (h : S) (hsolvable : P.Solvable)
  | givenUp (h : G)

section Answered

variable {U : Type u} {C : Type v} {P : ChoiceProblem U C} {R S G : Prop}

theorem Answered.of_solvable (h : Answered P R S G) (hsolvable : P.Solvable) : S ∨ G := by
  cases h with
  | refused _ hnot => exact absurd hsolvable hnot
  | solved hsolved => exact Or.inl hsolved
  | givenUp hgivenUp => exact Or.inr hgivenUp

theorem Answered.of_not_solvable (h : Answered P R S G) (hnot : ¬P.Solvable) : R ∨ G := by
  cases h with
  | refused hrefused => exact Or.inl hrefused
  | solved _ hsolvable => exact absurd hsolvable hnot
  | givenUp hgivenUp => exact Or.inr hgivenUp

end Answered

section Exact

variable {U : Type u} {C D : Type v} {P : ChoiceProblem U C} {Q : ChoiceProblem U D}
  {verdict : Verdict}

theorem Exact.not_solvable (h : Exact P verdict) (hrefused : verdict = .refused) :
    ¬P.Solvable := by
  cases h with
  | refused hnot => exact hnot
  | _ => contradiction

theorem Exact.solvable (h : Exact P verdict) (hsolved : verdict = .solved) : P.Solvable := by
  cases h with
  | solved hsolvable => exact hsolvable
  | _ => contradiction

/-- Where the harder problem can be solved, the easier one is not refused. -/
theorem Exact.not_refused [Nonempty D] {better : C → D → Prop} (h : Exact Q verdict)
    (hsolvable : P.Solvable) (heases : Eases better P Q) : verdict ≠ .refused :=
  fun hrefused => h.not_solvable hrefused (hsolvable.of_eases heases)

end Exact

end GrevirPeripherals.ChoiceProblems
