import GrevirPeripherals.PwmValidation
import Mathlib.Data.List.Lex

/-!
The candidate order is the lexicographic order of a key that ends in the
candidate's own key.
-/

namespace GrevirPeripherals.PwmCandidateOrder

open GrevirPeripherals.PwmModel
open GrevirPeripherals.PwmRequirements
open GrevirPeripherals.PwmValidation
open GrevirPeripherals.StandardSort

/-- The keys of the live endpoints, in the order of the array. -/
def endpointKeys (c : Candidate) : List (Key ×ₗ Nat ×ₗ Nat) :=
  c.liveEndpoints.map endpointKey

/-- What `candidateLess` compares, in the order of its weight. -/
def candidateKey (c : Candidate) :
    (Nat ×ₗ Nat ×ₗ Nat) ×ₗ List (Key ×ₗ Nat ×ₗ Nat) ×ₗ Nat ×ₗ Nat :=
  toLex (order c, toLex (endpointKeys c, toLex (c.count, c.key)))

theorem firstDifference_eq_some {l m : List Endpoint} {result : Bool}
    (h : firstDifference l m = some result) :
    l.map endpointKey ≠ m.map endpointKey ∧
      (result = true ↔ l.map endpointKey < m.map endpointKey) := by
  induction l generalizing m with
  | nil => simp [firstDifference] at h
  | cons x xs ih =>
      cases m with
      | nil => simp [firstDifference] at h
      | cons y ys =>
          rw [firstDifference] at h
          rw [List.map_cons, List.map_cons, List.cons_lt_cons_iff]
          split_ifs at h with hkey
          · obtain rfl := Option.some.inj h
            simp [hkey]
          · have hkey := not_not.mp hkey
            simpa [hkey] using ih h

/-- Without a difference one list is a prefix of the other. -/
theorem firstDifference_eq_none {l m : List Endpoint} (h : firstDifference l m = none) :
    (l.length = m.length → l.map endpointKey = m.map endpointKey) ∧
      (l.length < m.length → l.map endpointKey < m.map endpointKey) ∧
        (m.length < l.length → m.map endpointKey < l.map endpointKey) := by
  induction l generalizing m with
  | nil =>
      cases m with
      | nil => simp
      | cons y ys => simp
  | cons x xs ih =>
      cases m with
      | nil => simp
      | cons y ys =>
          rw [firstDifference] at h
          split_ifs at h with hkey
          have hkey := not_not.mp hkey
          obtain ⟨heq, hlt, hgt⟩ := ih h
          refine ⟨?_, ?_, ?_⟩
          · intro hlength
            rw [List.map_cons, List.map_cons, hkey, heq (by simpa using hlength)]
          · intro hlength
            rw [List.map_cons, List.map_cons, List.cons_lt_cons_iff]
            exact Or.inr ⟨hkey, hlt (by simpa using hlength)⟩
          · intro hlength
            rw [List.map_cons, List.map_cons, List.cons_lt_cons_iff]
            exact Or.inr ⟨hkey.symm, hgt (by simpa using hlength)⟩

theorem length_liveEndpoints {c : Candidate} (h : c.count ≤ c.endpoints.length) :
    c.liveEndpoints.length = c.count := by
  rw [Candidate.liveEndpoints, List.length_take]
  exact Nat.min_eq_left h

/-- On candidates whose count stays within the array the comparator is an order. -/
theorem candidateLess_eq_byKey {a b : Candidate} (ha : a.count ≤ a.endpoints.length)
    (hb : b.count ≤ b.endpoints.length) : candidateLess a b = byKey candidateKey a b := by
  have hlength := length_liveEndpoints ha
  have hlength' := length_liveEndpoints hb
  have hkey : candidateKey a < candidateKey b ↔ order a < order b ∨ order a = order b ∧
      (endpointKeys a < endpointKeys b ∨ endpointKeys a = endpointKeys b ∧
        toLex (a.count, a.key) < toLex (b.count, b.key)) := by
    rw [candidateKey, candidateKey, Prod.Lex.toLex_lt_toLex, Prod.Lex.toLex_lt_toLex]
  rw [Bool.eq_iff_iff, byKey_eq_true_iff, hkey, candidateLess]
  split_ifs with horder
  · simp [horder]
  · have horder := not_not.mp horder
    rw [← horder, or_iff_right (lt_irrefl _), and_iff_right rfl, endpointKeys, endpointKeys]
    split
    next result hsome =>
      obtain ⟨hne, hiff⟩ := firstDifference_eq_some hsome
      rw [hiff, or_iff_left (fun h => hne h.1)]
    next hnone =>
      obtain ⟨heq, hlt, hgt⟩ := firstDifference_eq_none hnone
      rw [hlength, hlength'] at heq hlt hgt
      rw [decide_eq_true_iff, Prod.Lex.toLex_lt_toLex]
      rcases Nat.lt_trichotomy a.count b.count with hcount | hcount | hcount
      · simp [hcount, hlt hcount]
      · simp [hcount, heq hcount]
      · have hmap := hgt hcount
        simp [hcount.not_gt, hcount.ne', hmap.not_gt, hmap.ne']

theorem key_eq_of_candidateKey_eq {a b : Candidate} (h : candidateKey a = candidateKey b) :
    a.key = b.key := by
  simp only [candidateKey, EmbeddingLike.apply_eq_iff_eq, Prod.mk.injEq] at h
  exact h.2.2.2

end GrevirPeripherals.PwmCandidateOrder
