import GrevirPeripherals.PwmSoundness

/-!
The candidate order as the comparator of a sort. On candidates whose count fits the
array it is a strict weak order, and it tells the candidates of a checked model apart.
-/

namespace GrevirPeripherals.PwmCandidateSorting

open GrevirPeripherals.PwmCandidateOrder
open GrevirPeripherals.PwmModel
open GrevirPeripherals.PwmNormalForm
open GrevirPeripherals.PwmSolution
open GrevirPeripherals.PwmSoundness
open GrevirPeripherals.PwmValidation
open GrevirPeripherals.StandardSort

theorem strictWeakOn_candidateLess {l : List Candidate}
    (h : ∀ c ∈ l, c.count ≤ c.endpoints.length) : StrictWeakOn candidateLess l :=
  strictWeakOn_of_byKey candidateKey fun a ha b hb => candidateLess_eq_byKey (h a ha) (h b hb)

section Normal

variable {sorter : Sorter} {p : Problem} (h : ValidModel sorter p)

include h

theorem normalCandidates_perm :
    (normalModel sorter p).candidates.Perm (p.candidates.map (normalForm sorter)) :=
  sorter.perm_of_byKey candidateKey (candidateLess_normalForms h)

theorem mem_normalCandidates_iff (c : Candidate) :
    c ∈ (normalModel sorter p).candidates ↔ ∃ c' ∈ p.candidates, normalForm sorter c' = c := by
  rw [(normalCandidates_perm h).mem_iff, List.mem_map]

theorem candidateLess_normalCandidates :
    ∀ a ∈ (normalModel sorter p).candidates, ∀ b ∈ (normalModel sorter p).candidates,
      candidateLess a b = byKey candidateKey a b := by
  intro a ha b hb
  have hperm := normalCandidates_perm h
  exact candidateLess_normalForms h a (hperm.mem_iff.mp ha) b (hperm.mem_iff.mp hb)

theorem normalCandidates_ascending :
    (normalModel sorter p).candidates.Pairwise fun a b => candidateKey a ≤ candidateKey b :=
  sorter.ascending_of_byKey candidateKey (candidateLess_normalForms h)

theorem normalCandidate_eq_of_key_eq {a b : Candidate}
    (ha : a ∈ (normalModel sorter p).candidates) (hb : b ∈ (normalModel sorter p).candidates)
    (hkey : a.key = b.key) : a = b := by
  obtain ⟨c, hc, rfl⟩ := (mem_normalCandidates_iff h a).mp ha
  obtain ⟨c', hc', rfl⟩ := (mem_normalCandidates_iff h b).mp hb
  exact h.normalForm_eq_of_key_eq hc hc' hkey

theorem normalCandidate_eq_of_candidateKey_eq {a b : Candidate}
    (ha : a ∈ (normalModel sorter p).candidates) (hb : b ∈ (normalModel sorter p).candidates)
    (hkey : candidateKey a = candidateKey b) : a = b :=
  normalCandidate_eq_of_key_eq h ha hb (key_eq_of_candidateKey_eq hkey)

end Normal

/-- The comparator leaves a sort of the array no choice. -/
structure SortsUniquely (candidates : List Candidate) : Prop where
  order : StrictWeakOn candidateLess candidates
  discriminates : ∀ a ∈ candidates, ∀ b ∈ candidates,
    candidateLess a b = false → candidateLess b a = false → a = b
  sorted : candidates.Pairwise fun a b => candidateLess b a = false
  unique : ∀ l, l.Perm candidates → (l.Pairwise fun a b => candidateLess b a = false) →
    l = candidates
  adjacent : ∀ c (i j k : Nat), i ≤ j → j ≤ k → candidates[i]? = some c → candidates[k]? = some c →
    candidates[j]? = some c

theorem sortsUniquely_normalModel {sorter : Sorter} {p : Problem} (h : ValidModel sorter p) :
    SortsUniquely (normalModel sorter p).candidates := by
  have hless := candidateLess_normalCandidates h
  have hascending := normalCandidates_ascending h
  have hinj := fun a ha b hb => normalCandidate_eq_of_candidateKey_eq h (a := a) ha (b := b) hb
  constructor
  case order => exact strictWeakOn_of_byKey candidateKey hless
  case discriminates =>
    intro a ha b hb hab hba
    rw [hless a ha b hb, byKey_eq_false_iff] at hab
    rw [hless b hb a ha, byKey_eq_false_iff] at hba
    exact hinj a ha b hb (le_antisymm hba hab)
  case sorted =>
    apply hascending.imp_of_mem
    intro a b ha hb hle
    rw [hless b hb a ha, byKey_eq_false_iff]
    exact hle
  case unique =>
    intro l hperm hsorted
    have hsorted' : l.Pairwise fun a b => candidateKey a ≤ candidateKey b := by
      apply hsorted.imp_of_mem
      intro a b ha hb hba
      rw [hless b (hperm.mem_iff.mp hb) a (hperm.mem_iff.mp ha), byKey_eq_false_iff] at hba
      exact hba
    apply eq_of_perm_of_ascending hperm hsorted' hascending
    intro a ha b hb
    exact hinj a (hperm.mem_iff.mp ha) b (hperm.mem_iff.mp hb)
  case adjacent =>
    intro c i j k hij hjk
    exact eq_of_between hascending hinj hij hjk

/-- `candidate_less` orders all candidates whose count stays within the array, and the
array that a successful model check leaves is sorted in the only possible way. -/
theorem candidateLess_discriminates :
    (∀ l : List Candidate, (∀ c ∈ l, c.count ≤ c.endpoints.length) →
      StrictWeakOn candidateLess l) ∧
      ∀ (sorter : Sorter) (p p' : Problem), normalizeModel sorter p = some p' →
        SortsUniquely p'.candidates := by
  refine ⟨fun l => strictWeakOn_candidateLess, ?_⟩
  intro sorter p p' hnormal
  obtain ⟨hvalid, rfl⟩ := (normalizeModel_eq_some_iff sorter p p').mp hnormal
  exact sortsUniquely_normalModel hvalid

theorem board_discriminates :
    StrictWeakOn candidateLess boardProblem.candidates ∧
      ∃ p', normalizeModel insertionSorter boardProblem = some p' ∧
        SortsUniquely p'.candidates := by
  have hsome : (normalizeModel insertionSorter boardProblem).isSome = true := by decide +kernel
  obtain ⟨p', hnormal⟩ := Option.isSome_iff_exists.mp hsome
  exact ⟨candidateLess_discriminates.1 _ (by decide), p', hnormal,
    candidateLess_discriminates.2 insertionSorter boardProblem p' hnormal⟩

end GrevirPeripherals.PwmCandidateSorting
