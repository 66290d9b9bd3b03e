import GrevirPeripherals.InterruptSelection
import GrevirPeripherals.InterruptSortCheck
import Mathlib.Data.Finset.Max

/-!
Which of its two errors the interrupt solver reports for a defective candidate array.
The first defect in sorted order decides, and candidates with one sort key come in the
order in which the exchange sort happens to leave them.
-/

namespace GrevirPeripherals.InterruptFirstDefect

open GrevirPeripherals.ExchangeSort
open GrevirPeripherals.InterruptModel
open GrevirPeripherals.InterruptSelection (boardCandidate boardDemands boardProblem)
open GrevirPeripherals.InterruptSolution
open GrevirPeripherals.InterruptSolver
open GrevirPeripherals.InterruptSortCheck
open GrevirPeripherals.InterruptValidation
open GrevirPeripherals.OrderedChecks
open GrevirPeripherals.StandardSort
open GrevirPeripherals.Strings

variable {Event : Type} [LinearOrder Event]

/-- What `less` compares. -/
abbrev Rank (Event : Type) : Type :=
  Event ×ₗ Nat ×ₗ StringView ×ₗ StringView

def atRank (k : Rank Event) (candidate : Candidate Event) : Bool :=
  sortKey candidate = k

/-- A candidate of the rank has the request and configuration of one that comes before. -/
def Taken (candidates : List (Candidate Event)) (k : Rank Event) : Prop :=
  ∃ a ∈ candidates, sortKey a = k ∧ ∃ b ∈ candidates, sortKey b < k ∧ SharesConfiguration a b

/-- The checks stop at this rank, unless they stop before. -/
def Flawed (validComponent : StringView → Bool) (candidates : List (Candidate Event))
    (k : Rank Event) : Prop :=
  (∃ a ∈ candidates, sortKey a = k ∧ Malformed validComponent a) ∨
    2 ≤ candidates.countP (atRank k) ∨ Taken candidates k

/-- No arrangement of the candidates of this rank changes the error. -/
def Settled (validComponent : StringView → Bool) (candidates : List (Candidate Event))
    (k : Rank Event) : Prop :=
  (∀ a ∈ candidates, sortKey a = k → ¬Malformed validComponent a) ∨
    (∀ a ∈ candidates, sortKey a = k → Malformed validComponent a) ∨
      (¬Taken candidates k ∧
        candidates.countP (fun a => atRank k a && wellFormed validComponent a) ≤ 1)

section Ranks

variable {validComponent : StringView → Bool} {candidates candidates' : List (Candidate Event)}
  {k : Rank Event}

theorem atRank_eq_true_iff (k : Rank Event) (a : Candidate Event) :
    atRank k a = true ↔ sortKey a = k :=
  decide_eq_true_iff

theorem Taken.mono (hsub : candidates ⊆ candidates') (h : Taken candidates k) :
    Taken candidates' k := by
  obtain ⟨a, ha, hrank, b, hb, hlt, hshares⟩ := h
  exact ⟨a, hsub ha, hrank, b, hsub hb, hlt, hshares⟩

theorem Flawed.mono (hsub : List.Subperm candidates candidates')
    (h : Flawed validComponent candidates k) : Flawed validComponent candidates' k := by
  rcases h with ⟨a, ha, hrank, hmalformed⟩ | hcount | htaken
  · exact Or.inl ⟨a, hsub.subset ha, hrank, hmalformed⟩
  · exact Or.inr (Or.inl (hcount.trans (hsub.countP_le _)))
  · exact Or.inr (Or.inr (htaken.mono hsub.subset))

theorem Flawed.exists_member (h : Flawed validComponent candidates k) :
    ∃ a ∈ candidates, sortKey a = k := by
  rcases h with ⟨a, ha, hrank, -⟩ | hcount | ⟨a, ha, hrank, -⟩
  · exact ⟨a, ha, hrank⟩
  · obtain ⟨a, ha, hrank⟩ := List.countP_pos_iff.mp (Nat.zero_lt_two.trans_le hcount)
    exact ⟨a, ha, (atRank_eq_true_iff k a).mp hrank⟩
  · exact ⟨a, ha, hrank⟩

/-- With one candidate of a rank at most there are no two positions that share it. -/
theorem pairwise_of_countP_le {α : Type} {q : α → Bool} {l : List α} (h : l.countP q ≤ 1) :
    l.Pairwise fun a b => ¬(q a = true ∧ q b = true) := by
  induction l with
  | nil => exact List.Pairwise.nil
  | cons x xs ih =>
      rw [List.countP_cons] at h
      rw [List.pairwise_cons]
      refine ⟨?_, ih (by omega)⟩
      rintro y hy ⟨hx, hqy⟩
      have hpos := List.countP_pos_iff.mpr ⟨y, hy, hqy⟩
      rw [if_pos hx] at h
      omega

theorem exists_flawed (h : Defective validComponent candidates) :
    ∃ k, Flawed validComponent candidates k := by
  rcases h with ⟨a, ha, hmalformed⟩ | ⟨i, j, a, b, hij, hia, hjb, hshares⟩
  · exact ⟨sortKey a, Or.inl ⟨a, ha, rfl, hmalformed⟩⟩
  · have ha := List.mem_of_getElem? hia
    have hb := List.mem_of_getElem? hjb
    rcases lt_trichotomy (sortKey a) (sortKey b) with hlt | heq | hgt
    · exact ⟨sortKey b, Or.inr (Or.inr ⟨b, hb, rfl, a, ha, hlt, hshares.1.symm, hshares.2.symm⟩)⟩
    · refine ⟨sortKey b, Or.inr (Or.inl ?_)⟩
      by_contra hcount
      have hpairwise := pairwise_of_countP_le (Nat.le_of_lt_succ (not_le.mp hcount))
      obtain ⟨hi, rfl⟩ := List.getElem?_eq_some_iff.mp hia
      obtain ⟨hj, rfl⟩ := List.getElem?_eq_some_iff.mp hjb
      apply List.pairwise_iff_getElem.mp hpairwise i j hi hj hij
      exact ⟨(atRank_eq_true_iff _ _).mpr heq, (atRank_eq_true_iff _ _).mpr rfl⟩
    · exact ⟨sortKey a, Or.inr (Or.inr ⟨a, ha, rfl, b, hb, hgt, hshares⟩)⟩

theorem exists_least_flawed (h : Defective validComponent candidates) :
    ∃ k, IsLeast {k | Flawed validComponent candidates k} k := by
  classical
  let ranks := (candidates.map sortKey).toFinset.filter (Flawed validComponent candidates)
  have hmem : ∀ k, k ∈ ranks ↔ Flawed validComponent candidates k := by
    intro k
    rw [Finset.mem_filter, List.mem_toFinset, List.mem_map, and_iff_right_iff_imp]
    exact Flawed.exists_member
  obtain ⟨k, hk⟩ := exists_flawed h
  have hnonempty : ranks.Nonempty := ⟨k, (hmem k).mpr hk⟩
  refine ⟨ranks.min' hnonempty, (hmem _).mp (ranks.min'_mem hnonempty), ?_⟩
  intro k' hk'
  exact ranks.min'_le k' ((hmem k').mpr hk')

end Ranks

section Arrangement

variable {validComponent : StringView → Bool} {candidates sorted : List (Candidate Event)}
  {k : Rank Event}

/-- In ascending order a rank stands between the ranks below and those above it. -/
theorem eq_below_at_above (hascending : sorted.Pairwise fun a b => sortKey a ≤ sortKey b)
    (k : Rank Event) :
    sorted = sorted.filter (fun a => sortKey a < k) ++
      (sorted.filter (atRank k) ++ sorted.filter fun a => k < sortKey a) := by
  induction sorted with
  | nil => rfl
  | cons x xs ih =>
      rw [List.pairwise_cons] at hascending
      obtain ⟨hx, hxs⟩ := hascending
      have hrest := ih hxs
      have hnone : ∀ q : Candidate Event → Bool, (∀ a ∈ xs, q a = false) → xs.filter q = [] := by
        intro q hq
        exact List.filter_eq_nil_iff.mpr fun a ha => by simp [hq a ha]
      rcases lt_trichotomy (sortKey x) k with hlt | heq | hgt
      · have hat : atRank k x = false := by simp [atRank, hlt.ne]
        simp only [List.filter_cons, hlt, hlt.not_gt, hat, decide_true, decide_false, if_true,
          Bool.false_eq_true, if_false, List.cons_append]
        rw [← hrest]
      · have hbelow : xs.filter (fun a => sortKey a < k) = [] := by
          apply hnone
          intro a ha
          simpa [← heq] using hx a ha
        have hat : atRank k x = true := by simp [atRank, heq]
        rw [hbelow, List.nil_append] at hrest
        simp only [List.filter_cons, heq, lt_irrefl, hat, decide_false, Bool.false_eq_true,
          if_false, if_true, hbelow, List.nil_append, List.cons_append]
        rw [← hrest]
      · have hbelow : xs.filter (fun a => sortKey a < k) = [] := by
          apply hnone
          intro a ha
          simpa using hgt.le.trans (hx a ha)
        have hat : xs.filter (atRank k) = [] := by
          apply hnone
          intro a ha
          simpa [atRank] using (hgt.trans_le (hx a ha)).ne'
        have hat' : atRank k x = false := by simp [atRank, hgt.ne']
        rw [hbelow, hat, List.nil_append, List.nil_append] at hrest
        simp only [List.filter_cons, hgt, hgt.not_gt, hat', hbelow, hat, decide_true,
          decide_false, Bool.false_eq_true, if_false, if_true, List.nil_append]
        rw [← hrest]

/-- The exchange sort leaves an ascending array as it is. -/
theorem sortedCandidates_of_ascending
    (hascending : sorted.Pairwise fun a b => sortKey a ≤ sortKey b) :
    sortedCandidates sorted = sorted := by
  rw [sortedCandidates, less_eq_byKey]
  exact exchangeSort_of_ascending sortKey hascending

/-- Sorting an array first does not change what its check says. -/
theorem sortCandidates_sortedCandidates (validComponent : StringView → Bool)
    (candidates : List (Candidate Event)) :
    sortCandidates validComponent (sortedCandidates candidates) =
      sortCandidates validComponent candidates := by
  rw [sortCandidates_eq_checkInOrder, sortCandidates_eq_checkInOrder,
    sortedCandidates_of_ascending (sortedCandidates_ascending candidates)]

end Arrangement

section Verdict

variable {validComponent : StringView → Bool} {candidates sorted : List (Candidate Event)}
  {k : Rank Event}

theorem checkCandidate_of_malformed {placed : List (Candidate Event)} {a : Candidate Event}
    (h : Malformed validComponent a) :
    checkCandidate validComponent placed a = .error .invalidModel := by
  rw [checkCandidate, (wellFormed_eq_false_iff validComponent a).mpr h]
  rfl

theorem checkCandidate_of_shared {placed : List (Candidate Event)} {a b : Candidate Event}
    (h : ¬Malformed validComponent a) (hb : b ∈ placed) (hshares : SharesConfiguration a b) :
    checkCandidate validComponent placed a = .error .duplicateCandidate := by
  rw [← wellFormed_eq_false_iff, Bool.not_eq_false] at h
  have hany : placed.any (sameConfiguration a) = true := by
    rw [List.any_eq_true]
    exact ⟨b, hb, by simp [sameConfiguration, hshares.1, hshares.2]⟩
  rw [checkCandidate, h, hany]
  rfl

theorem sortCandidates_error_of_split {candidates : List (Candidate Event)}
    {placed rest : List (Candidate Event)} {a : Candidate Event} {error : Error}
    (hsorted : sortedCandidates candidates = placed ++ a :: rest)
    (hplaced : ∀ before x after, placed = before ++ x :: after →
      checkCandidate validComponent before x = .ok ())
    (herror : checkCandidate validComponent placed a = .error error) :
    sortCandidates validComponent candidates = .error error := by
  rw [sortCandidates_eq_checkInOrder, checkInOrder_eq_error_iff]
  exact ⟨placed, a, rest, hsorted, herror, hplaced⟩

/-- The candidates below the least flawed rank pass their checks. -/
theorem checked_below (hleast : IsLeast {k | Flawed validComponent candidates k} k)
    (hperm : sorted.Perm candidates) (before : List (Candidate Event)) (x : Candidate Event)
    (after : List (Candidate Event))
    (hsplit : sorted.filter (fun a => sortKey a < k) = before ++ x :: after) :
    checkCandidate validComponent before x = .ok () := by
  refine (checked_candidates_iff validComponent _).mpr ?_ before x after hsplit
  by_contra hinvalid
  obtain ⟨k', hflawed⟩ := exists_flawed ((defective_iff _ _).mpr hinvalid)
  obtain ⟨a, ha, rfl⟩ := hflawed.exists_member
  have hlt : sortKey a < k := by simpa using (List.mem_filter.mp ha).2
  have hsub : List.Subperm (sorted.filter fun a => sortKey a < k) candidates :=
    List.filter_sublist.subperm.trans hperm.subperm
  exact absurd (hleast.2 (hflawed.mono hsub)) hlt.not_ge

variable (hleast : IsLeast {k | Flawed validComponent candidates k} k)
  (hperm : sorted.Perm candidates)
  (hascending : sorted.Pairwise fun a b => sortKey a ≤ sortKey b)
  {a : Candidate Event} {rest : List (Candidate Event)}

include hleast hperm hascending

/-- The first candidate of the rank decides if it is malformed. -/
theorem invalidModel_of_first (hat : sorted.filter (atRank k) = a :: rest)
    (hmalformed : Malformed validComponent a) :
    sortCandidates validComponent sorted = .error .invalidModel := by
  have hsplit := eq_below_at_above hascending k
  rw [hat, List.cons_append] at hsplit
  apply sortCandidates_error_of_split
    ((sortedCandidates_of_ascending hascending).trans hsplit) (checked_below hleast hperm)
  exact checkCandidate_of_malformed hmalformed

/-- So it does if it is well formed and its configuration is taken. -/
theorem duplicateCandidate_of_taken (hat : sorted.filter (atRank k) = a :: rest)
    (hformed : ¬Malformed validComponent a) (htaken : Taken candidates k) :
    sortCandidates validComponent sorted = .error .duplicateCandidate := by
  have hsplit := eq_below_at_above hascending k
  rw [hat, List.cons_append] at hsplit
  apply sortCandidates_error_of_split
    ((sortedCandidates_of_ascending hascending).trans hsplit) (checked_below hleast hperm)
  obtain ⟨a', ha', hrank, b, hb, hlt, hshares⟩ := htaken
  have ha : a ∈ sorted.filter (atRank k) := hat ▸ List.mem_cons_self
  have hsame : SharesConfiguration a a' :=
    sharesConfiguration_of_sortKey_eq
      (((atRank_eq_true_iff k a).mp (List.mem_filter.mp ha).2).trans hrank.symm)
  refine checkCandidate_of_shared (b := b) hformed ?_
    ⟨hsame.1.trans hshares.1, hsame.2.trans hshares.2⟩
  rw [List.mem_filter, decide_eq_true_iff]
  exact ⟨hperm.mem_iff.mpr hb, hlt⟩

/-- Otherwise the second one does. -/
theorem error_of_second {b : Candidate Event}
    (hat : sorted.filter (atRank k) = a :: b :: rest)
    (hformed : ¬Malformed validComponent a) (htaken : ¬Taken candidates k) :
    (Malformed validComponent b →
        sortCandidates validComponent sorted = .error .invalidModel) ∧
      (¬Malformed validComponent b →
        sortCandidates validComponent sorted = .error .duplicateCandidate) := by
  have hrank : ∀ c ∈ a :: b :: rest, sortKey c = k := by
    intro c hc
    rw [← hat] at hc
    exact (atRank_eq_true_iff k c).mp (List.mem_filter.mp hc).2
  have ha : a ∈ candidates := by
    have hmem : a ∈ sorted.filter (atRank k) := hat ▸ List.mem_cons_self
    exact hperm.mem_iff.mp (List.mem_filter.mp hmem).1
  have hsplit : sorted = (sorted.filter (fun c => sortKey c < k) ++ [a]) ++
      b :: (rest ++ sorted.filter fun c => k < sortKey c) := by
    have hsplit := eq_below_at_above hascending k
    rw [hat] at hsplit
    simpa using hsplit
  have hplaced : ∀ before x after,
      sorted.filter (fun c => sortKey c < k) ++ [a] = before ++ x :: after →
        checkCandidate validComponent before x = .ok () := by
    intro before x after heq
    rcases List.eq_nil_or_concat after with rfl | ⟨after, last, rfl⟩
    · obtain ⟨rfl, hlast⟩ := List.append_inj' heq rfl
      obtain rfl := List.singleton_inj.mp hlast
      rw [checkCandidate_eq_ok_iff]
      refine ⟨?_, ?_⟩
      · rw [← Bool.not_eq_false, wellFormed_eq_false_iff]
        exact hformed
      · rintro other hother ⟨hrequest, hconfiguration⟩
        rw [List.mem_filter, decide_eq_true_iff] at hother
        exact htaken ⟨a, ha, hrank a (by simp), other, hperm.mem_iff.mp hother.1, hother.2,
          hrequest.symm, hconfiguration.symm⟩
    · apply checked_below hleast hperm before x after
      rw [List.concat_eq_append, ← List.cons_append, ← List.append_assoc] at heq
      exact (List.append_inj' heq rfl).1
  have hsorted := (sortedCandidates_of_ascending hascending).trans hsplit
  constructor
  · intro hmalformed
    exact sortCandidates_error_of_split hsorted hplaced (checkCandidate_of_malformed hmalformed)
  · intro hformed'
    apply sortCandidates_error_of_split hsorted hplaced
    apply checkCandidate_of_shared hformed' (List.mem_append_right _ (List.mem_singleton_self a))
    exact sharesConfiguration_of_sortKey_eq ((hrank b (by simp)).trans (hrank a (by simp)).symm)

end Verdict

section Settling

variable {validComponent : StringView → Bool} {candidates sorted : List (Candidate Event)}
  {k : Rank Event}

/-- The candidates of the rank in any arrangement, with every other rank in its place. -/
theorem exists_arrangement {group : List (Candidate Event)}
    (hgroup : group.Perm (candidates.filter (atRank k))) :
    ∃ sorted : List (Candidate Event), sorted.Perm candidates ∧
      sorted.Pairwise (fun a b => sortKey a ≤ sortKey b) ∧
        sorted.filter (atRank k) = group := by
  have hperm := sortedCandidates_perm candidates
  have hascending := sortedCandidates_ascending candidates
  have hgroup' : group.Perm ((sortedCandidates candidates).filter (atRank k)) :=
    hgroup.trans (hperm.symm.filter _)
  have hat : ∀ a ∈ group, sortKey a = k := by
    intro a ha
    exact (atRank_eq_true_iff k a).mp (List.mem_filter.mp (hgroup.mem_iff.mp ha)).2
  let below := (sortedCandidates candidates).filter fun a => sortKey a < k
  let above := (sortedCandidates candidates).filter fun a => k < sortKey a
  have hbelow : ∀ a ∈ below, sortKey a < k := by
    intro a ha
    exact of_decide_eq_true (List.mem_filter.mp ha).2
  have habove : ∀ a ∈ above, k < sortKey a := by
    intro a ha
    exact of_decide_eq_true (List.mem_filter.mp ha).2
  refine ⟨below ++ (group ++ above), ?_, ?_, ?_⟩
  · have hmiddle := ((hgroup'.append_right above).append_left below).trans
      (List.Perm.of_eq (eq_below_at_above hascending k).symm)
    exact hmiddle.trans hperm
  · rw [List.pairwise_append, List.pairwise_append]
    refine ⟨hascending.filter _, ⟨?_, hascending.filter _, ?_⟩, ?_⟩
    · exact List.pairwise_of_forall_mem_list fun a ha b hb => ((hat a ha).trans (hat b hb).symm).le
    · intro a ha b hb
      rw [hat a ha]
      exact (habove b hb).le
    · intro a ha b hb
      rcases List.mem_append.mp hb with hb | hb
      · rw [hat b hb]
        exact (hbelow a ha).le
      · exact ((hbelow a ha).trans (habove b hb)).le
  · have hnone : ∀ l : List (Candidate Event), (∀ a ∈ l, sortKey a ≠ k) →
        l.filter (atRank k) = [] := by
      intro l hl
      exact List.filter_eq_nil_iff.mpr fun a ha h => hl a ha ((atRank_eq_true_iff k a).mp h)
    have hall : group.filter (atRank k) = group :=
      List.filter_eq_self.mpr fun a ha => (atRank_eq_true_iff k a).mpr (hat a ha)
    rw [List.filter_append, List.filter_append, hall, hnone below fun a ha => (hbelow a ha).ne,
      hnone above fun a ha => (habove a ha).ne', List.nil_append, List.append_nil]

theorem filter_atRank_eq_cons (hflawed : Flawed validComponent candidates k)
    (hperm : sorted.Perm candidates) :
    ∃ a rest, sorted.filter (atRank k) = a :: rest := by
  obtain ⟨a, ha, hrank⟩ := hflawed.exists_member
  have hmem : a ∈ sorted.filter (atRank k) :=
    List.mem_filter.mpr ⟨hperm.mem_iff.mpr ha, (atRank_eq_true_iff k a).mpr hrank⟩
  exact List.exists_cons_of_ne_nil (List.ne_nil_of_mem hmem)

theorem mem_of_filter_atRank_eq {a : Candidate Event} {group : List (Candidate Event)}
    (hperm : sorted.Perm candidates) (hat : sorted.filter (atRank k) = group) (ha : a ∈ group) :
    a ∈ candidates ∧ sortKey a = k := by
  subst hat
  obtain ⟨hmem, hrank⟩ := List.mem_filter.mp ha
  exact ⟨hperm.mem_iff.mp hmem, (atRank_eq_true_iff k a).mp hrank⟩

section Ascending

variable (hleast : IsLeast {k | Flawed validComponent candidates k} k)
  (hperm : sorted.Perm candidates)
  (hascending : sorted.Pairwise fun a b => sortKey a ≤ sortKey b)

include hleast hperm hascending

/-- Without a malformed member the rank shows a duplicate. -/
theorem duplicateCandidate_of_wellFormed
    (hformed : ∀ a ∈ candidates, sortKey a = k → ¬Malformed validComponent a) :
    sortCandidates validComponent sorted = .error .duplicateCandidate := by
  obtain ⟨a, rest, hat⟩ := filter_atRank_eq_cons hleast.1 hperm
  have hmember : ∀ b ∈ a :: rest, ¬Malformed validComponent b := by
    intro b hb
    obtain ⟨hmem, hrank⟩ := mem_of_filter_atRank_eq hperm hat hb
    exact hformed b hmem hrank
  by_cases htaken : Taken candidates k
  · exact duplicateCandidate_of_taken hleast hperm hascending hat (hmember a (by simp)) htaken
  · rcases hleast.1 with ⟨b, hb, hrank, hmalformed⟩ | hcount | htaken'
    · exact absurd hmalformed (hformed b hb hrank)
    · rw [← hperm.countP_eq, List.countP_eq_length_filter, hat] at hcount
      obtain ⟨b, rest', rfl⟩ : ∃ b rest', rest = b :: rest' := by
        cases rest with
        | nil => simp at hcount
        | cons b rest' => exact ⟨b, rest', rfl⟩
      exact (error_of_second hleast hperm hascending hat (hmember a (by simp)) htaken).2
        (hmember b (by simp))
    · exact absurd htaken' htaken

/-- A malformed member shows before a duplicate does. -/
theorem invalidModel_of_malformed (hsettled : Settled validComponent candidates k)
    (hmalformed : ∃ a ∈ candidates, sortKey a = k ∧ Malformed validComponent a) :
    sortCandidates validComponent sorted = .error .invalidModel := by
  obtain ⟨bad, hbad, hbadRank, hbadMalformed⟩ := hmalformed
  obtain ⟨a, rest, hat⟩ := filter_atRank_eq_cons hleast.1 hperm
  by_cases hfirst : Malformed validComponent a
  · exact invalidModel_of_first hleast hperm hascending hat hfirst
  obtain ⟨ha, harank⟩ := mem_of_filter_atRank_eq hperm hat List.mem_cons_self
  rcases hsettled with hnone | hall | ⟨htaken, hcount⟩
  · exact absurd hbadMalformed (hnone bad hbad hbadRank)
  · exact absurd (hall a ha harank) hfirst
  · -- the malformed member is behind the only well-formed one
    have hmem : bad ∈ a :: rest := by
      rw [← hat, List.mem_filter]
      exact ⟨hperm.mem_iff.mpr hbad, (atRank_eq_true_iff k bad).mpr hbadRank⟩
    have hrest : bad ∈ rest := by
      rcases List.mem_cons.mp hmem with rfl | hrest
      · exact absurd hbadMalformed hfirst
      · exact hrest
    obtain ⟨b, rest', rfl⟩ := List.exists_cons_of_ne_nil (List.ne_nil_of_mem hrest)
    have hcount' : (sorted.filter (atRank k)).countP (wellFormed validComponent) ≤ 1 := by
      rw [List.countP_filter, hperm.countP_eq]
      simpa only [Bool.and_comm] using hcount
    rw [hat, List.countP_cons, List.countP_cons] at hcount'
    have hsecond : Malformed validComponent b := by
      rw [← wellFormed_eq_false_iff] at hfirst ⊢
      rw [Bool.not_eq_false] at hfirst
      by_contra hformed
      rw [Bool.not_eq_false] at hformed
      rw [if_pos hfirst, if_pos hformed] at hcount'
      omega
    exact (error_of_second hleast hperm hascending hat hfirst htaken).1 hsecond

end Ascending

/-- A settled rank shows the same defect in every order of enumeration. -/
theorem exists_error_of_settled (hleast : IsLeast {k | Flawed validComponent candidates k} k)
    (hsettled : Settled validComponent candidates k) :
    ∃ error, ∀ presented : List (Candidate Event), presented.Perm candidates →
      sortCandidates validComponent presented = .error error := by
  by_cases hmalformed : ∃ a ∈ candidates, sortKey a = k ∧ Malformed validComponent a
  · refine ⟨.invalidModel, ?_⟩
    intro presented hperm
    rw [← sortCandidates_sortedCandidates]
    exact invalidModel_of_malformed hleast ((sortedCandidates_perm presented).trans hperm)
      (sortedCandidates_ascending presented) hsettled hmalformed
  · push Not at hmalformed
    refine ⟨.duplicateCandidate, ?_⟩
    intro presented hperm
    rw [← sortCandidates_sortedCandidates]
    exact duplicateCandidate_of_wellFormed hleast ((sortedCandidates_perm presented).trans hperm)
      (sortedCandidates_ascending presented) hmalformed

/-- A rank that is not settled shows either of its defects first. -/
theorem both_of_not_settled (hleast : IsLeast {k | Flawed validComponent candidates k} k)
    (hsettled : ¬Settled validComponent candidates k) :
    (∃ sorted, sorted.Perm candidates ∧
        sortCandidates validComponent sorted = .error .invalidModel) ∧
      ∃ sorted, sorted.Perm candidates ∧
        sortCandidates validComponent sorted = .error .duplicateCandidate := by
  rw [Settled, not_or, not_or, not_and_or, not_not, not_le] at hsettled
  obtain ⟨hmalformed, hformed, hclash⟩ := hsettled
  push Not at hmalformed hformed
  obtain ⟨bad, hbad, hbadRank, hbadMalformed⟩ := hmalformed
  obtain ⟨good, hgood, hgoodRank, hgoodFormed⟩ := hformed
  let group := candidates.filter (atRank k)
  have hsplit : (group.filter (wellFormed validComponent) ++
      group.filter fun a => !wellFormed validComponent a).Perm group :=
    List.filter_append_perm _ _
  constructor
  · obtain ⟨sorted, hperm, hascending, hat⟩ :=
      exists_arrangement (List.perm_append_comm.trans hsplit)
    refine ⟨sorted, hperm, ?_⟩
    have hmem : bad ∈ group.filter fun a => !wellFormed validComponent a := by
      rw [List.mem_filter, List.mem_filter, (wellFormed_eq_false_iff _ _).mpr hbadMalformed]
      exact ⟨⟨hbad, (atRank_eq_true_iff k bad).mpr hbadRank⟩, rfl⟩
    obtain ⟨a, rest, hcons⟩ := List.exists_cons_of_ne_nil (List.ne_nil_of_mem hmem)
    have ha : a ∈ group.filter fun a => !wellFormed validComponent a :=
      hcons ▸ List.mem_cons_self
    rw [hcons, List.cons_append] at hat
    apply invalidModel_of_first hleast hperm hascending hat
    rw [← wellFormed_eq_false_iff, ← Bool.not_eq_true']
    exact (List.mem_filter.mp ha).2
  · obtain ⟨sorted, hperm, hascending, hat⟩ := exists_arrangement hsplit
    refine ⟨sorted, hperm, ?_⟩
    have hformed : ∀ a ∈ group.filter (wellFormed validComponent),
        ¬Malformed validComponent a := by
      intro a ha
      rw [← wellFormed_eq_false_iff, Bool.not_eq_false]
      exact (List.mem_filter.mp ha).2
    have hmem : good ∈ group.filter (wellFormed validComponent) := by
      rw [← wellFormed_eq_false_iff, Bool.not_eq_false] at hgoodFormed
      rw [List.mem_filter, List.mem_filter]
      exact ⟨⟨hgood, (atRank_eq_true_iff k good).mpr hgoodRank⟩, hgoodFormed⟩
    obtain ⟨a, rest, hcons⟩ := List.exists_cons_of_ne_nil (List.ne_nil_of_mem hmem)
    rw [hcons] at hformed
    rw [hcons, List.cons_append] at hat
    by_cases htaken : Taken candidates k
    · exact duplicateCandidate_of_taken hleast hperm hascending hat (hformed a (by simp)) htaken
    · have hcount := hclash.resolve_left htaken
      have hlength : (group.filter (wellFormed validComponent)).length =
          candidates.countP fun a => atRank k a && wellFormed validComponent a := by
        rw [← List.countP_eq_length_filter, List.countP_filter]
        simp only [Bool.and_comm]
      rw [← hlength, hcons] at hcount
      obtain ⟨b, rest', rfl⟩ : ∃ b rest', rest = b :: rest' := by
        cases rest with
        | nil => simp at hcount
        | cons b rest' => exact ⟨b, rest', rfl⟩
      rw [List.cons_append] at hat
      exact (error_of_second hleast hperm hascending hat (hformed a (by simp)) htaken).2
        (hformed b (by simp))

end Settling

section Solve

variable [Inhabited Event] {validComponent : StringView → Bool} {problem : Problem Event}

theorem solve_error_of_sortCandidates {error : Error} (hevents : DistinctEvents problem.requests)
    {candidates : List (Candidate Event)}
    (herror : sortCandidates validComponent candidates = .error error)
    (demands : DemandSummary Event) (budget : UInt32) :
    (solve validComponent { problem with candidates := candidates } demands budget).error =
      error := by
  simp only [solve, sortRequests_eq, if_pos hevents, herror]
  rfl

/-- The error of a defective candidate array comes from the least rank that has a defect,
and every order of enumeration shows the same one exactly if that rank is settled. -/
theorem solve_defect_error (validComponent : StringView → Bool) (problem : Problem Event)
    (demands : DemandSummary Event) (budget : UInt32)
    (hevents : DistinctEvents problem.requests)
    (hdefective : Defective validComponent problem.candidates) :
    ∃ k, IsLeast {k | Flawed validComponent problem.candidates k} k ∧
      (∀ candidates : List (Candidate Event), candidates.Perm problem.candidates →
        (solve validComponent { problem with candidates := candidates } demands budget).error =
            .invalidModel ∨
          (solve validComponent { problem with candidates := candidates } demands budget).error =
            .duplicateCandidate) ∧
      ((∀ candidates : List (Candidate Event), candidates.Perm problem.candidates →
          (solve validComponent { problem with candidates := candidates } demands budget).error =
            (solve validComponent problem demands budget).error) ↔
        Settled validComponent problem.candidates k) := by
  obtain ⟨k, hleast⟩ := exists_least_flawed hdefective
  have herror : ∀ {candidates : List (Candidate Event)} {error : Error},
      sortCandidates validComponent candidates = .error error →
        (solve validComponent { problem with candidates := candidates } demands budget).error =
          error := by
    intro candidates error herror
    exact solve_error_of_sortCandidates hevents herror demands budget
  refine ⟨k, hleast, ?_, ?_, ?_⟩
  · intro candidates hperm
    have hinvalid : ¬ValidCandidates validComponent candidates := by
      intro hvalid
      exact (defective_iff _ _).mp hdefective (hvalid.perm hperm)
    cases hsort : sortCandidates validComponent candidates with
    | ok sorted => exact absurd ((sortCandidates_eq_ok_iff _ _ _).mp hsort).2 hinvalid
    | error error =>
        rw [herror hsort]
        exact sortCandidates_error hsort
  · intro hsame
    by_contra hsettled
    obtain ⟨⟨first, hfirst, hinvalid⟩, second, hsecond, hduplicate⟩ :=
      both_of_not_settled hleast hsettled
    have heq := (hsame first hfirst).trans (hsame second hsecond).symm
    rw [herror hinvalid, herror hduplicate] at heq
    contradiction
  · intro hsettled candidates hperm
    obtain ⟨error, hall⟩ := exists_error_of_settled hleast hsettled
    rw [herror (hall candidates hperm)]
    exact (herror (hall problem.candidates (List.Perm.refl _))).symm

end Solve

section Twins

/-- The demonstration board with one configuration listed three times, once without an
owner. -/
def unownedCandidate : Candidate Nat :=
  { boardCandidate 1 "fast" "timer1" "ovf1" 0 with owner := [] }

def twinProblem : Problem Nat :=
  { boardProblem with
    candidates := [unownedCandidate, boardCandidate 1 "fast" "timer1" "ovf1" 0,
      boardCandidate 1 "fast" "timer1" "ovf1" 0] }

theorem twinProblem_defective : Defective nonemptyName twinProblem.candidates :=
  Or.inl ⟨unownedCandidate, by simp [twinProblem],
    Or.inl ⟨unownedCandidate.owner, by simp [ownComponents], rfl⟩⟩

/-- With the unowned candidate at the front its own defect is found first, with it at the
back the duplicate is. -/
theorem twins_error_depends_on_order :
    DistinctEvents twinProblem.requests ∧ Defective nonemptyName twinProblem.candidates ∧
      twinProblem.candidates.reverse.Perm twinProblem.candidates ∧
      (solve nonemptyName twinProblem boardDemands 100).error = .invalidModel ∧
      (solve nonemptyName { twinProblem with candidates := twinProblem.candidates.reverse }
        boardDemands 100).error = .duplicateCandidate :=
  ⟨by decide, twinProblem_defective, List.reverse_perm _, by decide +kernel, by decide +kernel⟩

theorem twins_defect_error :
    ∃ k, IsLeast {k | Flawed nonemptyName twinProblem.candidates k} k ∧
      (∀ candidates : List (Candidate Nat), candidates.Perm twinProblem.candidates →
        (solve nonemptyName { twinProblem with candidates := candidates } boardDemands 100).error =
            .invalidModel ∨
          (solve nonemptyName { twinProblem with candidates := candidates }
            boardDemands 100).error = .duplicateCandidate) ∧
      ((∀ candidates : List (Candidate Nat), candidates.Perm twinProblem.candidates →
          (solve nonemptyName { twinProblem with candidates := candidates }
              boardDemands 100).error =
            (solve nonemptyName twinProblem boardDemands 100).error) ↔
        Settled nonemptyName twinProblem.candidates k) :=
  solve_defect_error nonemptyName twinProblem boardDemands 100 (by decide) twinProblem_defective

end Twins

end GrevirPeripherals.InterruptFirstDefect
