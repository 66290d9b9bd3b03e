import GrevirPeripherals.PwmCandidateSorting
import GrevirPeripherals.Rearrangement

/-!
What the model check leaves behind: the candidates it was given, each in a canonical
form, in a canonical order. A second check changes nothing.
-/

namespace GrevirPeripherals.PwmCanonicalModel

open GrevirPeripherals.PwmCandidateOrder
open GrevirPeripherals.PwmCandidateSorting
open GrevirPeripherals.PwmModel
open GrevirPeripherals.PwmNormalForm
open GrevirPeripherals.PwmNumeric
open GrevirPeripherals.PwmRequirements
open GrevirPeripherals.PwmResourceTree
open GrevirPeripherals.PwmSolution
open GrevirPeripherals.PwmSoundness
open GrevirPeripherals.PwmUnits
open GrevirPeripherals.PwmValidation
open GrevirPeripherals.Rearrangement
open GrevirPeripherals.StandardSort

/-- A ratio whose terms have no common factor. -/
def LowestTerms (r : Ratio) : Prop :=
  Nat.Coprime r.numerator.toNat r.denominator.toNat

theorem lowestTerms_normalized {r : Ratio} (h : r.positive = true) :
    LowestTerms r.normalized := by
  obtain ⟨hnumerator, hdenominator⟩ := Ratio.toNat_normalized h
  rw [LowestTerms, hnumerator, hdenominator]
  apply Nat.coprime_div_gcd_div_gcd
  exact Nat.gcd_pos_of_pos_right _ ((Ratio.positive_iff r).mp h).2

/-- The canonical form of a candidate among the resources of its model. -/
structure Canonical (resources : List Resource) (c : Candidate) : Prop where
  frequency : LowestTerms c.frequency
  steps : ∀ e ∈ c.liveEndpoints, LowestTerms e.step
  ascending : c.liveEndpoints.Pairwise fun x y => x.request < y.request
  channels : (c.liveEndpoints.map Endpoint.channel).Nodup
  pins : (c.liveEndpoints.map Endpoint.pin).Nodup
  children : ∀ e ∈ c.liveEndpoints, Parent resources e.channel c.timer
  cleared : ∀ i, c.count ≤ i → i < c.endpoints.length → c.endpoints[i]? = some {}

section Candidate

variable (sorter : Sorter) {resources : List Resource} {requests : List Request}
  {c : Candidate} (h : ValidCandidate resources requests c)

include h

theorem endpoints_nodup {γ : Type} {f : Endpoint → γ}
    (hf : ∀ x y, sharesMember y x = false → f x ≠ f y) :
    (c.liveEndpoints.map f).Nodup :=
  List.pairwise_map.mpr (h.distinct.imp fun hxy => hf _ _ hxy)

theorem normalEndpoints_nodup {γ : Type} {f : Endpoint → γ}
    (hf : ∀ x y, sharesMember y x = false → f x ≠ f y) (hreduce : ∀ e, f (reduceStep e) = f e) :
    ((normalForm sorter c).liveEndpoints.map f).Nodup := by
  rw [liveEndpoints_normalForm sorter h.count_le, List.map_map]
  have hmap : (f ∘ reduceStep) = f := funext hreduce
  rw [hmap, ((sortedEndpoints_perm sorter c).map f).nodup_iff]
  exact endpoints_nodup h hf

theorem mem_liveEndpoints_normalForm_iff (e : Endpoint) :
    e ∈ (normalForm sorter c).liveEndpoints ↔ ∃ e' ∈ c.liveEndpoints, reduceStep e' = e := by
  rw [liveEndpoints_normalForm sorter h.count_le, List.mem_map]
  simp only [(sortedEndpoints_perm sorter c).mem_iff]

theorem canonical_normalForm (htree : TwoLevel resources) :
    Canonical resources (normalForm sorter c) := by
  have hmem := mem_liveEndpoints_normalForm_iff sorter h
  constructor
  case frequency => exact lowestTerms_normalized h.frequency_positive
  case steps =>
    intro e he
    obtain ⟨e', he', rfl⟩ := (hmem e).mp he
    exact lowestTerms_normalized (h.step_positive he')
  case ascending => exact (arranged_normalForm sorter h).ascending
  case channels =>
    apply normalEndpoints_nodup sorter h _ fun _ => rfl
    intro x y hxy
    exact ((sharesMember_eq_false_iff y x).mp hxy).2.1.symm
  case pins =>
    apply normalEndpoints_nodup sorter h _ fun _ => rfl
    intro x y hxy
    exact ((sharesMember_eq_false_iff y x).mp hxy).2.2.symm
  case children =>
    intro e he
    obtain ⟨e', he', rfl⟩ := (hmem e).mp he
    have hcontains := ((htree.descendant_eq_true_iff _ _).mp (h.channel_descendant he')).2
    rcases (htree.contains_iff _ _).mp hcontains with heq | hparent
    · -- A channel is no timer.
      have htimer := h.timer_kind
      rw [← heq] at htimer
      have hkinds := htree.kind_unique htimer (h.channel_kind he')
      contradiction
    · exact hparent
  case cleared =>
    intro i hle hlt
    change c.count ≤ i at hle
    have hlength : ((sortedEndpoints sorter c).map reduceStep).length = c.count := by
      rw [List.length_map, (sortedEndpoints_perm sorter c).length_eq,
        length_liveEndpoints h.count_le]
    have hsize : i - c.count < c.endpoints.length - c.count := by
      have hsize := hlt
      simp only [normalForm, List.length_append, List.length_replicate] at hsize
      change i < ((sortedEndpoints sorter c).map reduceStep).length + _ at hsize
      omega
    change ((sortedEndpoints sorter c).map reduceStep ++ _)[i]? = _
    rw [List.getElem?_append_right (hlength.trans_le hle), hlength,
      List.getElem?_replicate_of_lt hsize]

/-- The canonical form does not depend on how the endpoints were sorted. -/
theorem normalForm_congr_sorter (sorter' : Sorter) : normalForm sorter' c = normalForm sorter c := by
  have hperm := sorter.perm_byKey Endpoint.request c.liveEndpoints
  have hperm' := sorter'.perm_byKey Endpoint.request c.liveEndpoints
  have hsort : sorter'.sort (byKey Endpoint.request) c.liveEndpoints =
      sorter.sort (byKey Endpoint.request) c.liveEndpoints := by
    apply eq_of_perm_of_ascending (hperm'.trans hperm.symm) (sorter'.ascending_byKey _ _)
      (sorter.ascending_byKey _ _)
    intro x hx y hy
    exact h.eq_of_request_eq (hperm'.mem_iff.mp hx) (hperm'.mem_iff.mp hy)
  rw [normalForm, normalForm, hsort]

/-- A canonical form passes the checks of the candidate it came from. -/
theorem validCandidate_normalForm : ValidCandidate resources requests (normalForm sorter c) := by
  have harranged := arranged_normalForm sorter h
  constructor
  case header =>
    have hheader := (validHeader_eq_true_iff resources c).mp h.header
    rw [validHeader_eq_true_iff]
    exact ⟨⟨hheader.1.1, hheader.1.2.1, hheader.1.2.2.1, hheader.1.2.2.2.1, harranged.frequency,
      hheader.1.2.2.2.2.2.1, harranged.count_le⟩, hheader.2⟩
  case endpoints =>
    intro e he
    obtain ⟨e', he', rfl⟩ := (mem_liveEndpoints_normalForm_iff sorter h e).mp he
    obtain ⟨hchannel, hpin, hdescendant, hvalid, hone, hknown⟩ :=
      (validEndpoint_eq_true_iff _ _ _ _).mp (h.endpoints e' he')
    have hpositive := h.step_positive he'
    have hunit : Ratio.positive ⟨1, 1⟩ = true := by decide
    rw [validEndpoint_eq_true_iff]
    refine ⟨hchannel, hpin, hdescendant, Ratio.valid_normalized hvalid, ?_, hknown⟩
    rw [Ratio.atMost_iff_value_le hpositive hunit] at hone
    change atMost e'.step.normalized ⟨1, 1⟩ = true
    rw [Ratio.atMost_iff_value_le (Ratio.positive_normalized hpositive) hunit,
      Ratio.value_normalized hpositive]
    exact hone
  case distinct =>
    rw [liveEndpoints_normalForm sorter h.count_le, List.pairwise_map]
    have hperm := sortedEndpoints_perm sorter c
    apply hperm.symm.pairwise h.distinct
    intro x y hxy
    rw [sharesMember_comm]
    exact hxy

theorem normalForm_normalForm (sorter' : Sorter) :
    normalForm sorter' (normalForm sorter c) = normalForm sorter c := by
  have hvalid := validCandidate_normalForm sorter h
  have hsize : (normalForm sorter c).endpoints.length = c.endpoints.length := by
    have hcount := h.count_le
    have hlength := length_liveEndpoints h.count_le
    simp only [normalForm, List.length_append, List.length_map, List.length_replicate,
      Sorter.length_byKey, hlength]
    omega
  rw [normalForm_eq_of_sameMeaning sorter' hvalid h hsize (sameMeaning_normalForm sorter h).symm]
  exact normalForm_congr_sorter sorter h sorter'

end Candidate

section Model

variable {sorter : Sorter} {p : Problem} (h : ValidModel sorter p)

include h

theorem rearranged_normalCandidates :
    Rearranged SameMeaning p.candidates (normalModel sorter p).candidates := by
  refine ⟨p.candidates.map (normalForm sorter), ?_, (normalCandidates_perm h).symm⟩
  rw [List.forall₂_map_right_iff, List.forall₂_same]
  intro c hc
  exact sameMeaning_normalForm sorter (h.candidates c hc)

theorem normalForm_normalCandidate (sorter' : Sorter) {c : Candidate}
    (hc : c ∈ (normalModel sorter p).candidates) : normalForm sorter' c = c := by
  obtain ⟨c', hc', rfl⟩ := (mem_normalCandidates_iff h c).mp hc
  exact normalForm_normalForm sorter (h.candidates c' hc') sorter'

theorem validModel_normalModel (sorter' : Sorter) :
    ValidModel sorter' (normalModel sorter p) where
  resources := h.resources
  known := h.known
  apart := h.apart
  candidates := by
    intro c hc
    obtain ⟨c', hc', rfl⟩ := (mem_normalCandidates_iff h c).mp hc
    exact validCandidate_normalForm sorter (h.candidates c' hc')
  consistent := by
    intro a ha b hb
    rw [normalForm_normalCandidate h sorter' ha, normalForm_normalCandidate h sorter' hb]
    obtain ⟨c, hc, rfl⟩ := (mem_normalCandidates_iff h a).mp ha
    obtain ⟨c', hc', rfl⟩ := (mem_normalCandidates_iff h b).mp hb
    exact h.consistent c hc c' hc'

theorem normalModel_normalModel (sorter' : Sorter) :
    normalModel sorter' (normalModel sorter p) = normalModel sorter p := by
  have hmap : (normalModel sorter p).candidates.map (normalForm sorter') =
      (normalModel sorter p).candidates := by
    calc (normalModel sorter p).candidates.map (normalForm sorter') =
        (normalModel sorter p).candidates.map id := by
          apply List.map_congr_left
          intro c hc
          exact normalForm_normalCandidate h sorter' hc
      _ = (normalModel sorter p).candidates := List.map_id _
  have hsort : sorter'.sort candidateLess (normalModel sorter p).candidates =
      (normalModel sorter p).candidates := by
    have horder := sortsUniquely_normalModel h
    exact horder.unique _ (sorter'.perm _ _ horder.order) (sorter'.sorted _ _ horder.order)
  rw [normalModel, hmap, hsort]

end Model

/-- What a successful check of a model means. -/
structure Normalizes (p p' : Problem) : Prop where
  requests : p'.requests = p.requests
  resources : p'.resources = p.resources
  reservations : p'.reservations = p.reservations
  candidates : Rearranged SameMeaning p.candidates p'.candidates
  canonical : ∀ c ∈ p'.candidates, Canonical p.resources c
  adjacent : ∀ c (i j k : Nat), i ≤ j → j ≤ k → p'.candidates[i]? = some c →
    p'.candidates[k]? = some c → p'.candidates[j]? = some c
  determined : ∀ a ∈ p'.candidates, ∀ b ∈ p'.candidates, a.key = b.key → a = b
  again : ∀ sorter : Sorter, normalizeModel sorter p' = some p'

/-- The model check keeps the meaning of every model it accepts and brings it to a form
that it does not change any more. -/
theorem normalizeModel_canonical {sorter : Sorter} {p p' : Problem}
    (hnormal : normalizeModel sorter p = some p') : Normalizes p p' := by
  obtain ⟨h, rfl⟩ := (normalizeModel_eq_some_iff sorter p p').mp hnormal
  constructor
  case requests | resources | reservations => rfl
  case candidates => exact rearranged_normalCandidates h
  case canonical =>
    intro c hc
    obtain ⟨c', hc', rfl⟩ := (mem_normalCandidates_iff h c).mp hc
    exact canonical_normalForm sorter (h.candidates c' hc') h.resources
  case adjacent => exact (sortsUniquely_normalModel h).adjacent
  case determined =>
    intro a ha b hb hkey
    exact normalCandidate_eq_of_key_eq h ha hb hkey
  case again =>
    intro sorter'
    rw [normalizeModel_eq_some_iff]
    exact ⟨validModel_normalModel h sorter', (normalModel_normalModel h sorter').symm⟩

theorem board_canonical :
    ∃ p', normalizeModel insertionSorter boardProblem = some p' ∧ Normalizes boardProblem p' := by
  have hsome : (normalizeModel insertionSorter boardProblem).isSome = true := by decide +kernel
  obtain ⟨p', hnormal⟩ := Option.isSome_iff_exists.mp hsome
  exact ⟨p', hnormal, normalizeModel_canonical hnormal⟩

end GrevirPeripherals.PwmCanonicalModel
