import GrevirPeripherals.PwmVerdict

/-!
The PWM allocator on instances that fall into parts whose candidates keep apart. All of them
can be allocated together exactly if the instances of every part can be.
-/

namespace GrevirPeripherals.PwmParts

open GrevirPeripherals.AllocationSearch
open GrevirPeripherals.ChoiceProblems
open GrevirPeripherals.ChoiceProblems.ChoiceProblem (Splits)
open GrevirPeripherals.PwmEligibility
open GrevirPeripherals.PwmFitting
open GrevirPeripherals.PwmModel
open GrevirPeripherals.PwmNormalForm
open GrevirPeripherals.PwmRequirements
open GrevirPeripherals.PwmSolution
open GrevirPeripherals.PwmSoundness
open GrevirPeripherals.PwmAllocator
open GrevirPeripherals.PwmUnits
open GrevirPeripherals.PwmVerdict
open GrevirPeripherals.StandardSort
open GrevirPeripherals.Strings

variable {ι : Type} [DecidableEq ι]

section Parts

variable (p : Problem) (label : StringView → ι)

/-- The requests of the instances with one label, and the candidates for such requests. -/
def partOf (i : ι) : Problem :=
  { p with
    requests := p.requests.filter fun r => label r.key.instanceName = i
    candidates := p.candidates.filter fun c =>
      c.liveEndpoints.all fun e => label e.request.instanceName = i }

/-- Whatever fits instances with different labels can be used together. -/
def Separated : Prop :=
  ∀ a ∈ p.requests, ∀ b ∈ p.requests, label a.key.instanceName ≠ label b.key.instanceName →
    ∀ c ∈ p.candidates, ∀ d ∈ p.candidates, Fitting p.requests a.key.instanceName c →
      Fitting p.requests b.key.instanceName d → Independent p.resources c d

variable {p label}

theorem mem_requests_partOf {i : ι} {r : Request} :
    r ∈ (partOf p label i).requests ↔ r ∈ p.requests ∧ label r.key.instanceName = i := by
  rw [partOf, List.mem_filter, decide_eq_true_iff]

theorem mem_candidates_partOf {i : ι} {c : Candidate} :
    c ∈ (partOf p label i).candidates ↔
      c ∈ p.candidates ∧ ∀ e ∈ c.liveEndpoints, label e.request.instanceName = i := by
  simp only [partOf, List.mem_filter, List.all_eq_true, decide_eq_true_eq]

/-- An instance has all of its requests in its own part. -/
theorem requestsOf_partOf (p : Problem) (label : StringView → ι) (instanceName : StringView) :
    requestsOf (partOf p label (label instanceName)).requests instanceName =
      requestsOf p.requests instanceName := by
  rw [requestsOf, requestsOf, partOf, List.filter_filter]
  apply List.filter_congr
  intro r _
  rw [Bool.and_eq_left_iff_imp, decide_eq_true_iff, decide_eq_true_iff]
  exact congrArg label

theorem fitting_partOf_iff (instanceName : StringView) (c : Candidate) :
    Fitting (partOf p label (label instanceName)).requests instanceName c ↔
      Fitting p.requests instanceName c := by
  constructor
  · rintro ⟨hnames, hendpoints, hsuits, hduties⟩
    rw [requestsOf_partOf p label] at hnames hendpoints hsuits
    exact ⟨hnames, hendpoints, hsuits, hduties⟩
  · rintro ⟨hnames, hendpoints, hsuits, hduties⟩
    rw [← requestsOf_partOf p label] at hnames hendpoints hsuits
    exact ⟨hnames, hendpoints, hsuits, hduties⟩

/-- A fitting candidate has endpoints for requests of its instance only. -/
theorem instanceName_of_fitting {instanceName : StringView} {c : Candidate}
    (h : Fitting p.requests instanceName c) {e : Endpoint} (he : e ∈ c.liveEndpoints) :
    e.request.instanceName = instanceName := by
  obtain ⟨r, hr, hkey⟩ := List.mem_map.mp ((h.names e.request).mp (List.mem_map_of_mem he))
  rw [← hkey]
  exact ((mem_requestsOf _ _ _).mp hr).2

/-- The choice of all instances is the choices of the parts. -/
theorem splits (hseparated : Separated p label) :
    Splits label (choiceProblem p) fun i => choiceProblem (partOf p label i) := by
  constructor
  case users =>
    intro instanceName i
    constructor
    · rintro ⟨r, hr, rfl⟩
      obtain ⟨hmem, hlabel⟩ := mem_requests_partOf.mp hr
      exact ⟨⟨r, hmem, rfl⟩, hlabel⟩
    · rintro ⟨⟨r, hr, rfl⟩, hlabel⟩
      exact ⟨r, mem_requests_partOf.mpr ⟨hr, hlabel⟩, rfl⟩
  case admits =>
    rintro instanceName - c
    constructor
    · rintro ⟨hc, hfitting, hunreserved⟩
      exact ⟨(mem_candidates_partOf.mp hc).1, (fitting_partOf_iff instanceName c).mp hfitting,
        hunreserved⟩
    · rintro ⟨hc, hfitting, hunreserved⟩
      exact ⟨mem_candidates_partOf.mpr ⟨hc, fun e he =>
          congrArg label (instanceName_of_fitting hfitting he)⟩,
        (fitting_partOf_iff instanceName c).mpr hfitting, hunreserved⟩
  case compatible => exact fun _ _ _ _ _ _ _ => Iff.rfl
  case separated =>
    rintro _ ⟨a, ha, rfl⟩ _ ⟨b, hb, rfl⟩ hlabel c d ⟨hc, hfitting, -⟩ ⟨hd, hfitting', -⟩
    exact hseparated a ha b hb hlabel c hc d hd hfitting hfitting'

/-- The endpoints of a candidate of a part are for requests of the part. -/
theorem validCandidate_partOf {i : ι} {c : Candidate} (hc : c ∈ (partOf p label i).candidates)
    (h : ValidCandidate p.resources p.requests c) :
    ValidCandidate p.resources (partOf p label i).requests c := by
  refine { h with endpoints := ?_ }
  intro e he
  have hendpoint := h.endpoints e he
  rw [validEndpoint_eq_true_iff] at hendpoint ⊢
  obtain ⟨hchannel, hpin, hdescendant, hstep, hatMost, r, hr, hkey⟩ := hendpoint
  refine ⟨hchannel, hpin, hdescendant, hstep, hatMost, r, mem_requests_partOf.mpr ⟨hr, ?_⟩, hkey⟩
  rw [hkey]
  exact (mem_candidates_partOf.mp hc).2 e he

theorem validProblem_partOf {sorter : Sorter} (h : ValidProblem sorter p) (i : ι) :
    ValidProblem sorter (partOf p label i) where
  identities :=
    ⟨fun r hr => h.identities.named r (mem_requests_partOf.mp hr).1,
      h.identities.distinct.sublist (List.filter_sublist.map _)⟩
  requests r hr := h.requests r (mem_requests_partOf.mp hr).1
  model :=
    { resources := h.model.resources
      known := h.model.known
      apart := h.model.apart
      candidates := fun c hc =>
        validCandidate_partOf hc (h.model.candidates c (mem_candidates_partOf.mp hc).1)
      consistent := fun a ha b hb => h.model.consistent a (mem_candidates_partOf.mp ha).1 b
        (mem_candidates_partOf.mp hb).1 }
  pins r hr := h.pins r (mem_requests_partOf.mp hr).1

end Parts

section Solve

/-- What a problem of all instances and its plan have to do with the parts and theirs. -/
structure Composes (sorter : Sorter) (p : Problem) (label : StringView → ι) (whole : Plan)
    (parts : ι → Plan) : Prop where
  valid : ValidProblem sorter p → ∀ i, ValidProblem sorter (partOf p label i)
  solved : whole.ok = true → ∀ i,
    (parts i).ok = true ∨ (parts i).diagnostic.status = .exhausted
  refused : verdict whole.diagnostic.status = .refused → ∃ i,
    verdict (parts i).diagnostic.status = .refused ∨ (parts i).diagnostic.status = .exhausted
  joined : ValidProblem sorter p → (∀ i, (parts i).ok = true) →
    whole.ok = true ∨ whole.diagnostic.status = .exhausted
  requests : whole.ok = true → ∀ i, (parts i).ok = true →
    whole.requests.filter (fun key => label key.instanceName = i) = (parts i).requests

/-- Two plans that succeed list the requests of a part in the same order. -/
theorem requests_partOf {sorter : Sorter} {search : Search} {p : Problem}
    {label : StringView → ι} {budget budget' : UInt32} {i : ι}
    (hok : (solve sorter search p budget).ok = true)
    (hpart : (solve sorter search (partOf p label i) budget').ok = true) :
    (solve sorter search p budget).requests.filter (fun key => label key.instanceName = i) =
      (solve sorter search (partOf p label i) budget').requests := by
  obtain ⟨hvalid, visited, choice, -, hsolve⟩ := exists_allocation_of_ok sorter search hok
  obtain ⟨hvalid', visited', choice', -, hsolve'⟩ := exists_allocation_of_ok sorter search hpart
  rw [hsolve, hsolve']
  have hperm : ((sortedKeys sorter p).filter fun key => label key.instanceName = i).Perm
      (sortedKeys sorter (partOf p label i)) := by
    refine ((sortedKeys_perm sorter p).filter _).trans ?_
    rw [List.filter_map]
    exact (sortedKeys_perm sorter (partOf p label i)).symm
  apply hperm.eq_of_pairwise fun a b _ _ (hab : a < b) (hba : b < a) => absurd hba hab.asymm
  · exact (sortedKeys_strict hvalid).filter _
  · exact sortedKeys_strict hvalid'

/-- The allocator allocates the instances of all parts where it allocates those of every
part, and refuses them only where it does not allocate those of some part. -/
theorem allocates_by_parts (sorter : Sorter) (search : Search) (p : Problem)
    (label : StringView → ι) (budget : UInt32) (budgets : ι → UInt32)
    (hseparated : Separated p label) :
    Composes sorter p label (solve sorter search p budget)
      fun i => solve sorter search (partOf p label i) (budgets i) := by
  have hiff := (splits hseparated).solvable_iff
  have hvalid {i : ι} (hproblem : ValidProblem sorter p) :=
    verdict_of_valid sorter search (partOf p label i) (budgets i) (validProblem_partOf hproblem i)
  constructor
  case valid => exact validProblem_partOf
  case solved =>
    intro hok i
    obtain ⟨hproblem, -, choice, hallocation, -⟩ := exists_allocation_of_ok sorter search hok
    have hsolvable := hiff.mp ⟨choice, (solves_iff_allocation p choice).mpr hallocation⟩ i
    exact (hvalid hproblem).of_solvable hsolvable
  case refused =>
    intro hrefused
    have hproblem : ValidProblem sorter p := by
      by_contra hinvalid
      rw [undecided_of_invalid sorter search p budget hinvalid] at hrefused
      contradiction
    have hnot := (solve_exact sorter search p budget).not_solvable hrefused
    rw [hiff, not_forall] at hnot
    obtain ⟨i, hpart⟩ := hnot
    exact ⟨i, (hvalid hproblem).of_not_solvable hpart⟩
  case joined =>
    intro hproblem hparts
    have hsolvable : (choiceProblem p).Solvable := hiff.mpr fun i => by
      obtain ⟨-, -, choice, hallocation, -⟩ := exists_allocation_of_ok sorter search (hparts i)
      exact ⟨choice, (solves_iff_allocation _ choice).mpr hallocation⟩
    exact (verdict_of_valid sorter search p budget hproblem).of_solvable hsolvable
  case requests => exact fun hok i hpart => requests_partOf hok hpart

end Solve

section Board

/-- The instances of the board are on timers, channels and pins of their own. -/
theorem board_allocated_by_parts :
    Composes insertionSorter boardProblem id
      (solve insertionSorter backtracking boardProblem 100)
        fun instanceName =>
          solve insertionSorter backtracking (partOf boardProblem id instanceName) 100 := by
  apply allocates_by_parts insertionSorter backtracking boardProblem id 100 (fun _ => 100)
  intro a ha b hb hne c hc d hd hfitting hfitting'
  have hok : (solve insertionSorter backtracking boardProblem 100).ok = true := by
    decide +kernel
  obtain ⟨hvalid, -⟩ := exists_allocation_of_ok insertionSorter backtracking hok
  rw [← compatible_eq_true_iff hvalid.model.resources
    (located_of_valid hvalid.model.resources (hvalid.model.candidates c hc))
    (located_of_valid hvalid.model.resources (hvalid.model.candidates d hd))]
  have hlive : ∀ c ∈ boardProblem.candidates, c.liveEndpoints ≠ [] := by
    decide +kernel
  have hapart : ∀ c ∈ boardProblem.candidates, ∀ d ∈ boardProblem.candidates,
      ∀ e ∈ c.liveEndpoints, ∀ e' ∈ d.liveEndpoints,
        e.request.instanceName ≠ e'.request.instanceName →
          PwmValidation.compatible boardProblem.resources c d = true := by
    decide +kernel
  obtain ⟨e, he⟩ := List.exists_mem_of_ne_nil _ (hlive c hc)
  obtain ⟨e', he'⟩ := List.exists_mem_of_ne_nil _ (hlive d hd)
  apply hapart c hc d hd e he e' he'
  rw [instanceName_of_fitting hfitting he, instanceName_of_fitting hfitting' he']
  exact hne

end Board

end GrevirPeripherals.PwmParts
