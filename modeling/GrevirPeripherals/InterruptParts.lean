import GrevirPeripherals.InterruptPlan
import GrevirPeripherals.InterruptPruning
import GrevirPeripherals.InterruptVerdict
import GrevirPeripherals.SeparateRows

/-!
The interrupt solver on a problem that falls into parts, none of which uses what the others
can use. It selects for every part what it selects for the part alone.
-/

namespace GrevirPeripherals.InterruptParts

open GrevirPeripherals.BacktrackingSearch (IsSelection explore explore_sound)
open GrevirPeripherals.ChoiceProblems
open GrevirPeripherals.ChoiceProblems.ChoiceProblem (Splits)
open GrevirPeripherals.InterruptModel
open GrevirPeripherals.InterruptPlan
open GrevirPeripherals.InterruptPruning
open GrevirPeripherals.InterruptSearch
open GrevirPeripherals.InterruptSelection
open GrevirPeripherals.InterruptSolution
open GrevirPeripherals.InterruptSolver
open GrevirPeripherals.InterruptValidation
open GrevirPeripherals.InterruptVerdict
open GrevirPeripherals.SeparateRows
open GrevirPeripherals.StandardSort
open GrevirPeripherals.Strings

variable {Event ι : Type} [DecidableEq ι]

section Parts

variable (problem : Problem Event) (demands : DemandSummary Event) (label : Event → ι)

/-- The requests and candidates for the events of one label. -/
def partOf (i : ι) : Problem Event where
  requests := problem.requests.filter fun request => label request.event = i
  candidates := problem.candidates.filter fun candidate => label candidate.request = i

/-- Whatever serves events with different labels can be used together. -/
def Separated : Prop :=
  ∀ a ∈ problem.requests, ∀ b ∈ problem.requests, label a.event ≠ label b.event →
    ∀ c ∈ problem.candidates, ∀ d ∈ problem.candidates, Eligible demands a c →
      Eligible demands b d → Compatible demands (a, c) (b, d)

variable {problem demands label}

theorem validProblem_partOf {validComponent : StringView → Bool}
    (h : ValidProblem validComponent problem) (i : ι) :
    ValidProblem validComponent (partOf problem label i) where
  events := h.events.filter _
  candidates := ValidCandidates.of_subperm h.candidates List.filter_sublist.subperm

/-- The choice of the whole problem is the choices of its parts. -/
theorem splits (hseparated : Separated problem demands label) :
    Splits label (choiceProblem problem demands)
      fun i => choiceProblem (partOf problem label i) demands := by
  constructor
  case users =>
    intro event i
    constructor
    · rintro ⟨request, hrequest, rfl⟩
      obtain ⟨hmem, hlabel⟩ := List.mem_filter.mp hrequest
      exact ⟨⟨request, hmem, rfl⟩, decide_eq_true_iff.mp hlabel⟩
    · rintro ⟨⟨request, hrequest, rfl⟩, hlabel⟩
      exact ⟨request, List.mem_filter.mpr ⟨hrequest, decide_eq_true hlabel⟩, rfl⟩
  case admits =>
    rintro _ ⟨request, hrequest, rfl⟩ c
    constructor
    · rintro ⟨hc, heligible⟩
      refine ⟨(List.mem_filter.mp hc).1, fun other hother heq => ?_⟩
      exact heligible other (List.mem_filter.mpr ⟨hother, decide_eq_true (congrArg label heq)⟩) heq
    · rintro ⟨hc, heligible⟩
      have hserves := (heligible request hrequest rfl).event
      exact ⟨List.mem_filter.mpr ⟨hc, decide_eq_true (congrArg label hserves)⟩,
        fun other hother heq => heligible other (List.mem_filter.mp hother).1 heq⟩
  case compatible => exact fun _ _ _ _ _ _ _ => Iff.rfl
  case separated =>
    rintro _ ⟨a, ha, rfl⟩ _ ⟨b, hb, rfl⟩ hlabel c d ⟨hc, hserves⟩ ⟨hd, hserves'⟩
    obtain ⟨htimer, hsource, hentry⟩ := hseparated a ha b hb hlabel c hc d hd
      (hserves a ha rfl) (hserves' b hb rfl)
    exact ⟨htimer, fun ha hb => ⟨hsource ha hb, hentry ha hb⟩⟩

end Parts

section Labels

/-- Whether a column is for an event with the label. -/
def ofLabel (label : Event → ι) (i : ι) (column : Column Event) : Bool :=
  decide (label column.1.request = i)

theorem map_fst_columnsOfKind (label : Event → ι) (i : ι) (selection : List (Column Event)) :
    (columnsOfKind (ofLabel label i) true selection).map Prod.fst =
      (selection.map Prod.fst).filter fun candidate => label candidate.request = i := by
  rw [List.filter_map, columnsOfKind]
  simp only [ofLabel, decide_eq_true_eq]
  rfl

theorem filter_zip {α β : Type} {p : α → Bool} {q : β → Bool} {xs : List α} {ys : List β}
    (h : List.Forall₂ (fun x y => p x = q y) xs ys) :
    (xs.zip ys).filter (fun pair => p pair.1) = (xs.filter p).zip (ys.filter q) := by
  induction h with
  | nil => rfl
  | @cons x y xs ys hxy _ ih =>
      rw [List.zip_cons_cons, List.filter_cons, List.filter_cons, List.filter_cons, ih, hxy]
      cases q y <;> rfl

variable {demands : DemandSummary Event} {label : Event → ι}

theorem label_eq_of_eligible {requests : List (Request Event)}
    {assignment : List (Candidate Event)}
    (h : List.Forall₂ (Eligible demands) requests assignment) (i : ι) :
    List.Forall₂ (fun (request : Request Event) (candidate : Candidate Event) =>
      decide (label request.event = i) = decide (label candidate.request = i))
        requests assignment :=
  h.imp fun request candidate hserves => by rw [hserves.event]

/-- A problem is valid if its parts are. -/
theorem validProblem_of_parts {validComponent : StringView → Bool} {problem : Problem Event}
    (h : ∀ i, ValidProblem validComponent (partOf problem label i)) :
    ValidProblem validComponent problem := by
  refine ⟨?_, ?_, ?_⟩
  · exact pairwise_of_parts (f := fun request : Request Event => label request.event)
      (r := fun a b => a.event ≠ b.event) (fun a b hne heq => hne (congrArg label heq))
      fun i => (h i).events
  · intro candidate hcandidate
    apply (h (label candidate.request)).candidates.wellFormed
    exact List.mem_filter.mpr ⟨hcandidate, decide_eq_true rfl⟩
  · exact pairwise_of_parts (f := fun candidate : Candidate Event => label candidate.request)
      (r := fun a b => ¬(a.request = b.request ∧ a.configuration = b.configuration))
      (fun a b hne heq => hne (congrArg label heq.1)) fun i => (h i).candidates.distinct

end Labels

section Rows

variable [LinearOrder Event]

/-- The columns that requests can lead to. -/
def Arises (problem : Problem Event) (demands : DemandSummary Event) (column : Column Event) :
    Prop :=
  ∃ request ∈ problem.requests, column.1 ∈ problem.candidates ∧
    Eligible demands request column.1 ∧ column.2 = demanded demands request.event

/-- The rows of the solver, each with whether it is for an event with the label. -/
def labelledRows (problem : Problem Event) (demands : DemandSummary Event) (label : Event → ι)
    (i : ι) : List (Bool × List (Column Event)) :=
  (sortedRequests problem.requests).map fun request =>
    (decide (label request.event = i),
      ((sortedCandidates problem.candidates).filter
        (eligible request (demanded demands request.event))).map
          fun candidate => (candidate, demanded demands request.event))

variable {problem : Problem Event} {demands : DemandSummary Event} {label : Event → ι}

theorem separate_ofLabel (hseparated : Separated problem demands label) (i : ι) :
    Separate admits (ofLabel label i) (Arises problem demands) := by
  rintro ⟨c, _⟩ ⟨d, _⟩ ⟨a, ha, hc, hserves, rfl⟩ ⟨b, hb, hd, hserves', rfl⟩ hne
  apply (admits_iff demands (a, c) (b, d)).mpr
  refine hseparated a ha b hb ?_ c hc d hd hserves hserves'
  intro heq
  apply hne
  rw [ofLabel, ofLabel, hserves.event, hserves'.event, heq]

theorem labelled_rows (problem : Problem Event) (demands : DemandSummary Event) (label : Event → ι)
    (i : ι) :
    Labelled (ofLabel label i) (Arises problem demands) (labelledRows problem demands label i) := by
  intro row hrow column hcolumn
  obtain ⟨request, hrequest, rfl⟩ := List.mem_map.mp hrow
  obtain ⟨candidate, hcandidate, rfl⟩ := List.mem_map.mp hcolumn
  obtain ⟨hmem, heligible⟩ := List.mem_filter.mp hcandidate
  have hserves := (eligible_iff demands request candidate).mp heligible
  refine ⟨⟨request, (mem_sortedRequests _ _).mp hrequest, (mem_sortedCandidates _ _).mp hmem,
    hserves, rfl⟩, ?_⟩
  change decide (label candidate.request = i) = decide (label request.event = i)
  rw [hserves.event]

theorem map_snd_labelledRows (problem : Problem Event) (demands : DemandSummary Event)
    (label : Event → ι) (i : ι) :
    (labelledRows problem demands label i).map Prod.snd =
      rowColumns (sortedCandidates problem.candidates) demands
        (sortedRequests problem.requests) := by
  rw [labelledRows, rowColumns, List.map_map]
  rfl

theorem sortedRequests_partOf (hevents : DistinctEvents problem.requests) (i : ι) :
    sortedRequests (partOf problem label i).requests =
      (sortedRequests problem.requests).filter fun request => label request.event = i := by
  have hperm : (sortedRequests (partOf problem label i).requests).Perm
      ((sortedRequests problem.requests).filter fun request => label request.event = i) :=
    (sortedRequests_perm _).trans ((sortedRequests_perm problem.requests).symm.filter _)
  apply eq_of_perm_of_ascending hperm (sortedRequests_ascending _)
    ((sortedRequests_ascending problem.requests).filter _)
  intro a ha b hb
  rw [mem_sortedRequests] at ha hb
  exact hevents.eq_of_event_eq (List.mem_filter.mp ha).1 (List.mem_filter.mp hb).1

theorem sortedCandidates_partOf {validComponent : StringView → Bool}
    (hvalid : ValidCandidates validComponent problem.candidates) (i : ι) :
    sortedCandidates (partOf problem label i).candidates =
      (sortedCandidates problem.candidates).filter fun candidate =>
        label candidate.request = i := by
  have hperm : (sortedCandidates (partOf problem label i).candidates).Perm
      ((sortedCandidates problem.candidates).filter fun candidate =>
        label candidate.request = i) :=
    (sortedCandidates_perm _).trans ((sortedCandidates_perm problem.candidates).symm.filter _)
  apply eq_of_perm_of_ascending hperm (sortedCandidates_ascending _)
    ((sortedCandidates_ascending problem.candidates).filter _)
  intro a ha b hb
  rw [mem_sortedCandidates] at ha hb
  exact hvalid.eq_of_sortKey_eq (List.mem_filter.mp ha).1 (List.mem_filter.mp hb).1

/-- What is eligible for an event has the label of the event. -/
theorem filter_eligible_partOf (request : Request Event) {i : ι} (hlabel : label request.event = i)
    (candidates : List (Candidate Event)) :
    (candidates.filter fun candidate => label candidate.request = i).filter
        (eligible request (demanded demands request.event)) =
      candidates.filter (eligible request (demanded demands request.event)) := by
  rw [List.filter_filter]
  apply List.filter_congr
  intro candidate _
  rw [Bool.and_eq_left_iff_imp]
  intro heligible
  rw [((eligible_iff demands request candidate).mp heligible).event]
  exact decide_eq_true hlabel

/-- The rows of the part are the rows with its label. -/
theorem ofKind_labelledRows {validComponent : StringView → Bool}
    (hvalid : ValidProblem validComponent problem) (i : ι) :
    ofKind true (labelledRows problem demands label i) =
      rowColumns (sortedCandidates (partOf problem label i).candidates) demands
        (sortedRequests (partOf problem label i).requests) := by
  rw [sortedRequests_partOf hvalid.events, sortedCandidates_partOf hvalid.candidates, ofKind,
    labelledRows, rowColumns, List.filter_map, List.map_map]
  simp only [Function.comp_def, decide_eq_true_eq]
  apply List.map_congr_left
  intro request hrequest
  have hlabel := decide_eq_true_iff.mp (List.mem_filter.mp hrequest).2
  rw [filter_eligible_partOf request hlabel]

/-- The search for the part alone follows the search for the whole problem. -/
theorem exploreProblem_partOf {validComponent : StringView → Bool}
    (hvalid : ValidProblem validComponent problem) (hseparated : Separated problem demands label)
    (hsome : (exploreProblem problem demands).1.isSome) (i : ι) :
    Follows (ofLabel label i) true (exploreProblem (partOf problem label i) demands)
      (exploreProblem problem demands) := by
  rw [exploreProblem, exploreRows, ← map_snd_labelledRows problem demands label i] at hsome
  rw [exploreProblem, exploreProblem, exploreRows, exploreRows, ← ofKind_labelledRows hvalid i,
    ← map_snd_labelledRows problem demands label i]
  exact explore_ofKind (separate_ofLabel hseparated i) true (labelled_rows problem demands label i)
    (fun a ha => absurd ha List.not_mem_nil)
    (explore_ofKind_isSome (labelled_rows problem demands label i) false hsome)

end Rows

section Solve

variable [LinearOrder Event] [Inhabited Event] {validComponent : StringView → Bool}
  {problem : Problem Event} {demands : DemandSummary Event} {label : Event → ι} {budget : UInt32}

variable (hseparated : Separated problem demands label)
  (hnone : (solve validComponent problem demands budget).error = .none)

include hseparated hnone

/-- A solved part has the candidates that the whole problem gives to its events. -/
theorem exists_assignment_of_none :
    ∃ assignment visited,
      List.Forall₂ (Eligible demands) (sortedRequests problem.requests) assignment ∧
        solve validComponent problem demands budget =
          selectedSolution demands (sortedRequests problem.requests) assignment visited ∧
        ∀ i, ∃ visited', solve validComponent (partOf problem label i) demands budget =
          selectedSolution demands (sortedRequests (partOf problem label i).requests)
            (assignment.filter fun candidate => label candidate.request = i) visited' := by
  obtain ⟨hvalid, selection, visited, hanswer, hsolve⟩ := exists_selection_of_solve_none hnone
  have hcost : (exploreProblem problem demands).2 ≤ budget.toNat := by
    by_contra hcost
    rw [solve_of_valid hvalid, if_neg hcost] at hnone
    simp at hnone
  have hassignment := compatibleAssignment_of_isSelection _ demands (explore_sound admits hanswer)
  refine ⟨_, visited, hassignment.eligible.imp fun _ _ hrow => hrow.2, hsolve, fun i => ?_⟩
  have hfollows := exploreProblem_partOf hvalid hseparated (hanswer ▸ rfl) i
  have hpart := hfollows.answer
  rw [hanswer, Option.map_some] at hpart
  rw [solve_of_valid (validProblem_partOf hvalid i), if_pos (hfollows.visits.trans hcost), hpart,
    ← map_fst_columnsOfKind]
  exact ⟨_, rfl⟩

theorem visited_partOf_le (i : ι) :
    (solve validComponent (partOf problem label i) demands budget).visited ≤
      (solve validComponent problem demands budget).visited := by
  obtain ⟨hvalid, selection, visited, hanswer, -⟩ := exists_selection_of_solve_none hnone
  exact visited_le_of_cost_le hvalid (validProblem_partOf hvalid i)
    (exploreProblem_partOf hvalid hseparated (hanswer ▸ rfl) i).visits

end Solve

section Composition

variable [LinearOrder Event] [Inhabited Event]

/-- What the solution of a problem has to do with the solutions of its parts. -/
structure Composes (problem : Problem Event) (demands : DemandSummary Event) (label : Event → ι)
    (whole : Solution Event) (parts : ι → Solution Event) : Prop where
  solved : whole.error = .none → ∀ i, (parts i).error = .none ∧ (parts i).visited ≤ whole.visited
  configurations : whole.error = .none → ∀ i,
    ((ascendingRequests problem.requests).zip whole.configurations).filter
        (fun row => label row.1.event = i) =
      (ascendingRequests (partOf problem label i).requests).zip (parts i).configurations
  bindings : whole.error = .none → demands.live.Nodup → ∀ i,
    (liveBindings whole.interrupts).filter (fun binding => label binding.event = i) =
      liveBindings (parts i).interrupts
  joined : (∀ i, (parts i).error = .none) → whole.error = .none ∨ whole.error = .exhausted

/-- The solver gives a problem the solutions of its parts, and refuses it only where it does
not solve one of them. -/
theorem serves_by_parts (validComponent : StringView → Bool) (problem : Problem Event)
    (demands : DemandSummary Event) (label : Event → ι) (budget : UInt32)
    (hseparated : Separated problem demands label) :
    Composes problem demands label (solve validComponent problem demands budget)
      fun i => solve validComponent (partOf problem label i) demands budget := by
  constructor
  case solved =>
    intro hnone i
    obtain ⟨assignment, visited, -, -, hparts⟩ := exists_assignment_of_none hseparated hnone
    obtain ⟨visited', hpart⟩ := hparts i
    exact ⟨by rw [hpart]; rfl, visited_partOf_le hseparated hnone i⟩
  case configurations =>
    intro hnone i
    obtain ⟨assignment, visited, heligible, hsolve, hparts⟩ :=
      exists_assignment_of_none hseparated hnone
    obtain ⟨visited', hpart⟩ := hparts i
    obtain ⟨hvalid, -⟩ := exists_selection_of_solve_none hnone
    rw [hsolve, hpart, ← sortedRequests_eq_ascending hvalid.events,
      ← sortedRequests_eq_ascending (validProblem_partOf hvalid i).events,
      sortedRequests_partOf hvalid.events]
    change ((sortedRequests problem.requests).zip (assignment.map Candidate.configuration)).filter
        (fun row => label row.1.event = i) =
      ((sortedRequests problem.requests).filter fun request => label request.event = i).zip
        ((assignment.filter fun candidate => label candidate.request = i).map
          Candidate.configuration)
    rw [List.zip_map_right, List.zip_map_right, ← filter_zip (label_eq_of_eligible heligible i),
      List.filter_map]
    rfl
  case bindings =>
    intro hnone hkeys i
    obtain ⟨assignment, visited, heligible, hsolve, hparts⟩ :=
      exists_assignment_of_none hseparated hnone
    obtain ⟨visited', hpart⟩ := hparts i
    obtain ⟨hvalid, -⟩ := exists_selection_of_solve_none hnone
    rw [hsolve, hpart, selectedSolution_interrupts hkeys, selectedSolution_interrupts hkeys,
      liveBindings_planOf, liveBindings_planOf, sortedRequests_partOf hvalid.events,
      ← filter_zip (label_eq_of_eligible heligible i), bindingsOf, bindingsOf, List.filter_map,
      List.filter_filter, List.filter_filter]
    congr 1
    apply List.filter_congr
    intro pair _
    rw [Bool.and_comm]
    rfl
  case joined =>
    intro hparts
    have hvalid : ValidProblem validComponent problem :=
      validProblem_of_parts fun i => (exists_selection_of_solve_none (hparts i)).1
    have hsolvable : (choiceProblem problem demands).Solvable :=
      (splits hseparated).solvable_iff.mpr fun i =>
        (solve_exact validComponent (partOf problem label i) demands budget).solvable
          (congrArg verdict (hparts i))
    exact (verdict_of_valid validComponent problem demands budget hvalid).of_solvable hsolvable

end Composition

section Board

/-- Two pairs of events, each pair with timers of its own. -/
def twoBoards : Problem Nat where
  requests := [{ event := 1 }, { event := 2 }, { event := 11 }, { event := 12 }]
  candidates := [boardCandidate 1 "slow" "timer1" "ovf1" 0,
    boardCandidate 11 "fast" "timer1" "ovf1" 0, boardCandidate 11 "wide" "timer2" "ovf2" 1,
    boardCandidate 2 "late" "timer3" "ovf3" 1, boardCandidate 12 "other" "timer4" "ovf4" 0]

def twoDemands : DemandSummary Nat where
  keys := [1, 2, 11, 12]
  count := 4

theorem twoBoards_served :
    Composes twoBoards twoDemands (· % 10) (solve nonemptyName twoBoards twoDemands 100)
      fun i => solve nonemptyName (partOf twoBoards (· % 10) i) twoDemands 100 := by
  apply serves_by_parts nonemptyName twoBoards twoDemands (· % 10) 100
  intro a ha b hb hlabel c hc d hd hserves hserves'
  have hne : c.request % 10 ≠ d.request % 10 := by
    rw [hserves.event, hserves'.event]
    exact hlabel
  have hapart : ∀ c ∈ twoBoards.candidates, ∀ d ∈ twoBoards.candidates,
      c.request % 10 ≠ d.request % 10 →
        c.timer ≠ d.timer ∧ c.source ≠ d.source ∧ c.entry ≠ d.entry := by
    decide +kernel
  obtain ⟨htimer, hsource, hentry⟩ := hapart c hc d hd hne
  exact ⟨htimer, fun _ _ => hsource, fun _ _ => hentry⟩

end Board

end GrevirPeripherals.InterruptParts
