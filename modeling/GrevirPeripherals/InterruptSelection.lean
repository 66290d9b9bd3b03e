import GrevirPeripherals.InterruptSolution
import Mathlib.Data.List.Sort

/-!
What the interrupt solver is for: one eligible candidate per request, with
exclusive timers, and exclusive sources and entries among the demanded requests.
-/

namespace GrevirPeripherals.InterruptSelection

open GrevirPeripherals.BacktrackingSearch (IsSelection explore_sound explore_least
  explore_isSome_iff)
open GrevirPeripherals.InterruptModel
open GrevirPeripherals.InterruptSearch
open GrevirPeripherals.InterruptSolution
open GrevirPeripherals.InterruptSolver
open GrevirPeripherals.InterruptValidation
open GrevirPeripherals.StandardSort
open GrevirPeripherals.Strings

section Assignments

variable {Event : Type}

/-- The candidate can serve the request. -/
structure Eligible (demands : DemandSummary Event) (request : Request Event)
    (candidate : Candidate Event) : Prop where
  event : candidate.request = request.event
  free : candidate.reserved = false
  pwm : request.pwmRequired = true → candidate.pwm = true
  periodEvent : request.event ∈ demands.live → candidate.periodEvent = true

/-- Two rows, each a request with its candidate, can be served together. -/
structure Compatible (demands : DemandSummary Event)
    (x y : Request Event × Candidate Event) : Prop where
  timer : x.2.timer ≠ y.2.timer
  source : x.1.event ∈ demands.live → y.1.event ∈ demands.live → x.2.source ≠ y.2.source
  entry : x.1.event ∈ demands.live → y.1.event ∈ demands.live → x.2.entry ≠ y.2.entry

/-- A choice of one eligible candidate for each of the rows, pairwise compatible. -/
structure CompatibleAssignment (candidates : List (Candidate Event))
    (demands : DemandSummary Event) (rows : List (Request Event))
    (assignment : List (Candidate Event)) : Prop where
  eligible : List.Forall₂ (fun request candidate =>
    candidate ∈ candidates ∧ Eligible demands request candidate) rows assignment
  compatible : (rows.zip assignment).Pairwise (Compatible demands)

theorem CompatibleAssignment.congr {candidates candidates' : List (Candidate Event)}
    {demands : DemandSummary Event} {rows : List (Request Event)}
    {assignment : List (Candidate Event)}
    (h : CompatibleAssignment candidates demands rows assignment)
    (hmem : ∀ candidate, candidate ∈ candidates ↔ candidate ∈ candidates') :
    CompatibleAssignment candidates' demands rows assignment where
  eligible := h.eligible.imp fun _ _ hrow => ⟨(hmem _).mp hrow.1, hrow.2⟩
  compatible := h.compatible

/-- The order of preference among the candidates of one request. -/
def preferenceKey (candidate : Candidate Event) : Nat ×ₗ StringView ×ₗ StringView :=
  toLex (candidate.preference, toLex (candidate.timer, candidate.configuration))

def Preferred (a b : Candidate Event) : Prop :=
  preferenceKey a < preferenceKey b

end Assignments

variable {Event : Type} [LinearOrder Event]

/-- The requests in ascending event order. -/
def ascendingRequests (requests : List (Request Event)) : List (Request Event) :=
  requests.insertionSort fun a b => a.event ≤ b.event

theorem sortedRequests_eq_ascending {requests : List (Request Event)}
    (hdistinct : DistinctEvents requests) :
    sortedRequests requests = ascendingRequests requests := by
  have htotal : Std.Total fun a b : Request Event => a.event ≤ b.event :=
    ⟨fun a b => le_total a.event b.event⟩
  have htrans : IsTrans (Request Event) fun a b => a.event ≤ b.event :=
    ⟨fun _ _ _ => le_trans⟩
  have hperm : (sortedRequests requests).Perm (ascendingRequests requests) :=
    (sortedRequests_perm requests).trans (List.perm_insertionSort _ requests).symm
  have hascending : (ascendingRequests requests).Pairwise fun a b => a.event ≤ b.event :=
    List.pairwise_insertionSort _ requests
  apply eq_of_perm_of_ascending hperm (sortedRequests_ascending requests) hascending
  intro a ha b hb
  rw [mem_sortedRequests] at ha hb
  exact hdistinct.eq_of_event_eq ha hb

theorem demanded_eq_true_iff (demands : DemandSummary Event) (event : Event) :
    demanded demands event = true ↔ event ∈ demands.live := by
  simp [demanded]

theorem eligible_iff (demands : DemandSummary Event) (request : Request Event)
    (candidate : Candidate Event) :
    eligible request (demanded demands request.event) candidate = true ↔
      Eligible demands request candidate := by
  have hdemanded := demanded_eq_true_iff demands request.event
  rw [← Bool.not_eq_false] at hdemanded
  constructor
  · intro h
    simp only [eligible, Bool.and_eq_true, Bool.or_eq_true, Bool.not_eq_true',
      decide_eq_true_eq] at h
    obtain ⟨⟨⟨hrequest, hfree⟩, hpwm⟩, hperiod⟩ := h
    refine ⟨hrequest, hfree, ?_, ?_⟩
    · intro hrequired
      simpa [hrequired] using hpwm
    · intro hlive
      simpa [hdemanded.mpr hlive] using hperiod
  · rintro ⟨hrequest, hfree, hpwm, hperiod⟩
    simp only [eligible, Bool.and_eq_true, Bool.or_eq_true, Bool.not_eq_true',
      decide_eq_true_eq]
    refine ⟨⟨⟨hrequest, hfree⟩, ?_⟩, ?_⟩
    · cases hrequired : request.pwmRequired with
      | false => exact Or.inl rfl
      | true => exact Or.inr (hpwm hrequired)
    · rcases Decidable.em (demanded demands request.event = false) with hno | hyes
      · exact Or.inl hno
      · exact Or.inr (hperiod (hdemanded.mp hyes))

/-- The columns the search works on, for rows that have received candidates. -/
def columnsOf (demands : DemandSummary Event) (pairs : List (Request Event × Candidate Event)) :
    List (Column Event) :=
  pairs.map fun pair => (pair.2, demanded demands pair.1.event)

theorem admits_iff (demands : DemandSummary Event) (x y : Request Event × Candidate Event) :
    admits (x.2, demanded demands x.1.event) (y.2, demanded demands y.1.event) = true ↔
      Compatible demands x y := by
  have hx := demanded_eq_true_iff demands x.1.event
  have hy := demanded_eq_true_iff demands y.1.event
  constructor
  · intro h
    simp only [admits, clashes, Bool.not_eq_true', Bool.or_eq_false_iff, Bool.and_eq_false_imp,
      Bool.and_eq_true, decide_eq_false_iff_not, hx, hy] at h
    obtain ⟨htimer, hshared⟩ := h
    exact ⟨htimer, fun hx hy => (hshared ⟨hy, hx⟩).1, fun hx hy => (hshared ⟨hy, hx⟩).2⟩
  · rintro ⟨htimer, hsource, hentry⟩
    simp only [admits, clashes, Bool.not_eq_true', Bool.or_eq_false_iff, Bool.and_eq_false_imp,
      Bool.and_eq_true, decide_eq_false_iff_not, hx, hy]
    exact ⟨htimer, fun h => ⟨hsource h.2 h.1, hentry h.2 h.1⟩⟩

section Correspondence

variable (candidates : List (Candidate Event)) (demands : DemandSummary Event)

/-- The selections of the search are the compatible assignments. -/
theorem isSelection_columnsOf_iff (rows : List (Request Event))
    (assignment : List (Candidate Event)) (hlength : rows.length = assignment.length) :
    IsSelection admits (rowColumns candidates demands rows) []
        (columnsOf demands (rows.zip assignment)) ↔
      CompatibleAssignment candidates demands rows assignment := by
  have hpairwise : (columnsOf demands (rows.zip assignment)).Pairwise
        (fun a b => admits a b = true) ↔
      (rows.zip assignment).Pairwise (Compatible demands) := by
    rw [columnsOf, List.pairwise_map]
    simp only [admits_iff]
  have hmem : List.Forall₂ (fun column row => column ∈ row)
        (columnsOf demands (rows.zip assignment)) (rowColumns candidates demands rows) ↔
      List.Forall₂ (fun request candidate =>
        candidate ∈ candidates ∧ Eligible demands request candidate) rows assignment := by
    clear hpairwise
    induction rows generalizing assignment with
    | nil =>
        rw [List.length_nil, eq_comm, List.length_eq_zero_iff] at hlength
        simp [hlength, columnsOf, rowColumns]
    | cons request rows ih =>
        cases assignment with
        | nil => simp at hlength
        | cons candidate assignment =>
            have ih := ih assignment (by simpa using hlength)
            simp only [columnsOf, rowColumns] at ih
            simp only [columnsOf, rowColumns, List.zip_cons_cons, List.map_cons,
              List.forall₂_cons, ih]
            simp [eligible_iff]
  constructor
  · rintro ⟨hsel, -, hpair⟩
    exact ⟨hmem.mp hsel, hpairwise.mp hpair⟩
  · rintro ⟨heligible, hcompatible⟩
    exact ⟨hmem.mpr heligible, by simp, hpairwise.mpr hcompatible⟩

/-- Every column of a selection carries the flag of its row. -/
theorem eq_columnsOf_of_isSelection {rows : List (Request Event)} {selection : List (Column Event)}
    (h : IsSelection admits (rowColumns candidates demands rows) [] selection) :
    rows.length = (selection.map Prod.fst).length ∧
      selection = columnsOf demands (rows.zip (selection.map Prod.fst)) := by
  have hmem := h.mem
  clear h
  induction rows generalizing selection with
  | nil =>
      have hnil : selection = [] := by simpa [rowColumns] using hmem
      simp [hnil, columnsOf]
  | cons request rows ih =>
      rw [rowColumns, List.map_cons, List.forall₂_cons_right_iff] at hmem
      obtain ⟨column, tail, hcolumn, htail, rfl⟩ := hmem
      obtain ⟨hlength, heq⟩ := ih htail
      obtain ⟨candidate, -, rfl⟩ := List.mem_map.mp hcolumn
      refine ⟨by simpa using hlength, ?_⟩
      simp only [columnsOf] at heq
      simp only [columnsOf, List.map_cons, List.zip_cons_cons, List.cons.injEq, true_and]
      exact heq

theorem compatibleAssignment_of_isSelection {rows : List (Request Event)}
    {selection : List (Column Event)}
    (h : IsSelection admits (rowColumns candidates demands rows) [] selection) :
    CompatibleAssignment candidates demands rows (selection.map Prod.fst) := by
  obtain ⟨hlength, heq⟩ := eq_columnsOf_of_isSelection candidates demands h
  rw [heq] at h
  exact (isSelection_columnsOf_iff candidates demands rows _ hlength).mp h

/-- The unlimited search has an answer exactly when the requests can be served. -/
theorem exploreRows_isSome_iff (rows : List (Request Event)) :
    (exploreRows candidates demands rows).1.isSome ↔
      ∃ assignment, CompatibleAssignment candidates demands rows assignment := by
  rw [exploreRows, explore_isSome_iff]
  constructor
  · rintro ⟨selection, h⟩
    exact ⟨_, compatibleAssignment_of_isSelection candidates demands h⟩
  · rintro ⟨assignment, h⟩
    exact ⟨_, (isSelection_columnsOf_iff candidates demands rows assignment
      h.eligible.length_eq).mpr h⟩

end Correspondence

theorem preferred_of_sortKey_lt {a b : Candidate Event} (hrequest : a.request = b.request)
    (h : sortKey a < sortKey b) : Preferred a b := by
  simp only [sortKey, Prod.Lex.toLex_lt_toLex, hrequest, lt_irrefl, false_or, true_and] at h
  simpa only [Preferred, preferenceKey, Prod.Lex.toLex_lt_toLex] using h

theorem sortedCandidates_strict {validComponent : StringView → Bool}
    {candidates : List (Candidate Event)} (h : ValidCandidates validComponent candidates) :
    (sortedCandidates candidates).Pairwise fun a b => sortKey a < sortKey b := by
  have hsorted := h.perm (sortedCandidates_perm candidates).symm
  apply (sortedCandidates_ascending candidates).imp₂ _ hsorted.distinct
  intro a b hle hdistinct
  apply lt_of_le_of_ne hle
  intro heq
  obtain ⟨hrequest, -, -, hconfiguration⟩ := (sortKey_eq_iff a b).mp heq
  exact hdistinct ⟨hrequest, hconfiguration⟩

/-- Sorting the whole candidate array puts every row in order of preference. -/
theorem rowColumns_preferred {validComponent : StringView → Bool}
    {candidates : List (Candidate Event)} (h : ValidCandidates validComponent candidates)
    (demands : DemandSummary Event) (rows : List (Request Event)) :
    ∀ row ∈ rowColumns (sortedCandidates candidates) demands rows,
      row.Pairwise fun a b => Preferred a.1 b.1 := by
  intro row hrow
  obtain ⟨request, -, rfl⟩ := List.mem_map.mp hrow
  rw [List.pairwise_map]
  have hfiltered := (sortedCandidates_strict h).filter
    (eligible request (demanded demands request.event))
  apply hfiltered.imp_of_mem
  intro a b ha hb hlt
  have ha' := (eligible_iff demands request a).mp (List.mem_filter.mp ha).2
  have hb' := (eligible_iff demands request b).mp (List.mem_filter.mp hb).2
  exact preferred_of_sortKey_lt (ha'.event.trans hb'.event.symm) hlt

theorem lex_map {α β : Type} {r : α → α → Prop} {s : β → β → Prop} (f : α → β)
    (hf : ∀ a b, r a b → s (f a) (f b)) {l₁ l₂ : List α} (h : List.Lex r l₁ l₂) :
    List.Lex s (l₁.map f) (l₂.map f) := by
  induction h with
  | nil => exact List.Lex.nil
  | cons _ ih => exact List.Lex.cons ih
  | rel hab => exact List.Lex.rel (hf _ _ hab)

/-- The answer of the unlimited search comes first among the compatible assignments. -/
theorem exploreRows_least {validComponent : StringView → Bool}
    {candidates : List (Candidate Event)} (hvalid : ValidCandidates validComponent candidates)
    {demands : DemandSummary Event} {rows : List (Request Event)}
    {selection : List (Column Event)}
    (h : (exploreRows (sortedCandidates candidates) demands rows).1 = some selection)
    {other : List (Candidate Event)}
    (hother : CompatibleAssignment (sortedCandidates candidates) demands rows other) :
    selection.map Prod.fst = other ∨ List.Lex Preferred (selection.map Prod.fst) other := by
  have hlength := hother.eligible.length_eq
  have hselection := (isSelection_columnsOf_iff _ demands rows other hlength).mpr hother
  have hfst : (columnsOf demands (rows.zip other)).map Prod.fst = other := by
    rw [columnsOf, List.map_map]
    exact List.map_snd_zip hlength.ge
  rcases explore_least admits _ (rowColumns_preferred hvalid demands rows) h hselection with
    heq | hlex
  · left
    rw [heq, hfst]
  · right
    rw [← hfst]
    exact lex_map Prod.fst (fun _ _ hab => hab) hlex

section Solve

variable [Inhabited Event] {validComponent : StringView → Bool} {problem : Problem Event}

/-- A solution without an error comes from the answer of the unlimited search. -/
theorem exists_selection_of_solve_none {demands : DemandSummary Event} {budget : UInt32}
    (h : (solve validComponent problem demands budget).error = .none) :
    ValidProblem validComponent problem ∧ ∃ selection visited,
      (exploreProblem problem demands).1 = some selection ∧
        solve validComponent problem demands budget =
          selectedSolution demands (sortedRequests problem.requests)
            (selection.map Prod.fst) visited := by
  have hvalid : ValidProblem validComponent problem := by
    by_contra hinvalid
    by_cases hevents : DistinctEvents problem.requests
    · have hcandidates : ¬ValidCandidates validComponent problem.candidates :=
        fun hcandidates => hinvalid ⟨hevents, hcandidates⟩
      obtain ⟨error, herror, hsolve⟩ := solve_of_invalidCandidates hevents hcandidates
      rw [hsolve] at h
      rcases herror with rfl | rfl <;> simp at h
    · rw [solve_of_duplicateRequest hevents] at h
      simp at h
  refine ⟨hvalid, ?_⟩
  rw [solve_of_valid hvalid] at h ⊢
  split_ifs at h ⊢ with hcost
  · cases hanswer : (exploreProblem problem demands).1 with
    | some selection => exact ⟨selection, _, rfl, rfl⟩
    | none =>
        rw [hanswer] at h
        exact absurd h (diagnose_ne_none _ _ _)
  · simp at h

/-- Unless the budget runs out, the solver succeeds exactly when a compatible
assignment exists, and then selects the one that comes first in the order of
preference, rows being compared in ascending event order. -/
theorem solve_selects_least (demands : DemandSummary Event) (budget : UInt32)
    (hevents : DistinctEvents problem.requests)
    (hcandidates : ValidCandidates validComponent problem.candidates)
    (hbudget : (solve validComponent problem demands budget).error ≠ .exhausted) :
    ((solve validComponent problem demands budget).error = .none ↔
        ∃ assignment, CompatibleAssignment problem.candidates demands
          (ascendingRequests problem.requests) assignment) ∧
      ((solve validComponent problem demands budget).error = .none →
        ∃ assignment,
          CompatibleAssignment problem.candidates demands
            (ascendingRequests problem.requests) assignment ∧
          (∀ other, CompatibleAssignment problem.candidates demands
              (ascendingRequests problem.requests) other →
            assignment = other ∨ List.Lex Preferred assignment other) ∧
          (solve validComponent problem demands budget).configurations =
            assignment.map Candidate.configuration) := by
  have hmem := mem_sortedCandidates problem.candidates
  rw [← sortedRequests_eq_ascending hevents]
  constructor
  · constructor
    · intro hnone
      obtain ⟨-, selection, _, hanswer, -⟩ := exists_selection_of_solve_none hnone
      have hselection := explore_sound admits hanswer
      exact ⟨_, (compatibleAssignment_of_isSelection _ demands hselection).congr hmem⟩
    · rintro ⟨assignment, hassignment⟩
      have hsome := (exploreRows_isSome_iff _ demands _).mpr
        ⟨assignment, hassignment.congr fun candidate => (hmem candidate).symm⟩
      obtain ⟨selection, hselection⟩ := Option.isSome_iff_exists.mp hsome
      rw [solve_of_valid ⟨hevents, hcandidates⟩] at hbudget ⊢
      split_ifs at hbudget ⊢ with hcost
      · rw [show (exploreProblem problem demands).1 = some selection from hselection]
        rfl
      · simp at hbudget
  · intro hnone
    obtain ⟨-, selection, _, hanswer, hsolve⟩ := exists_selection_of_solve_none hnone
    have hselection := explore_sound admits hanswer
    refine ⟨selection.map Prod.fst,
      (compatibleAssignment_of_isSelection _ demands hselection).congr hmem, ?_, ?_⟩
    · intro other hother
      exact exploreRows_least hcandidates hanswer
        (hother.congr fun candidate => (hmem candidate).symm)
    · rw [hsolve]
      rfl

end Solve

section Board

/-- A board with two timers, both able to serve either of two events. -/
def boardCandidate (request : Nat) (configuration timer source : String) (preference : Nat) :
    Candidate Nat where
  request := request
  configuration := text configuration
  timer := text timer
  owner := text "core"
  source := text source
  selector := text "top"
  entry := text source
  snapshotPolicy := text "latest"
  acknowledgePolicy := text "automatic"
  preference := preference
  pwm := true
  periodEvent := true

def boardProblem : Problem Nat where
  requests := [{ event := 2 }, { event := 1, pwmRequired := true }]
  candidates := [boardCandidate 2 "slow" "timer1" "ovf1" 0,
    boardCandidate 1 "fast" "timer1" "ovf1" 0, boardCandidate 1 "wide" "timer2" "ovf2" 1,
    boardCandidate 2 "late" "timer2" "ovf2" 1]

def boardDemands : DemandSummary Nat where
  keys := [1, 2]
  count := 2

theorem board_distinctEvents : DistinctEvents boardProblem.requests := by
  decide

theorem board_validCandidates : ValidCandidates nonemptyName boardProblem.candidates where
  wellFormed := by decide +kernel
  distinct := by decide +kernel

theorem board_selects_least :
    ∃ assignment,
      CompatibleAssignment boardProblem.candidates boardDemands
        (ascendingRequests boardProblem.requests) assignment ∧
      (∀ other, CompatibleAssignment boardProblem.candidates boardDemands
          (ascendingRequests boardProblem.requests) other →
        assignment = other ∨ List.Lex Preferred assignment other) ∧
      (solve nonemptyName boardProblem boardDemands 100).configurations =
        assignment.map Candidate.configuration :=
  (solve_selects_least boardDemands 100 board_distinctEvents board_validCandidates
    (by decide +kernel)).2 (by decide +kernel)

end Board

end GrevirPeripherals.InterruptSelection
