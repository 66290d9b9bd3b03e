import Mathlib.Data.List.Induction

/-!
Runs of an object whose calls return any number of values: what a sequence of calls
leaves behind, and what the calls have returned by then.
-/

namespace GrevirPeripherals.CallRuns

variable {S C O : Type}

/-- The object after the calls. -/
def after (step : S → C → List O × S) (s : S) (calls : List C) : S :=
  calls.foldl (fun s call => (step s call).2) s

/-- What the calls return, in their order. -/
def returned (step : S → C → List O × S) : S → List C → List O
  | _, [] => []
  | s, call :: calls => (step s call).1 ++ returned step (step s call).2 calls

variable (step : S → C → List O × S)

theorem after_append (s : S) (calls more : List C) :
    after step s (calls ++ more) = after step (after step s calls) more :=
  List.foldl_append

theorem returned_append (s : S) (calls more : List C) :
    returned step s (calls ++ more) =
      returned step s calls ++ returned step (after step s calls) more := by
  induction calls generalizing s with
  | nil => rfl
  | cons call calls ih =>
      rw [List.cons_append, returned, returned, ih, List.append_assoc]
      rfl

theorem after_concat (s : S) (calls : List C) (call : C) :
    after step s (calls ++ [call]) = (step (after step s calls) call).2 :=
  after_append step s calls [call]

theorem returned_concat (s : S) (calls : List C) (call : C) :
    returned step s (calls ++ [call]) =
      returned step s calls ++ (step (after step s calls) call).1 := by
  rw [returned_append, returned, returned, List.append_nil]

/-- What a call preserves, given everything returned before it, holds after any run. -/
theorem run_induction {step : S → C → List O × S} {I : List O → S → Prop} {s : S}
    (hinitial : I [] s)
    (hstep : ∀ before s call, I before s → I (before ++ (step s call).1) (step s call).2)
    (calls : List C) : I (returned step s calls) (after step s calls) := by
  induction calls using List.reverseRecOn with
  | nil => exact hinitial
  | append_singleton calls call ih =>
      rw [returned_concat, after_concat]
      exact hstep _ _ _ ih

/-- A part of the object that some of the calls act on by a rule of its own, and that the
others leave alone, follows the calls that act on it. -/
theorem part_after {V : Type} {step : S → C → List O × S} (part : S → V) {rule : V → C → V}
    {acts : C → Bool} {calls : List C}
    (hacts : ∀ call ∈ calls, acts call = true → ∀ s, part (step s call).2 = rule (part s) call)
    (hframe : ∀ call ∈ calls, acts call = false → ∀ s, part (step s call).2 = part s) (s : S) :
    part (after step s calls) = (calls.filter acts).foldl rule (part s) := by
  induction calls generalizing s with
  | nil => rfl
  | cons call calls ih =>
      rw [List.forall_mem_cons] at hacts hframe
      change part (after step (step s call).2 calls) = _
      rw [ih hacts.2 hframe.2]
      cases h : acts call with
      | true =>
          rw [List.filter_cons_of_pos h, List.foldl_cons, hacts.1 h]
      | false =>
          rw [List.filter_cons_of_neg (by rw [h]; exact Bool.false_ne_true), hframe.1 h]

/-- What holds of every call of a run and the object it is made on. -/
def AtEachCall (step : S → C → List O × S) (P : S → C → Prop) (s : S) (calls : List C) : Prop :=
  ∀ before call rest, calls = before ++ call :: rest → P (after step s before) call

theorem atEachCall_cons_iff {step : S → C → List O × S} {P : S → C → Prop} {s : S} {call : C}
    {calls : List C} :
    AtEachCall step P s (call :: calls) ↔ P s call ∧ AtEachCall step P (step s call).2 calls := by
  constructor
  · intro h
    refine ⟨h [] call calls rfl, fun before next rest hsplit => ?_⟩
    exact h (call :: before) next rest (by rw [hsplit]; rfl)
  · rintro ⟨hfirst, hrest⟩ before next rest hsplit
    cases before with
    | nil =>
        obtain ⟨rfl, -⟩ := List.cons.inj hsplit
        exact hfirst
    | cons _ before =>
        obtain ⟨rfl, htail⟩ := List.cons.inj hsplit
        exact hrest before next rest htail

section Simulation

variable {S' C' O' : Type} {step : S → C → List O × S} {step' : S' → C' → List O' × S'}
  {view : S → S'} {label : S → C → C'} {shown : O → Option O'}

/-- The calls of a run as another object sees them. -/
def labels (step : S → C → List O × S) (label : S → C → C') : S → List C → List C'
  | _, [] => []
  | s, call :: calls => label s call :: labels step label (step s call).2 calls

theorem labels_self (step : S → C → List O × S) (s : S) (calls : List C) :
    labels step (fun _ call => call) s calls = calls := by
  induction calls generalizing s with
  | nil => rfl
  | cons call calls ih => rw [labels, ih]

/-- Every call acts on the view as its label does. -/
def Simulates (step : S → C → List O × S) (step' : S' → C' → List O' × S') (view : S → S')
    (label : S → C → C') (shown : O → Option O') : Prop :=
  ∀ s call, step' (view s) (label s call) =
    ((step s call).1.filterMap shown, view (step s call).2)

variable (h : Simulates step step' view label shown)

include h

theorem Simulates.after (s : S) (calls : List C) :
    CallRuns.after step' (view s) (labels step label s calls) =
      view (CallRuns.after step s calls) := by
  induction calls generalizing s with
  | nil => rfl
  | cons call calls ih =>
      show CallRuns.after step' (step' (view s) (label s call)).2 _ = _
      rw [h s call]
      exact ih _

theorem Simulates.returned (s : S) (calls : List C) :
    CallRuns.returned step' (view s) (labels step label s calls) =
      (CallRuns.returned step s calls).filterMap shown := by
  induction calls generalizing s with
  | nil => rfl
  | cons call calls ih =>
      rw [labels, CallRuns.returned, CallRuns.returned, h s call, ih, List.filterMap_append]

theorem Simulates.atEachCall_iff {P : S' → C' → Prop} {s : S} {calls : List C} :
    AtEachCall step' P (view s) (labels step label s calls) ↔
      AtEachCall step (fun s call => P (view s) (label s call)) s calls := by
  induction calls generalizing s with
  | nil =>
      constructor <;> intro _ before call rest hsplit <;> simp [labels] at hsplit
  | cons call calls ih =>
      rw [labels, atEachCall_cons_iff, atEachCall_cons_iff, h s call, ih]

end Simulation

end GrevirPeripherals.CallRuns
