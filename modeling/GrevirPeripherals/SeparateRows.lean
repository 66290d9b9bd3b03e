import GrevirPeripherals.BacktrackingSearch

/-!
Backtracking search over rows of two kinds, where the columns of one kind are admitted by
those of the other. If the other rows have a selection, the search over all rows selects
from the rows of a kind what the search over these rows alone selects, with no fewer visits.
-/

namespace GrevirPeripherals.SeparateRows

open GrevirPeripherals.BacktrackingSearch

variable {α : Type} {admits : α → α → Bool} {kind : α → Bool} {P : α → Prop}

/-- Columns of different kinds go together. -/
def Separate (admits : α → α → Bool) (kind : α → Bool) (P : α → Prop) : Prop :=
  ∀ a b, P a → P b → kind a ≠ kind b → admits a b = true

/-- Every row says which kind its columns are of. -/
def Labelled (kind : α → Bool) (P : α → Prop) (rows : List (Bool × List α)) : Prop :=
  ∀ row ∈ rows, ∀ a ∈ row.2, P a ∧ kind a = row.1

/-- The rows of a kind. -/
def ofKind (k : Bool) (rows : List (Bool × List α)) : List (List α) :=
  (rows.filter fun row => row.1 = k).map Prod.snd

section Columns

variable (kind) in
/-- The columns of a kind. -/
def columnsOfKind (k : Bool) (columns : List α) : List α :=
  columns.filter fun a => kind a = k

variable {k : Bool} {a : α}

theorem columnsOfKind_cons (a : α) (columns : List α) :
    columnsOfKind kind k (a :: columns) =
      if kind a = k then a :: columnsOfKind kind k columns else columnsOfKind kind k columns := by
  simp [columnsOfKind, List.filter_cons]

theorem columnsOfKind_concat (columns : List α) (a : α) :
    columnsOfKind kind k (columns ++ [a]) =
      if kind a = k then columnsOfKind kind k columns ++ [a]
      else columnsOfKind kind k columns := by
  rw [columnsOfKind, List.filter_append, ← columnsOfKind, ← columnsOfKind, columnsOfKind_cons]
  split_ifs
  · rfl
  · exact List.append_nil _

theorem ofKind_cons (row : Bool × List α) (rows : List (Bool × List α)) :
    ofKind k (row :: rows) = if row.1 = k then row.2 :: ofKind k rows else ofKind k rows := by
  rw [ofKind, List.filter_cons]
  simp only [decide_eq_true_eq]
  split_ifs <;> rfl

/-- Only the chosen columns of its own kind stand in the way of a column. -/
theorem all_columnsOfKind (hseparate : Separate admits kind P) {chosen : List α}
    (hchosen : ∀ a ∈ chosen, P a) {column : α} (hcolumn : P column) (hkind : kind column = k) :
    (columnsOfKind kind k chosen).all (admits · column) = chosen.all (admits · column) := by
  rw [Bool.eq_iff_iff, List.all_eq_true, List.all_eq_true]
  constructor
  · intro h a ha
    by_cases hsame : kind a = k
    · exact h a (List.mem_filter.mpr ⟨ha, decide_eq_true hsame⟩)
    · exact hseparate a column (hchosen a ha) hcolumn (hkind ▸ hsame)
  · exact fun h a ha => h a (List.mem_filter.mp ha).1

end Columns

section Selections

variable {rows : List (Bool × List α)} (hrows : Labelled kind P rows) (k : Bool)

include hrows

/-- The columns of a kind are from the rows of that kind. -/
theorem forall₂_ofKind {selection : List α}
    (h : List.Forall₂ (fun column row => column ∈ row) selection (rows.map Prod.snd)) :
    List.Forall₂ (fun column row => column ∈ row) (columnsOfKind kind k selection)
      (ofKind k rows) := by
  induction rows generalizing selection with
  | nil =>
      rw [List.map_nil, List.forall₂_nil_right_iff] at h
      rw [h]
      exact List.Forall₂.nil
  | cons row rows ih =>
      rw [Labelled, List.forall_mem_cons] at hrows
      rw [List.map_cons, List.forall₂_cons_right_iff] at h
      obtain ⟨column, tail, hcolumn, htail, rfl⟩ := h
      rw [columnsOfKind_cons, ofKind_cons, (hrows.1 column hcolumn).2]
      split_ifs
      · exact List.Forall₂.cons hcolumn (ih hrows.2 htail)
      · exact ih hrows.2 htail

theorem isSelection_ofKind {chosen selection : List α}
    (h : IsSelection admits (rows.map Prod.snd) chosen selection) :
    IsSelection admits (ofKind k rows) (columnsOfKind kind k chosen)
      (columnsOfKind kind k selection) where
  mem := forall₂_ofKind hrows k h.mem
  cross a ha b hb := h.cross a (List.mem_filter.mp ha).1 b (List.mem_filter.mp hb).1
  pairwise := h.pairwise.filter _

/-- Where all rows have a selection, the rows of a kind have one. -/
theorem explore_ofKind_isSome {chosen : List α}
    (h : (explore admits (rows.map Prod.snd) chosen).1.isSome) :
    (explore admits (ofKind k rows) (columnsOfKind kind k chosen)).1.isSome := by
  rw [explore_isSome_iff] at h ⊢
  obtain ⟨selection, hselection⟩ := h
  exact ⟨_, isSelection_ofKind hrows k hselection⟩

end Selections

section Search

variable (admits) in
/-- A row either takes a column that leads to a selection, or is left after every column that
it tried. -/
theorem exploreColumns_visits (chosen : List α) (next : α → Option (List α) × Nat)
    (columns : List α) :
    (∃ column ∈ columns, ∃ tail, (next column).1 = some tail ∧
        (exploreColumns admits chosen next columns).1 = some (column :: tail) ∧
        (next column).2 ≤ (exploreColumns admits chosen next columns).2) ∨
      (exploreColumns admits chosen next columns).1 = none ∧
        ∀ column ∈ columns, chosen.all (admits · column) = true → (next column).1 = none ∧
          (next column).2 ≤ (exploreColumns admits chosen next columns).2 := by
  induction columns with
  | nil => exact Or.inr ⟨rfl, nofun⟩
  | cons first columns ih =>
      rcases passes_or_found first with hpasses | ⟨hadmits, tail, hfound⟩
      · rw [exploreColumns_of_passes hpasses]
        rcases ih with ⟨column, hcolumn, tail, hnext, hsome, hcost⟩ | ⟨hnone, hall⟩
        · exact Or.inl ⟨column, List.mem_cons_of_mem _ hcolumn, tail, hnext, hsome,
            hcost.trans (Nat.le_add_right _ _)⟩
        · refine Or.inr ⟨hnone, ?_⟩
          rw [List.forall_mem_cons]
          constructor
          · intro hadmits
            refine ⟨hpasses hadmits, ?_⟩
            rw [passCost, if_pos hadmits]
            omega
          · intro column hcolumn hadmits
            obtain ⟨hnext, hcost⟩ := hall column hcolumn hadmits
            exact ⟨hnext, hcost.trans (Nat.le_add_right _ _)⟩
      · rw [exploreColumns_of_found hadmits hfound]
        exact Or.inl ⟨first, List.mem_cons_self, tail, hfound, rfl, Nat.le_succ _⟩

/-- The answer of `part` is what `whole` selects of a kind, with no more visits. -/
structure Follows (kind : α → Bool) (k : Bool) (part whole : Option (List α) × Nat) : Prop where
  answer : part.1 = whole.1.map (columnsOfKind kind k)
  visits : part.2 ≤ whole.2

/-- A row of the kind goes through its columns in step with the search over all rows. -/
theorem Follows.ownRow {k : Bool} {chosen chosen' columns : List α}
    {next next' : α → Option (List α) × Nat} (hkind : ∀ column ∈ columns, kind column = k)
    (hall : ∀ column ∈ columns,
      chosen'.all (admits · column) = chosen.all (admits · column))
    (hnext : ∀ column ∈ columns, Follows kind k (next' column) (next column)) :
    Follows kind k (exploreColumns admits chosen' next' columns)
      (exploreColumns admits chosen next columns) := by
  induction columns with
  | nil => exact ⟨rfl, Nat.le_refl _⟩
  | cons column columns ih =>
      rw [List.forall_mem_cons] at hkind hall hnext
      have ih := ih hkind.2 hall.2 hnext.2
      obtain ⟨hanswer, hvisits⟩ := hnext.1
      rcases passes_or_found column with hpasses | ⟨hadmits, tail, hfound⟩
      · have hpasses' : Passes admits chosen' next' column := by
          intro hadmits
          rw [hanswer, hpasses (hall.1 ▸ hadmits)]
          rfl
        rw [exploreColumns_of_passes hpasses, exploreColumns_of_passes hpasses']
        refine ⟨ih.answer, Nat.add_le_add ih.visits ?_⟩
        rw [passCost, passCost, hall.1]
        split_ifs
        · exact Nat.succ_le_succ hvisits
        · exact Nat.le_refl _
      · rw [hfound] at hanswer
        rw [exploreColumns_of_found hadmits hfound,
          exploreColumns_of_found (hall.1.trans hadmits) hanswer]
        refine ⟨?_, Nat.succ_le_succ hvisits⟩
        rw [Option.map_some, columnsOfKind_cons, if_pos hkind.1]

/-- A row of the other kind ends up with the answer that each of its columns leads to as
long as the other rows have a selection. -/
theorem Follows.otherRow {k : Bool} {chosen columns : List α}
    {next : α → Option (List α) × Nat} {part : Option (List α) × Nat}
    (hkind : ∀ column ∈ columns, kind column ≠ k)
    (hsome : ∀ column ∈ columns, (next column).1.isSome → Follows kind k part (next column))
    (hselectable : ∃ column ∈ columns, chosen.all (admits · column) = true ∧
      Follows kind k part (next column)) :
    Follows kind k part (exploreColumns admits chosen next columns) := by
  rcases exploreColumns_visits admits chosen next columns with
    ⟨column, hcolumn, tail, hnext, hanswer, hcost⟩ | ⟨hnone, hall⟩
  · have hfollows := hsome column hcolumn (hnext ▸ rfl)
    refine ⟨?_, hfollows.visits.trans hcost⟩
    rw [hfollows.answer, hnext, hanswer, Option.map_some, Option.map_some, columnsOfKind_cons,
      if_neg (hkind column hcolumn)]
  · obtain ⟨column, hcolumn, hadmits, hfollows⟩ := hselectable
    obtain ⟨hnext, hcost⟩ := hall column hcolumn hadmits
    refine ⟨?_, hfollows.visits.trans hcost⟩
    rw [hfollows.answer, hnext, hnone]

end Search

/-- The rows of a kind on their own give what they give among the others, if the others
have a selection. -/
theorem explore_ofKind (hseparate : Separate admits kind P) (k : Bool)
    {rows : List (Bool × List α)} (hrows : Labelled kind P rows) {chosen : List α}
    (hchosen : ∀ a ∈ chosen, P a)
    (hothers : (explore admits (ofKind (!k) rows) (columnsOfKind kind (!k) chosen)).1.isSome) :
    Follows kind k (explore admits (ofKind k rows) (columnsOfKind kind k chosen))
      (explore admits (rows.map Prod.snd) chosen) := by
  induction rows generalizing chosen with
  | nil => exact ⟨rfl, Nat.le_refl _⟩
  | cons row rows ih =>
      rw [Labelled, List.forall_mem_cons] at hrows
      have hnext {column : α} (hcolumn : column ∈ row.2) :
          (explore admits (ofKind (!k) rows)
              (columnsOfKind kind (!k) (chosen ++ [column]))).1.isSome →
            Follows kind k
              (explore admits (ofKind k rows) (columnsOfKind kind k (chosen ++ [column])))
              (explore admits (rows.map Prod.snd) (chosen ++ [column])) := by
        apply ih hrows.2
        intro a ha
        rcases List.mem_append.mp ha with ha | ha
        · exact hchosen a ha
        · rw [List.mem_singleton.mp ha]
          exact (hrows.1 column hcolumn).1
      rw [ofKind_cons] at hothers ⊢
      rw [List.map_cons, explore]
      by_cases hrow : row.1 = k
      · rw [if_neg (by simp [hrow])] at hothers
        rw [if_pos hrow, explore]
        have hkind : ∀ column ∈ row.2, kind column = k :=
          fun column hcolumn => (hrows.1 column hcolumn).2.trans hrow
        apply Follows.ownRow hkind
        · intro column hcolumn
          exact all_columnsOfKind hseparate hchosen (hrows.1 column hcolumn).1
            (hkind column hcolumn)
        · intro column hcolumn
          have hfollows := hnext hcolumn
          rw [columnsOfKind_concat, columnsOfKind_concat, if_pos (hkind column hcolumn),
            if_neg (by simp [hkind column hcolumn])] at hfollows
          exact hfollows hothers
      · have hother : row.1 = !k := Bool.eq_not_of_ne hrow
        rw [if_pos hother, explore] at hothers
        rw [if_neg hrow]
        have hkind : ∀ column ∈ row.2, kind column = !k :=
          fun column hcolumn => (hrows.1 column hcolumn).2.trans hother
        have hne : ∀ column ∈ row.2, kind column ≠ k := by
          intro column hcolumn
          rw [hkind column hcolumn]
          simp
        have hfollows {column : α} (hcolumn : column ∈ row.2) :
            (explore admits (ofKind (!k) rows)
                (columnsOfKind kind (!k) (chosen ++ [column]))).1.isSome →
              Follows kind k (explore admits (ofKind k rows) (columnsOfKind kind k chosen))
                (explore admits (rows.map Prod.snd) (chosen ++ [column])) := by
          intro hsome
          have hfollows := hnext hcolumn hsome
          rwa [columnsOfKind_concat, if_neg (hne column hcolumn)] at hfollows
        apply Follows.otherRow hne
        · intro column hcolumn hsome
          exact hfollows hcolumn (explore_ofKind_isSome hrows.2 (!k) hsome)
        · -- the first column with which the other rows have a selection
          obtain ⟨column, tail, -, hcolumn, hadmits, htail⟩ :=
            exploreColumns_sound admits _ _ _ _ (Option.eq_some_of_isSome hothers)
          rw [all_columnsOfKind hseparate hchosen (hrows.1 column hcolumn).1
            (hkind column hcolumn)] at hadmits
          refine ⟨column, hcolumn, hadmits, hfollows hcolumn ?_⟩
          rw [columnsOfKind_concat, if_pos (hkind column hcolumn), htail]
          rfl

end GrevirPeripherals.SeparateRows
