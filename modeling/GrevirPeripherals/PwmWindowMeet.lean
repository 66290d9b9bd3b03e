import GrevirPeripherals.PwmFrequencyWindow
import Mathlib.Order.Bounds.Basic

/-!
Intersection of frequency windows: on bounds in lowest terms it is the meet of a
semilattice, so the result of a fold depends only on which windows occur in it.
-/

namespace GrevirPeripherals.PwmWindowMeet

open GrevirPeripherals.PwmFrequencyWindow
open GrevirPeripherals.PwmFrequencyWindow.FrequencyWindow
open GrevirPeripherals.PwmNumeric

section Pair

variable {a b : FrequencyWindow}

section Specified

variable (ha : a.specified = true) (hb : b.specified = true)

include ha hb

theorem intersect_specified : (a.intersect b).specified = true := by
  simp [intersect, ha, hb]

theorem intersect_lower :
    (a.intersect b).lower = if a.lower.atMost b.lower then b.lower else a.lower := by
  simp [intersect, ha, hb]

theorem intersect_upper :
    (a.intersect b).upper = if a.upper.atMost b.upper then a.upper else b.upper := by
  simp [intersect, ha, hb]

/-- A property of the bounds of both windows is one of the bounds of the intersection. -/
theorem intersect_bounds {P Q : FrequencyBound → Prop} (hlower : P a.lower) (hlower' : P b.lower)
    (hupper : Q a.upper) (hupper' : Q b.upper) :
    P (a.intersect b).lower ∧ Q (a.intersect b).upper := by
  rw [intersect_lower ha hb, intersect_upper ha hb]
  constructor
  · split_ifs
    · exact hlower'
    · exact hlower
  · split_ifs
    · exact hupper
    · exact hupper'

end Specified

variable (ha : a.valid = true) (hb : b.valid = true)

include ha hb

theorem intersect_values :
    (a.intersect b).lower.value = max a.lower.value b.lower.value ∧
      (a.intersect b).upper.value = min a.upper.value b.upper.value := by
  obtain ⟨hspecified, hlower, hupper, -⟩ := (valid_iff a).mp ha
  obtain ⟨hspecified', hlower', hupper', -⟩ := (valid_iff b).mp hb
  have hle := FrequencyBound.atMost_iff_value_le
    (FrequencyBound.denominator_pos_of_valid hlower)
    (FrequencyBound.denominator_pos_of_valid hlower')
  have hle' := FrequencyBound.atMost_iff_value_le
    (FrequencyBound.denominator_pos_of_valid hupper)
    (FrequencyBound.denominator_pos_of_valid hupper')
  rw [intersect_lower hspecified hspecified', intersect_upper hspecified hspecified']
  constructor
  · split_ifs with h
    · exact (max_eq_right (hle.mp h)).symm
    · exact (max_eq_left (le_of_not_ge fun hge => h (hle.mpr hge))).symm
  · split_ifs with h
    · exact (min_eq_left (hle'.mp h)).symm
    · exact (min_eq_right (le_of_not_ge fun hge => h (hle'.mpr hge))).symm

theorem valid_intersect : (a.intersect b).valid = true := by
  obtain ⟨hspecified, hlower, hupper, hpos⟩ := (valid_iff a).mp ha
  obtain ⟨hspecified', hlower', hupper', hpos'⟩ := (valid_iff b).mp hb
  have hbounds := intersect_bounds hspecified hspecified' (P := fun x => x.valid = true)
    (Q := fun x => x.valid = true ∧ 0 < x.numerator.toNat) hlower hlower' ⟨hupper, hpos⟩
    ⟨hupper', hpos'⟩
  rw [valid_iff]
  exact ⟨intersect_specified hspecified hspecified', hbounds⟩

theorem admits_intersect_iff (actual : Ratio) :
    (a.intersect b).Admits actual ↔ a.Admits actual ∧ b.Admits actual := by
  obtain ⟨hlower, hupper⟩ := intersect_values ha hb
  rw [Admits, hlower, hupper, max_le_iff, le_min_iff]
  exact and_and_and_comm

theorem contains_intersect_iff {actual : Ratio} (hactual : actual.positive = true) :
    (a.intersect b).contains actual = true ↔
      a.contains actual = true ∧ b.contains actual = true := by
  rw [contains_iff_admits (valid_intersect ha hb) hactual, contains_iff_admits ha hactual,
    contains_iff_admits hb hactual, admits_intersect_iff ha hb]

end Pair

section Normal

variable {a b : FrequencyWindow}

theorem Normal.intersect (ha : a.Normal) (hb : b.Normal) : (a.intersect b).Normal := by
  obtain ⟨hspecified, -⟩ := (valid_iff a).mp ha.valid
  obtain ⟨hspecified', -⟩ := (valid_iff b).mp hb.valid
  have hbounds := intersect_bounds hspecified hspecified' (P := fun x => x.normalized = x)
    (Q := fun x => x.normalized = x) ha.lower hb.lower ha.upper hb.upper
  exact ⟨valid_intersect ha.valid hb.valid, hbounds.1, hbounds.2⟩

/-- In lowest terms the values of the bounds determine a window. -/
theorem Normal.eq_of_values (ha : a.Normal) (hb : b.Normal)
    (hlower : a.lower.value = b.lower.value) (hupper : a.upper.value = b.upper.value) :
    a = b := by
  obtain ⟨hspecified, hvalid, hvalid', -⟩ := (valid_iff a).mp ha.valid
  obtain ⟨hspecified', hvalidb, hvalidb', -⟩ := (valid_iff b).mp hb.valid
  have hlowerEq : a.lower = b.lower := by
    rw [← ha.lower, ← hb.lower]
    exact (FrequencyBound.normalized_eq_iff (FrequencyBound.denominator_pos_of_valid hvalid)
      (FrequencyBound.denominator_pos_of_valid hvalidb)).mpr hlower
  have hupperEq : a.upper = b.upper := by
    rw [← ha.upper, ← hb.upper]
    exact (FrequencyBound.normalized_eq_iff (FrequencyBound.denominator_pos_of_valid hvalid')
      (FrequencyBound.denominator_pos_of_valid hvalidb')).mpr hupper
  obtain ⟨lower, upper, specified⟩ := a
  obtain ⟨lower', upper', specified'⟩ := b
  simp only at hlowerEq hupperEq hspecified hspecified'
  rw [hlowerEq, hupperEq, hspecified, hspecified']

end Normal

section Meet

/-- The window bounded below by the greatest lower bound of the windows and above by
their least upper one, in lowest terms. -/
structure IsMeet (windows : List FrequencyWindow) (w : FrequencyWindow) : Prop where
  normal : w.Normal
  lower : IsGreatest {value | ∃ x ∈ windows, x.lower.value = value} w.lower.value
  upper : IsLeast {value | ∃ x ∈ windows, x.upper.value = value} w.upper.value

variable {windows windows' : List FrequencyWindow} {w w' : FrequencyWindow}

theorem isMeet_singleton (h : w.Normal) : IsMeet [w] w := by
  refine ⟨h, ?_, ?_⟩ <;> simp [IsGreatest, IsLeast, upperBounds, lowerBounds]

/-- Which windows there are is all that matters, not their order or number. -/
theorem IsMeet.unique (h : IsMeet windows w) (h' : IsMeet windows' w')
    (hmem : ∀ x, x ∈ windows ↔ x ∈ windows') : w = w' := by
  have hlower := h.lower
  have hupper := h.upper
  simp only [hmem] at hlower hupper
  exact Normal.eq_of_values h.normal h'.normal (hlower.unique h'.lower)
    (hupper.unique h'.upper)

theorem IsMeet.intersect (h : IsMeet windows w) (h' : IsMeet windows' w') :
    IsMeet (windows ++ windows') (w.intersect w') := by
  obtain ⟨hlower, hupper⟩ := intersect_values h.normal.valid h'.normal.valid
  have hunion (bound : FrequencyWindow → ℚ) :
      {value | ∃ x ∈ windows ++ windows', bound x = value} =
        {value | ∃ x ∈ windows, bound x = value} ∪
          {value | ∃ x ∈ windows', bound x = value} := by
    ext value
    simp only [List.mem_append, or_and_right, exists_or, Set.mem_ofPred_eq, Set.mem_union]
  refine ⟨Normal.intersect h.normal h'.normal, ?_, ?_⟩
  · rw [hunion, hlower]
    exact h.lower.union h'.lower
  · rw [hunion, hupper]
    exact h.upper.union h'.upper

/-- The meet admits what every window admits. -/
theorem IsMeet.admits_iff (h : IsMeet windows w) (actual : Ratio) :
    w.Admits actual ↔ ∀ x ∈ windows, x.Admits actual := by
  have hlower := isLUB_le_iff h.lower.isLUB (b := 1000000 * actual.value)
  have hupper := le_isGLB_iff h.upper.isGLB (b := 1000000 * actual.value)
  rw [Admits, hlower, hupper]
  constructor
  · rintro ⟨hle, hge⟩ x hx
    exact ⟨hle ⟨x, hx, rfl⟩, hge ⟨x, hx, rfl⟩⟩
  · intro hall
    constructor
    · rintro value ⟨x, hx, rfl⟩
      exact (hall x hx).1
    · rintro value ⟨x, hx, rfl⟩
      exact (hall x hx).2

theorem IsMeet.contains_iff (h : IsMeet windows w) (hvalid : ∀ x ∈ windows, x.valid = true)
    {actual : Ratio} (hactual : actual.positive = true) :
    w.contains actual = true ↔ ∀ x ∈ windows, x.contains actual = true := by
  rw [contains_iff_admits h.normal.valid hactual, h.admits_iff]
  exact forall₂_congr fun x hx => (contains_iff_admits (hvalid x hx) hactual).symm

/-- An empty meet stays empty with every further window. -/
theorem IsMeet.empty_of_subset (h : IsMeet windows w) (h' : IsMeet windows' w')
    (hsub : windows ⊆ windows') (hempty : w.empty = true) : w'.empty = true := by
  rw [empty_iff h.normal.valid] at hempty
  rw [empty_iff h'.normal.valid]
  obtain ⟨x, hx, hlower⟩ := h.lower.1
  obtain ⟨y, hy, hupper⟩ := h.upper.1
  have hle := h'.lower.2 ⟨x, hsub hx, hlower⟩
  have hge := h'.upper.2 ⟨y, hsub hy, hupper⟩
  exact hge.trans_lt (hempty.trans_le hle)

/-- The accumulation of windows, from the unspecified one. -/
def meetAll (windows : List FrequencyWindow) : FrequencyWindow :=
  windows.foldl FrequencyWindow.intersect {}

theorem IsMeet.foldl (h : IsMeet windows w) (hnormal : ∀ x ∈ windows', x.Normal) :
    IsMeet (windows ++ windows') (windows'.foldl FrequencyWindow.intersect w) := by
  induction windows' generalizing windows w with
  | nil => simpa using h
  | cons x rest ih =>
      rw [List.forall_mem_cons] at hnormal
      have hnext := ih (h.intersect (isMeet_singleton hnormal.1)) hnormal.2
      rwa [List.append_assoc] at hnext

theorem isMeet_meetAll (hne : windows ≠ []) (hnormal : ∀ x ∈ windows, x.Normal) :
    IsMeet windows (meetAll windows) := by
  cases windows with
  | nil => contradiction
  | cons x rest =>
      rw [List.forall_mem_cons] at hnormal
      exact (isMeet_singleton hnormal.1).foldl hnormal.2

end Meet

section Clauses

/-- A requested frequency with its tolerance in parts per million. -/
structure Clause where
  rate : Ratio
  ppm : UInt32

/-- The clause is within the limits of `around`. -/
def Clause.Legal (clause : Clause) : Prop :=
  clause.rate.valid = true ∧ clause.ppm.toNat ≤ 1000000

def Clause.window (clause : Clause) : FrequencyWindow :=
  around clause.rate clause.ppm

/-- The frequency lies between the exact rational bounds of the clause. -/
def Clause.Admits (clause : Clause) (actual : Ratio) : Prop :=
  clause.rate.value * (1 - clause.ppm.toNat / 1000000) ≤ actual.value ∧
    actual.value ≤ clause.rate.value * (1 + clause.ppm.toNat / 1000000)

/-- The clause allows the frequency, which need not be a ratio of the allocator. -/
def Clause.Covers (clause : Clause) (frequency : ℚ) : Prop :=
  clause.rate.value * (1 - clause.ppm.toNat / 1000000) ≤ frequency ∧
    frequency ≤ clause.rate.value * (1 + clause.ppm.toNat / 1000000)

/-- The loop over the clauses, from the unspecified window. -/
def accumulate (clauses : List Clause) : FrequencyWindow :=
  meetAll (clauses.map Clause.window)

/-- Some order of intersecting the windows of clauses, with its parentheses. -/
inductive Grouping where
  | single (clause : Clause)
  | both (left right : Grouping)

def Grouping.clauses : Grouping → List Clause
  | .single clause => [clause]
  | .both left right => left.clauses ++ right.clauses

def Grouping.window : Grouping → FrequencyWindow
  | .single clause => clause.window
  | .both left right => left.window.intersect right.window

theorem Clause.Legal.normal {clause : Clause} (h : clause.Legal) : clause.window.Normal :=
  normal_around h.1 h.2

theorem Clause.Legal.covers_iff {clause : Clause} (h : clause.Legal) {frequency : ℚ} :
    clause.Covers frequency ↔
      clause.window.lower.value ≤ 1000000 * frequency ∧
        1000000 * frequency ≤ clause.window.upper.value := by
  obtain ⟨hlower, hupper⟩ := around_values h.1 h.2
  rw [Clause.window, hlower, hupper, Clause.Covers]
  constructor
  · rintro ⟨hle, hge⟩
    constructor <;> linarith
  · rintro ⟨hle, hge⟩
    constructor <;> linarith

theorem Clause.Legal.contains_iff {clause : Clause} (h : clause.Legal) {actual : Ratio}
    (hactual : actual.positive = true) :
    clause.window.contains actual = true ↔ clause.Admits actual :=
  (contains_iff_admits h.normal.valid hactual).trans h.covers_iff.symm

variable {clauses : List Clause}

theorem normal_windows (hlegal : ∀ c ∈ clauses, c.Legal) :
    ∀ w ∈ clauses.map Clause.window, w.Normal := by
  intro w hw
  obtain ⟨c, hc, rfl⟩ := List.mem_map.mp hw
  exact (hlegal c hc).normal

theorem isMeet_accumulate (hne : clauses ≠ []) (hlegal : ∀ c ∈ clauses, c.Legal) :
    IsMeet (clauses.map Clause.window) (accumulate clauses) :=
  isMeet_meetAll (by simpa using hne) (normal_windows hlegal)

theorem Grouping.isMeet_window (grouping : Grouping)
    (hlegal : ∀ c ∈ grouping.clauses, c.Legal) :
    IsMeet (grouping.clauses.map Clause.window) grouping.window := by
  induction grouping with
  | single c => exact isMeet_singleton (hlegal c (by simp [clauses])).normal
  | both left right ihLeft ihRight =>
      simp only [clauses, List.mem_append, or_imp, forall_and] at hlegal
      rw [clauses, List.map_append]
      exact (ihLeft hlegal.1).intersect (ihRight hlegal.2)

theorem valid_accumulate_iff (hlegal : ∀ c ∈ clauses, c.Legal) :
    (accumulate clauses).valid = true ↔ clauses ≠ [] := by
  constructor
  · rintro hvalid rfl
    revert hvalid
    decide
  · intro hne
    exact (isMeet_accumulate hne hlegal).normal.valid

/-- The window is empty where no frequency is allowed by every clause. -/
theorem empty_accumulate_iff (hlegal : ∀ c ∈ clauses, c.Legal) :
    (accumulate clauses).empty = true ↔ ¬∃ frequency, ∀ c ∈ clauses, c.Covers frequency := by
  rcases eq_or_ne clauses [] with rfl | hne
  · exact iff_of_false (by decide) (by simp)
  · have hmeet := isMeet_accumulate hne hlegal
    rw [empty_iff hmeet.normal.valid, ← not_le, not_iff_not]
    constructor
    · intro hle
      refine ⟨(accumulate clauses).lower.value / 1000000, fun c hc => ?_⟩
      have hlower := hmeet.lower.2 ⟨c.window, List.mem_map_of_mem hc, rfl⟩
      have hupper := hmeet.upper.2 ⟨c.window, List.mem_map_of_mem hc, rfl⟩
      rw [(hlegal c hc).covers_iff, mul_div_cancel₀ _ (by norm_num)]
      exact ⟨hlower, hle.trans hupper⟩
    · rintro ⟨frequency, hcovers⟩
      obtain ⟨w, hw, hlower⟩ := hmeet.lower.1
      obtain ⟨w', hw', hupper⟩ := hmeet.upper.1
      obtain ⟨c, hc, rfl⟩ := List.mem_map.mp hw
      obtain ⟨c', hc', rfl⟩ := List.mem_map.mp hw'
      rw [← hlower, ← hupper]
      exact ((hlegal c hc).covers_iff.mp (hcovers c hc)).1.trans
        ((hlegal c' hc').covers_iff.mp (hcovers c' hc')).2

/-- Every way of intersecting the windows of at least one clause leads to the same
window, whose bounds are in lowest terms and which contains exactly the frequencies that
all clauses admit. -/
structure CanonicalMeet (clauses : List Clause) : Prop where
  normal : (accumulate clauses).Normal
  order : ∀ clauses', (∀ c, c ∈ clauses' ↔ c ∈ clauses) →
    accumulate clauses' = accumulate clauses
  grouping : ∀ grouping : Grouping, (∀ c, c ∈ grouping.clauses ↔ c ∈ clauses) →
    grouping.window = accumulate clauses
  contains : ∀ actual : Ratio, actual.positive = true →
    ((accumulate clauses).contains actual = true ↔ ∀ c ∈ clauses, c.Admits actual)

theorem canonicalMeet (hne : clauses ≠ []) (hlegal : ∀ c ∈ clauses, c.Legal) :
    CanonicalMeet clauses := by
  have hmeet := isMeet_accumulate hne hlegal
  have hwindows : ∀ clauses' : List Clause, (∀ c, c ∈ clauses' ↔ c ∈ clauses) →
      ∀ w, w ∈ clauses'.map Clause.window ↔ w ∈ clauses.map Clause.window := by
    intro clauses' hmem w
    simp only [List.mem_map, hmem]
  constructor
  · exact hmeet.normal
  · intro clauses' hmem
    have hne' : clauses' ≠ [] := by
      obtain ⟨c, hc⟩ := List.exists_mem_of_ne_nil _ hne
      exact List.ne_nil_of_mem ((hmem c).mpr hc)
    have hmeet' := isMeet_accumulate hne' fun c hc => hlegal c ((hmem c).mp hc)
    exact hmeet'.unique hmeet (hwindows clauses' hmem)
  · intro grouping hmem
    have hmeet' := grouping.isMeet_window fun c hc => hlegal c ((hmem c).mp hc)
    exact hmeet'.unique hmeet (hwindows grouping.clauses hmem)
  · intro actual hactual
    rw [hmeet.contains_iff (fun w hw => (normal_windows hlegal w hw).valid) hactual]
    simp only [List.forall_mem_map]
    exact forall₂_congr fun c hc => (hlegal c hc).contains_iff hactual

/-- Without a clause the window stays unspecified, and contains nothing. -/
theorem accumulate_nil :
    ((∀ c ∈ ([] : List Clause), c.Legal) ∧ (accumulate []).valid = false) ∧
      (∀ c ∈ ([] : List Clause), c.Admits ⟨1, 1⟩) ∧
        (accumulate []).contains ⟨1, 1⟩ = false :=
  ⟨⟨by simp, by decide⟩, by simp, by decide⟩

/-- Intersection of well-formed windows is intersection of what they contain; the
windows that clauses lead to are canonical; and an empty one never fills again. -/
theorem intersect_semilattice :
    (∀ a b : FrequencyWindow, a.valid = true → b.valid = true →
      (a.intersect b).valid = true ∧
        ∀ actual : Ratio, actual.positive = true →
          ((a.intersect b).contains actual = true ↔
            a.contains actual = true ∧ b.contains actual = true)) ∧
      (∀ clauses : List Clause, clauses ≠ [] → (∀ c ∈ clauses, c.Legal) →
        CanonicalMeet clauses) ∧
      ∀ clauses extension : List Clause, (∀ c ∈ clauses ++ extension, c.Legal) →
        (accumulate clauses).empty = true → (accumulate (clauses ++ extension)).empty = true := by
  refine ⟨?_, fun clauses hne hlegal => canonicalMeet hne hlegal, ?_⟩
  · intro a b ha hb
    exact ⟨valid_intersect ha hb, fun actual hactual => contains_intersect_iff ha hb hactual⟩
  · intro clauses extension hlegal hempty
    have hne : clauses ≠ [] := by
      rintro rfl
      revert hempty
      decide
    have hmeet := isMeet_accumulate hne fun c hc => hlegal c (List.mem_append_left _ hc)
    have hmeet' := isMeet_accumulate (List.append_ne_nil_of_left_ne_nil hne extension) hlegal
    refine hmeet.empty_of_subset hmeet' ?_ hempty
    rw [List.map_append]
    exact List.subset_append_left _ _

end Clauses

end GrevirPeripherals.PwmWindowMeet
