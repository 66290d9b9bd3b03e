import GrevirPeripherals.ModularClock
import Mathlib.Algebra.Order.BigOperators.Group.Finset
import Mathlib.Data.Set.Card
import Mathlib.Order.Interval.Finset.Nat

/-!
The cyclic poller of `time_poller.hpp`: calls at any times follow one schedule, which
the wrapping start time and the cyclic state of the poller represent.
-/

namespace GrevirPeripherals.TimePolling

open GrevirPeripherals.ModularClock

section Model

variable {σ : Type} {w : Nat}

/-- `TimePoller`; `fromTime` is its `from`. -/
structure TimePoller (σ : Type) (w : Nat) where
  state : σ
  fromTime : BitVec w

/-- `poll` at the clock reading `now`; `increment` is that of the state. -/
def TimePoller.poll (increment : σ → σ) (poller : TimePoller σ w) (period now : BitVec w) :
    Bool × TimePoller σ w :=
  let passed := now - poller.fromTime
  if passed > period then
    (true, { fromTime := poller.fromTime + period, state := increment poller.state })
  else (false, poller)

def TimePoller.setNow (poller : TimePoller σ w) (now : BitVec w) : TimePoller σ w :=
  { poller with fromTime := now }

/-- `reset`; `initial` is the value-initialised state. -/
def TimePoller.reset (initial : σ) (poller : TimePoller σ w) (now : BitVec w) :
    TimePoller σ w :=
  { poller.setNow now with state := initial }

/-- `Sequence<Tick, values...>`. -/
inductive Sequence (α : Type) where
  | last (value : α)
  | cons (value : α) (rest : Sequence α)

namespace Sequence

variable {α : Type}

def count : Sequence α → Nat
  | last _ => 1
  | cons _ rest => 1 + rest.count

def get : Sequence α → Nat → α
  | last value, _ => value
  | cons value rest, index => if index = 0 then value else rest.get (index - 1)

end Sequence

/-- The cyclic integer of Grevir Base, which counts modulo `n`. -/
structure CyclicInt (n : Nat) where
  State : Type
  initial : State
  increment : State → State
  get : State → Nat
  get_initial : get initial = 0
  get_increment : ∀ value, get (increment value) = (get value + 1) % n

structure CyclicTimeSequencePoller {seq : Sequence (BitVec w)} (cyclic : CyclicInt seq.count) where
  poller : TimePoller cyclic.State w

namespace CyclicTimeSequencePoller

variable {seq : Sequence (BitVec w)} {cyclic : CyclicInt seq.count}

/-- A new poller at the clock reading `now`, or one that is reset. -/
def initial (cyclic : CyclicInt seq.count) (now : BitVec w) : CyclicTimeSequencePoller cyclic where
  poller := { state := cyclic.initial, fromTime := now }

def state (poller : CyclicTimeSequencePoller cyclic) : Nat :=
  cyclic.get poller.poller.state

/-- The period that a call compares with. -/
def period (poller : CyclicTimeSequencePoller cyclic) : BitVec w :=
  seq.get poller.state

def poll (poller : CyclicTimeSequencePoller cyclic) (now : BitVec w) :
    Bool × CyclicTimeSequencePoller cyclic :=
  let result := poller.poller.poll cyclic.increment poller.period now
  (result.1, ⟨result.2⟩)

def init (poller : CyclicTimeSequencePoller cyclic) (now : BitVec w) :
    CyclicTimeSequencePoller cyclic where
  poller := poller.poller.setNow now

def reset (poller : CyclicTimeSequencePoller cyclic) (now : BitVec w) :
    CyclicTimeSequencePoller cyclic where
  poller := poller.poller.reset cyclic.initial now

/-- A call either expires, and moves the poller on by one period, or does nothing. -/
theorem poll_eq (poller : CyclicTimeSequencePoller cyclic) (now : BitVec w) :
    poller.poll now =
      if now - poller.poller.fromTime > poller.period then
        (true, ⟨cyclic.increment poller.poller.state, poller.poller.fromTime + poller.period⟩)
      else (false, poller) := by
  rw [poll, TimePoller.poll]
  split_ifs <;> rfl

end CyclicTimeSequencePoller

end Model

section Run

variable {w : Nat} {seq : Sequence (BitVec w)}

/-- A poller with what its calls added up to: how many returned `true`, and the start
time plus the periods of these. -/
structure Observed (cyclic : CyclicInt seq.count) where
  poller : CyclicTimeSequencePoller cyclic
  expirations : Nat
  schedule : Nat

namespace Observed

variable {cyclic : CyclicInt seq.count}

def initial (cyclic : CyclicInt seq.count) (start : Nat) : Observed cyclic where
  poller := .initial cyclic (BitVec.ofNat w start)
  expirations := 0
  schedule := start

/-- The result of a call at the time `now`. -/
def expires (o : Observed cyclic) (now : Nat) : Bool :=
  (o.poller.poll (BitVec.ofNat w now)).1

def poll (o : Observed cyclic) (now : Nat) : Observed cyclic where
  poller := (o.poller.poll (BitVec.ofNat w now)).2
  expirations := if o.expires now then o.expirations + 1 else o.expirations
  schedule := if o.expires now then o.schedule + o.poller.period.toNat else o.schedule

end Observed

/-- What calls at non-decreasing times from `start` lead to, each less than `2 ^ w`
ticks behind the schedule; `now` is the time of the last one. -/
inductive Reaches (cyclic : CyclicInt seq.count) (start : Nat) : Nat → Observed cyclic → Prop
  | start : Reaches cyclic start start (.initial cyclic start)
  | poll {now : Nat} {o : Observed cyclic} (h : Reaches cyclic start now o) (t : Nat)
      (hle : now ≤ t) (hlt : t < o.schedule + 2 ^ w) : Reaches cyclic start t (o.poll t)

/-- The sum of the first `k` periods, taken cyclically. -/
def periodSum (seq : Sequence (BitVec w)) (k : Nat) : Nat :=
  ∑ j ∈ Finset.range k, (seq.get (j % seq.count)).toNat

theorem periodSum_succ (seq : Sequence (BitVec w)) (k : Nat) :
    periodSum seq (k + 1) = periodSum seq k + (seq.get (k % seq.count)).toNat :=
  Finset.sum_range_succ _ _

theorem periodSum_mono (seq : Sequence (BitVec w)) : Monotone (periodSum seq) := by
  apply monotone_nat_of_le_succ
  intro k
  rw [periodSum_succ]
  exact Nat.le_add_right _ _

variable {cyclic : CyclicInt seq.count} {start now : Nat} {o : Observed cyclic}

/-- The poller represents the schedule, which never runs ahead of the time. -/
structure Tracks (start now : Nat) (o : Observed cyclic) : Prop where
  fromTime : o.poller.poller.fromTime = BitVec.ofNat w o.schedule
  state : o.poller.state = o.expirations % seq.count
  schedule : o.schedule = start + periodSum seq o.expirations
  le : o.schedule ≤ now
  lt : o.expirations = 0 ∨ o.schedule < now

theorem tracks_initial : Tracks start start (.initial cyclic start) where
  fromTime := rfl
  state := cyclic.get_initial.trans (Nat.zero_mod _).symm
  schedule := rfl
  le := le_rfl
  lt := Or.inl rfl

namespace Tracks

theorem mono {t : Nat} (h : Tracks start now o) (hle : now ≤ t) : Tracks start t o where
  fromTime := h.fromTime
  state := h.state
  schedule := h.schedule
  le := h.le.trans hle
  lt := h.lt.imp_right fun hlt => hlt.trans_le hle

theorem period (h : Tracks start now o) :
    o.poller.period = seq.get (o.expirations % seq.count) := by
  rw [CyclicTimeSequencePoller.period, h.state]

variable (h : Tracks start now o) (hlt : now < o.schedule + 2 ^ w)

include h hlt

theorem elapsed_iff :
    BitVec.ofNat w now - o.poller.poller.fromTime > o.poller.period ↔
      o.schedule + o.poller.period.toNat < now := by
  rw [h.fromTime]
  exact lt_elapsed_iff h.le hlt o.poller.period

theorem expires_iff : o.expires now = true ↔ o.schedule + o.poller.period.toNat < now := by
  rw [← h.elapsed_iff hlt, Observed.expires, CyclicTimeSequencePoller.poll_eq]
  split_ifs with hexpired
  · exact iff_of_true rfl hexpired
  · exact iff_of_false (by simp) hexpired

theorem poll_of_due (hdue : o.schedule + o.poller.period.toNat < now) :
    o.poll now =
      { poller := ⟨cyclic.increment o.poller.poller.state,
          o.poller.poller.fromTime + o.poller.period⟩
        expirations := o.expirations + 1
        schedule := o.schedule + o.poller.period.toNat } := by
  rw [Observed.poll, (h.expires_iff hlt).mpr hdue, CyclicTimeSequencePoller.poll_eq,
    if_pos ((h.elapsed_iff hlt).mpr hdue), if_pos rfl, if_pos rfl]

theorem poll_of_not_due (hdue : ¬o.schedule + o.poller.period.toNat < now) :
    o.poll now = o := by
  have hexpires : o.expires now = false := by
    rw [← Bool.not_eq_true, h.expires_iff hlt]
    exact hdue
  rw [Observed.poll, hexpires, CyclicTimeSequencePoller.poll_eq,
    if_neg fun hexpired => hdue ((h.elapsed_iff hlt).mp hexpired)]
  rfl

theorem poll : Tracks start now (o.poll now) := by
  by_cases hdue : o.schedule + o.poller.period.toNat < now
  · rw [h.poll_of_due hlt hdue]
    constructor
    case fromTime =>
      change o.poller.poller.fromTime + o.poller.period = _
      rw [h.fromTime, BitVec.ofNat_add, BitVec.ofNat_toNat, BitVec.setWidth_eq]
    case state =>
      change cyclic.get (cyclic.increment o.poller.poller.state) = _
      rw [cyclic.get_increment, ← CyclicTimeSequencePoller.state, h.state, Nat.mod_add_mod]
    case schedule => rw [periodSum_succ, ← h.period, h.schedule, Nat.add_assoc]
    case le => exact hdue.le
    case lt => exact Or.inr hdue
  · rw [h.poll_of_not_due hlt hdue]
    exact h

end Tracks

theorem Reaches.tracks (h : Reaches cyclic start now o) : Tracks start now o := by
  induction h with
  | start => exact tracks_initial
  | poll _ t hle hlt ih => exact (ih.mono hle).poll hlt

/-- A call at the time `now` sees the exact schedule; if it does not expire, the calls
before it have used up every expiration that is due. -/
structure OnSchedule (start now : Nat) (o : Observed cyclic) : Prop where
  expires_iff : o.expires now = true ↔ o.schedule + o.poller.period.toNat < now
  period : o.poller.period = seq.get (o.expirations % seq.count)
  le : o.schedule ≤ now
  fromTime : o.poller.poller.fromTime = BitVec.ofNat w o.schedule
  state : o.poller.state = o.expirations % seq.count
  expirations : o.expires now = false →
    {k | 1 ≤ k ∧ start + periodSum seq k < now}.encard = o.expirations

/-- The expirations that are due are the first ones. -/
theorem Tracks.due_eq (h : Tracks start now o) (hlt : now < o.schedule + 2 ^ w)
    (hexpires : o.expires now = false) :
    {k | 1 ≤ k ∧ start + periodSum seq k < now} = Set.Icc 1 o.expirations := by
  have hdue : ¬o.schedule + o.poller.period.toNat < now := by
    rw [← h.expires_iff hlt, hexpires]
    exact Bool.false_ne_true
  have hnext : now ≤ start + periodSum seq (o.expirations + 1) := by
    rw [periodSum_succ, ← h.period, ← Nat.add_assoc, ← h.schedule]
    exact Nat.le_of_not_lt hdue
  ext k
  rw [Set.mem_ofPred_eq, Set.mem_Icc]
  refine and_congr_right fun hk => ?_
  constructor
  · intro hlt
    by_contra hgt
    have hle := periodSum_mono seq (Nat.succ_le_of_lt (Nat.lt_of_not_le hgt))
    rw [Nat.succ_eq_add_one] at hle
    omega
  · intro hle
    have hsum := periodSum_mono seq hle
    have hschedule := h.schedule
    rcases h.lt with hzero | hlt
    · omega
    · omega

theorem Tracks.onSchedule (h : Tracks start now o) (hlt : now < o.schedule + 2 ^ w) :
    OnSchedule start now o where
  expires_iff := h.expires_iff hlt
  period := h.period
  le := h.le
  fromTime := h.fromTime
  state := h.state
  expirations hexpires := by
    rw [h.due_eq hlt hexpires, ← Finset.coe_Icc, Set.encard_coe_eq_coe_finsetCard, Nat.card_Icc,
      Nat.add_sub_cancel]

/-- Whatever the pattern of calls, a poller is on schedule at its next call, and two
patterns whose next call at one time does not expire have expired equally often. -/
theorem polling_on_schedule (h : Reaches cyclic start now o) {t : Nat} (hle : now ≤ t)
    (hlt : t < o.schedule + 2 ^ w) :
    OnSchedule start t o ∧
      ∀ now' o', Reaches cyclic start now' o' → now' ≤ t → t < o'.schedule + 2 ^ w →
        o.expires t = false → o'.expires t = false →
          o.expirations = o'.expirations ∧ o.poller.state = o'.poller.state := by
  have hschedule := (h.tracks.mono hle).onSchedule hlt
  refine ⟨hschedule, ?_⟩
  intro now' o' h' hle' hlt' hexpires hexpires'
  have hschedule' := (h'.tracks.mono hle').onSchedule hlt'
  have hcount : o.expirations = o'.expirations := by
    have heq := (hschedule.expirations hexpires).symm.trans (hschedule'.expirations hexpires')
    exact_mod_cast heq
  refine ⟨hcount, ?_⟩
  rw [hschedule.state, hschedule'.state, hcount]

/-- A cyclic integer whose state is its value. -/
def natCyclic (n : Nat) : CyclicInt n where
  State := Nat
  initial := 0
  increment value := (value + 1) % n
  get value := value
  get_initial := rfl
  get_increment _ := rfl

def twoPeriods : Sequence (BitVec 8) :=
  .cons 10 (.last 20)

/-- A start shortly before the clock wraps around, and a call after the first period. -/
def wrappedPoller : Observed (natCyclic twoPeriods.count) :=
  (Observed.initial _ 250).poll 261

theorem wrapped_on_schedule : OnSchedule 250 265 wrappedPoller :=
  (polling_on_schedule (.poll .start 261 (by decide) (by decide)) (by decide) (by decide)).1

example : wrappedPoller.poller.poller.fromTime = 4 ∧ wrappedPoller.poller.state = 1 := by
  decide

end Run

end GrevirPeripherals.TimePolling
