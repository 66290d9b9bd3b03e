import GrevirPeripherals.CallRuns
import Mathlib.Data.List.Basic
import Mathlib.Logic.Function.Basic

/-!
The pins of `gpio/input.hpp` and `gpio/output.hpp` over a GPIO backend. Every pin turns
its calls into backend operations, and pins with numbers of their own do not meet. The
emulation of an open-drain pin rests on what an input mode leaves in the output latch.
-/

namespace GrevirPeripherals.GpioPins

open GrevirPeripherals.CallRuns

section Backend

inductive InputPinMode where
  | pullUp
  | untied
deriving DecidableEq

inductive OutputPinMode where
  | output
  | openDrainLowOutput
  | openDrainHighOutput
deriving DecidableEq

/-- What a wrapper may ask of a backend. -/
inductive Operation where
  | pinModeInput (pin : Nat) (mode : InputPinMode)
  | pinModeOutput (pin : Nat) (mode : OutputPinMode)
  | digitalRead (pin : Nat)
  | digitalWrite (pin : Nat) (level : Bool)
deriving DecidableEq

def Operation.pin : Operation → Nat
  | .pinModeInput pin _ => pin
  | .pinModeOutput pin _ => pin
  | .digitalRead pin => pin
  | .digitalWrite pin _ => pin

/-- A backend need not know the open-drain modes, which the wrappers emulate. -/
def Operation.Supported : Operation → Prop
  | .pinModeOutput _ mode => mode = .output
  | _ => True

/-- The output latch of a pin, and whether the pin drives it. -/
structure Line where
  latch : Bool
  driven : Bool
deriving DecidableEq

/-- The level to which the pin drives its line, if it drives it. -/
def Line.drive (line : Line) : Option Bool :=
  if line.driven then some line.latch else none

/-- The effect of an operation on the pin that it names, where an input mode turns the
latch into `released mode latch`. -/
def Operation.onLine (released : InputPinMode → Bool → Bool) (line : Line) : Operation → Line
  | .pinModeInput _ mode => { latch := released mode line.latch, driven := false }
  | .pinModeOutput _ _ => { line with driven := true }
  | .digitalRead _ => line
  | .digitalWrite _ level => { line with latch := level }

/-- A backend with any state of its own. An input mode may keep the output latch, clear it
or set it, as `released` says; it only ends the driving. -/
structure Backend (σ : Type) where
  perform : σ → Operation → List Bool × σ
  line : σ → Nat → Line
  released : InputPinMode → Bool → Bool
  line_self : ∀ s op, op.Supported →
    line (perform s op).2 op.pin = op.onLine released (line s op.pin)
  line_of_ne : ∀ s op pin, pin ≠ op.pin → line (perform s op).2 pin = line s pin

end Backend

section Pins

/-- A pin type, by its template arguments less the backend. -/
inductive Pin where
  | input (number : Nat) (mode : InputPinMode)
  | output (number : Nat) (mode : OutputPinMode)
  | external (number : Nat)
deriving DecidableEq

def Pin.number : Pin → Nat
  | .input number _ => number
  | .output number _ => number
  | .external number => number

/-- The calls that a pin type has; only open-drain outputs can be read. -/
inductive Call : Pin → Type where
  | runSetup {pin : Pin} : Call pin
  | runLoop {pin : Pin} : Call pin
  | get {number : Nat} {mode : InputPinMode} : Call (.input number mode)
  | set {number : Nat} {mode : OutputPinMode} (level : Bool) : Call (.output number mode)
  | getOpenDrain {number : Nat} {mode : OutputPinMode} (h : mode ≠ .output) :
      Call (.output number mode)

/-- The setup of an open-drain pin, which preloads the level that it may drive. -/
def setupOpenDrain (number : Nat) (active : Bool) : List Operation :=
  [.pinModeInput number .untied, .digitalWrite number active]

/-- Switching between input and output mode emulates an open collector output. -/
def setOpenDrain (number : Nat) (active level : Bool) : List Operation :=
  if level = active then [.pinModeOutput number .output] else [.pinModeInput number .untied]

/-- `runSetup` of the three kinds of outputs. -/
def setupOutput (number : Nat) : OutputPinMode → List Operation
  | .output => [.pinModeOutput number .output]
  | .openDrainLowOutput => setupOpenDrain number false
  | .openDrainHighOutput => setupOpenDrain number true

/-- `set` of the three kinds of outputs, which `setPin` forwards to. -/
def setOutput (number : Nat) (level : Bool) : OutputPinMode → List Operation
  | .output => [.digitalWrite number level]
  | .openDrainLowOutput => setOpenDrain number false level
  | .openDrainHighOutput => setOpenDrain number true level

/-- `runSetup`, by the type of the pin. -/
def setup : Pin → List Operation
  | .input number mode => [.pinModeInput number mode]
  | .output number mode => setupOutput number mode
  | .external _ => []

/-- The backend operations of a call, in their order. -/
def operations {pin : Pin} : Call pin → List Operation
  | .runSetup => setup pin
  | .runLoop => []
  | .get => [.digitalRead pin.number]
  | @Call.set number mode level => setOutput number level mode
  | .getOpenDrain _ => [.digitalRead pin.number]

def openDrainRepertoire (number : Nat) (active : Bool) : List Operation :=
  [.pinModeInput number .untied, .pinModeOutput number .output, .digitalRead number,
    .digitalWrite number active]

/-- The operations of a pin type. -/
def Pin.repertoire : Pin → List Operation
  | .input number mode => [.pinModeInput number mode, .digitalRead number]
  | .output number .output =>
      [.pinModeOutput number .output, .digitalWrite number false, .digitalWrite number true]
  | .output number .openDrainLowOutput => openDrainRepertoire number false
  | .output number .openDrainHighOutput => openDrainRepertoire number true
  | .external _ => []

theorem mem_repertoire {pin : Pin} (call : Call pin) :
    ∀ op ∈ operations call, op ∈ pin.repertoire := by
  cases call with
  | runSetup =>
      cases pin with
      | output number mode =>
          cases mode <;> simp [operations, setup, setupOutput, setupOpenDrain, Pin.repertoire,
            openDrainRepertoire]
      | _ => simp [operations, setup, Pin.repertoire]
  | runLoop => simp [operations]
  | get => simp [operations, Pin.repertoire, Pin.number]
  | @set number mode level =>
      cases mode <;> cases level <;> simp [operations, setOutput, setOpenDrain, Pin.repertoire,
        openDrainRepertoire]
  | @getOpenDrain number mode h =>
      cases mode with
      | output => contradiction
      | _ => simp [operations, Pin.repertoire, openDrainRepertoire, Pin.number]

/-- A pin names itself only, and its emulation asks the backend for no open-drain mode. -/
theorem forall_repertoire (pin : Pin) :
    ∀ op ∈ pin.repertoire, op.pin = pin.number ∧ op.Supported := by
  cases pin with
  | output number mode =>
      cases mode <;> simp [Pin.repertoire, openDrainRepertoire, Operation.pin,
        Operation.Supported, Pin.number]
  | _ => simp [Pin.repertoire, Operation.pin, Operation.Supported, Pin.number]

theorem pin_eq_number {pin : Pin} (call : Call pin) {op : Operation}
    (hop : op ∈ operations call) : op.pin = pin.number :=
  (forall_repertoire pin op (mem_repertoire call op hop)).1

end Pins

section Lines

/-- What a pin type may do to its line. -/
def Allowed : Pin → Line → Prop
  | .input _ _, line => line.drive = none
  | .output _ .output, line => line.drive ≠ none
  | .output _ .openDrainLowOutput, line => line.drive ≠ some true
  | .output _ .openDrainHighOutput, line => line.drive ≠ some false
  | .external _, _ => True

/-- What holds of a line between any two operations once its pin is set up. -/
def Settled : Pin → Line → Prop
  | .input _ _, line => line.driven = false
  | .output _ .output, line => line.driven = true
  | .output _ .openDrainLowOutput, line => line.latch = false
  | .output _ .openDrainHighOutput, line => line.latch = true
  | .external _, _ => True

/-- An open-drain pin needs the level that it preloads to outlast its release. -/
def Pin.KeptBy (released : InputPinMode → Bool → Bool) : Pin → Prop
  | .output _ .openDrainLowOutput => released .untied false = false
  | .output _ .openDrainHighOutput => released .untied true = true
  | _ => True

instance (released : InputPinMode → Bool → Bool) :
    (pin : Pin) → Decidable (pin.KeptBy released)
  | .output _ .openDrainLowOutput =>
      inferInstanceAs (Decidable (released .untied false = false))
  | .output _ .openDrainHighOutput =>
      inferInstanceAs (Decidable (released .untied true = true))
  | .output _ .output => .isTrue trivial
  | .input _ _ => .isTrue trivial
  | .external _ => .isTrue trivial

/-- The switch that a call operates: what a pin drives afterwards. -/
def switched {pin : Pin} (drive : Option Bool) : Call pin → Option Bool
  | .runSetup =>
      match pin with
      | .input _ _ => none
      | .output _ .output => drive
      | .output _ .openDrainLowOutput => none
      | .output _ .openDrainHighOutput => none
      | .external _ => drive
  | @Call.set _ .output level => some level
  | @Call.set _ .openDrainLowOutput level => if level then none else some false
  | @Call.set _ .openDrainHighOutput level => if level then some true else none
  | _ => drive

variable {released : InputPinMode → Bool → Bool} {pin : Pin} {line : Line}

theorem allowed_of_settled (h : Settled pin line) : Allowed pin line := by
  cases pin with
  | output number mode => cases mode <;> simp_all [Settled, Allowed, Line.drive]
  | _ => simp_all [Settled, Allowed, Line.drive]

theorem settled_setup (pin : Pin) (line : Line) :
    Settled pin ((setup pin).foldl (Operation.onLine released) line) := by
  cases pin with
  | output number mode => cases mode <;> rfl
  | input number mode => rfl
  | external number => trivial

/-- Already the first operation of the setup takes a pin off the level it must not drive. -/
theorem allowed_of_prefix {op : Operation} {ops : List Operation}
    (hpre : op :: ops <+: setup pin) :
    Allowed pin ((op :: ops).foldl (Operation.onLine released) line) := by
  cases pin with
  | input number mode =>
      obtain ⟨rfl, -⟩ := List.cons_prefix_cons.mp hpre
      obtain rfl := List.prefix_nil.mp (List.cons_prefix_cons.mp hpre).2
      rfl
  | external number => trivial
  | output number mode =>
      cases mode with
      | output =>
          obtain ⟨rfl, hrest⟩ := List.cons_prefix_cons.mp hpre
          obtain rfl := List.prefix_nil.mp hrest
          simp [Allowed, Operation.onLine, Line.drive]
      | _ =>
          obtain ⟨rfl, hrest⟩ := List.cons_prefix_cons.mp hpre
          -- The preload comes second and only where the pin no longer drives its line.
          rcases List.prefix_cons_iff.mp hrest with rfl | ⟨rest, rfl, hnil⟩
          · simp [Allowed, Operation.onLine, Line.drive]
          · obtain rfl := List.prefix_nil.mp hnil
            simp [Allowed, Operation.onLine, Line.drive]

/-- No operation of the pin undoes what its setup began, where its preload is kept. -/
theorem settled_onLine (hkept : pin.KeptBy released) (h : Settled pin line) :
    ∀ op ∈ pin.repertoire, Settled pin (op.onLine released line) := by
  cases pin with
  | output number mode =>
      cases mode <;> simp_all [Pin.repertoire, openDrainRepertoire, Pin.KeptBy, Settled,
        Operation.onLine]
  | _ => simp_all [Pin.repertoire, Settled, Operation.onLine]

theorem settled_foldl (hkept : pin.KeptBy released) {ops : List Operation}
    (hops : ∀ op ∈ ops, op ∈ pin.repertoire) (h : Settled pin line) :
    Settled pin (ops.foldl (Operation.onLine released) line) := by
  induction ops generalizing line with
  | nil => exact h
  | cons op ops ih =>
      rw [List.forall_mem_cons] at hops
      exact ih hops.2 (settled_onLine hkept h op hops.1)

theorem drive_operations (call : Call pin) (h : Settled pin line) :
    ((operations call).foldl (Operation.onLine released) line).drive =
      switched line.drive call := by
  cases call with
  | runSetup =>
      cases pin with
      | output number mode =>
          cases mode <;> simp_all [operations, setup, setupOutput, setupOpenDrain, Settled,
            Operation.onLine, Line.drive, switched]
      | input number mode => rfl
      | external number => rfl
  | runLoop => rfl
  | @set number mode level =>
      cases mode <;> cases level <;>
        simp_all [operations, setOutput, setOpenDrain, Settled, Operation.onLine, Line.drive,
          switched]
  | _ => rfl

/-- What the pin drives when its setup is complete. -/
def setUpDrive (line : Line) : Pin → Option Bool
  | .output _ .output => some line.latch
  | .external _ => line.drive
  | _ => none

theorem drive_setup (pin : Pin) (line : Line) :
    ((setup pin).foldl (Operation.onLine released) line).drive = setUpDrive line pin := by
  cases pin with
  | output number mode => cases mode <;> rfl
  | _ => rfl

/-- Releasing an open-drain pin and driving it again shows what its release leaves in the
latch. -/
theorem keptBy_of_drive (line : Line)
    (h : ∀ calls : List (Call pin),
      ((calls.flatMap operations).foldl (Operation.onLine released)
        ((setup pin).foldl (Operation.onLine released) line)).drive =
        calls.foldl switched (setUpDrive line pin)) :
    pin.KeptBy released := by
  cases pin with
  | output number mode =>
      cases mode with
      | output => trivial
      | openDrainLowOutput =>
          have hagain := h [.set true, .set false]
          simpa [setup, setupOutput, setupOpenDrain, operations, setOutput, setOpenDrain,
            Operation.onLine, Line.drive, switched, Pin.KeptBy] using hagain
      | openDrainHighOutput =>
          have hagain := h [.set false, .set true]
          simpa [setup, setupOutput, setupOpenDrain, operations, setOutput, setOpenDrain,
            Operation.onLine, Line.drive, switched, Pin.KeptBy] using hagain
  | _ => trivial

end Lines

section Runs

variable {ι σ : Type} (pins : ι → Pin)

/-- A call on one of the pins. -/
abbrev PinCall :=
  (i : ι) × Call (pins i)

/-- The operations that reach the backend, in their order. -/
def stream (calls : List (PinCall pins)) : List Operation :=
  calls.flatMap fun call => operations call.2

/-- The line of a pin after some operations. -/
def lineAfter (backend : Backend σ) (s : σ) (ops : List Operation) (number : Nat) : Line :=
  backend.line (after backend.perform s ops) number

variable {pins}

theorem supported_stream {calls : List (PinCall pins)} :
    ∀ op ∈ stream pins calls, op.Supported := by
  intro op hop
  obtain ⟨call, -, hop⟩ := List.mem_flatMap.mp hop
  exact (forall_repertoire _ op (mem_repertoire call.2 op hop)).2

/-- A line follows the operations that name it. -/
theorem lineAfter_eq (backend : Backend σ) (s : σ) {ops : List Operation}
    (hsupported : ∀ op ∈ ops, op.Supported) (number : Nat) :
    lineAfter backend s ops number =
      (ops.filter fun op => op.pin = number).foldl (Operation.onLine backend.released)
        (backend.line s number) := by
  apply part_after fun s => backend.line s number
  · intro op hop hpin s
    rw [← decide_eq_true_iff.mp hpin]
    exact backend.line_self s op (hsupported op hop)
  · intro op _ hpin s
    exact backend.line_of_ne s op number (decide_eq_false_iff_not.mp hpin ∘ Eq.symm)

/-- A pin that is set up drives what its own calls switch it to. -/
theorem drive_stream {released : InputPinMode → Bool → Bool} {i : ι}
    (hkept : (pins i).KeptBy released) {calls : List (PinCall pins)}
    (hmine : ∀ call ∈ calls, call.1 = i) {line : Line} (h : Settled (pins i) line) :
    ((stream pins calls).foldl (Operation.onLine released) line).drive =
      calls.foldl (fun drive call => switched drive call.2) line.drive := by
  induction calls generalizing line with
  | nil => rfl
  | cons call calls ih =>
      obtain ⟨j, call⟩ := call
      rw [List.forall_mem_cons] at hmine
      obtain ⟨rfl, hmine⟩ := hmine
      have hnext := settled_foldl hkept (mem_repertoire call) h
      rw [stream, List.flatMap_cons, List.foldl_append, List.foldl_cons]
      exact (ih hmine hnext).trans (by rw [drive_operations call h])

theorem stream_setup (i : ι) (calls : List (PinCall pins)) :
    stream pins (⟨i, .runSetup⟩ :: calls) = setup (pins i) ++ stream pins calls :=
  List.flatMap_cons

/-- Up to any operation of a run the setup either goes on or is over. -/
theorem prefix_stream_cases {i : ι} {calls : List (PinCall pins)} {ops : List Operation}
    (hpre : ops <+: stream pins (⟨i, .runSetup⟩ :: calls)) :
    ops <+: setup (pins i) ∨
      ∃ rest, rest <+: stream pins calls ∧ ops = setup (pins i) ++ rest := by
  rw [stream_setup] at hpre
  rcases List.prefix_or_prefix_of_prefix hpre (List.prefix_append _ _) with
    hwithin | ⟨rest, rfl⟩
  · exact Or.inl hwithin
  · exact Or.inr ⟨rest, (List.prefix_append_right_inj _).mp hpre, rfl⟩

theorem filter_setup (i : ι) {ops : List Operation} (hops : ops ⊆ setup (pins i)) :
    ops.filter (fun op => op.pin = (pins i).number) = ops := by
  rw [List.filter_eq_self]
  exact fun op hop => decide_eq_true (pin_eq_number (.runSetup : Call (pins i)) (hops hop))

theorem lineAfter_setup_append (backend : Backend σ) (s : σ) (i : ι) {ops : List Operation}
    (hsupported : ∀ op ∈ ops, op.Supported) :
    lineAfter backend s (setup (pins i) ++ ops) (pins i).number =
      (ops.filter fun op => op.pin = (pins i).number).foldl (Operation.onLine backend.released)
        ((setup (pins i)).foldl (Operation.onLine backend.released)
          (backend.line s (pins i).number)) := by
  have hsetup : ∀ op ∈ setup (pins i), op.Supported := fun op hop =>
    (forall_repertoire _ op (mem_repertoire (.runSetup : Call (pins i)) op hop)).2
  rw [lineAfter_eq backend s (List.forall_mem_append.mpr ⟨hsetup, hsupported⟩),
    List.filter_append, filter_setup i (List.Subset.refl _), List.foldl_append]

section Distinct

variable (hdistinct : Function.Injective fun i => (pins i).number)

include hdistinct

/-- The operations that name a pin are those of its own calls. -/
theorem filter_stream [DecidableEq ι] (i : ι) (calls : List (PinCall pins)) :
    (stream pins calls).filter (fun op => op.pin = (pins i).number) =
      stream pins (calls.filter fun call => call.1 = i) := by
  induction calls with
  | nil => rfl
  | cons call calls ih =>
      rw [stream, List.flatMap_cons, List.filter_append]
      by_cases hcall : call.1 = i
      · rw [List.filter_cons_of_pos (by simpa using hcall), stream, List.flatMap_cons]
        rw [List.filter_eq_self.mpr]
        · exact congrArg _ ih
        · intro op hop
          rw [decide_eq_true_iff, pin_eq_number call.2 hop, hcall]
      · rw [List.filter_cons_of_neg (by simpa using hcall), List.filter_eq_nil_iff.mpr]
        · exact ih
        · intro op hop
          rw [decide_eq_true_iff, pin_eq_number call.2 hop]
          exact fun heq => hcall (hdistinct heq)

theorem mem_repertoire_of_pin {i : ι} {calls : List (PinCall pins)} {op : Operation}
    (hop : op ∈ stream pins calls) (hpin : op.pin = (pins i).number) :
    op ∈ (pins i).repertoire := by
  obtain ⟨⟨j, call⟩, -, hop⟩ := List.mem_flatMap.mp hop
  obtain rfl : j = i := hdistinct ((pin_eq_number call hop).symm.trans hpin)
  exact mem_repertoire call op hop

end Distinct

/-- Where every pin of that number is external, no operation names it. -/
theorem lineAfter_of_external (backend : Backend σ) (s : σ) (calls : List (PinCall pins))
    {number : Nat} (hexternal : ∀ j, (pins j).number = number → pins j = .external number) :
    lineAfter backend s (stream pins calls) number = backend.line s number := by
  rw [lineAfter_eq backend s supported_stream, List.filter_eq_nil_iff.mpr]
  · rfl
  · intro op hop hpin
    obtain ⟨⟨j, call⟩, -, hop⟩ := List.mem_flatMap.mp hop
    rw [decide_eq_true_iff, pin_eq_number call hop] at hpin
    have hmem := mem_repertoire call op hop
    rw [hexternal j hpin] at hmem
    exact List.not_mem_nil hmem

variable (pins) in
/-- The pin does what its type may do from its setup on, whatever the backend was before:
between any two operations it drives no level against its type, and after any calls it
drives what its own calls switched it to. -/
structure Emulated [DecidableEq ι] (backend : Backend σ) (s : σ) (i : ι)
    (calls : List (PinCall pins)) : Prop where
  allowed : ∀ op ops, op :: ops <+: stream pins (⟨i, .runSetup⟩ :: calls) →
    Allowed (pins i) (lineAfter backend s (op :: ops) (pins i).number)
  drive : (lineAfter backend s (stream pins (⟨i, .runSetup⟩ :: calls)) (pins i).number).drive =
    (calls.filter fun call => call.1 = i).foldl (fun drive call => switched drive call.2)
      (setUpDrive (backend.line s (pins i).number) (pins i))

theorem emulated_of_keptBy [DecidableEq ι]
    (hdistinct : Function.Injective fun i => (pins i).number) {backend : Backend σ} {i : ι}
    (hkept : (pins i).KeptBy backend.released) (s : σ) (calls : List (PinCall pins)) :
    Emulated pins backend s i calls := by
  constructor
  case allowed =>
    intro op ops hpre
    rcases prefix_stream_cases hpre with hwithin | ⟨rest, hrest, heq⟩
    · rw [lineAfter_eq backend s fun op' hop => supported_stream op' (hpre.subset hop),
        filter_setup i hwithin.subset]
      exact allowed_of_prefix hwithin
    · rw [heq, lineAfter_setup_append backend s i fun op' hop =>
        supported_stream op' (hrest.subset hop)]
      apply allowed_of_settled
      apply settled_foldl hkept ?_ (settled_setup _ _)
      intro op' hop
      obtain ⟨hop, hpin⟩ := List.mem_filter.mp hop
      exact mem_repertoire_of_pin hdistinct (hrest.subset hop) (decide_eq_true_iff.mp hpin)
  case drive =>
    have hmine : ∀ call ∈ calls.filter fun call => call.1 = i, call.1 = i :=
      fun call hcall => decide_eq_true_iff.mp (List.mem_filter.mp hcall).2
    rw [stream_setup, lineAfter_setup_append backend s i supported_stream,
      filter_stream hdistinct, ← drive_setup (pins i) (backend.line s (pins i).number)]
    exact drive_stream hkept hmine (settled_setup _ _)

/-- The calls of one pin alone tell whether its preload is kept. -/
theorem keptBy_of_emulated [DecidableEq ι]
    (hdistinct : Function.Injective fun i => (pins i).number) {backend : Backend σ} {s : σ}
    {i : ι} (h : ∀ calls, Emulated pins backend s i calls) :
    (pins i).KeptBy backend.released := by
  apply keptBy_of_drive (backend.line s (pins i).number)
  intro calls
  have hmine : ((calls.map (Sigma.mk i)).filter fun call : PinCall pins => call.1 = i) =
      calls.map (Sigma.mk i) := by
    rw [List.filter_eq_self]
    simp
  have hdrive := (h (calls.map (Sigma.mk i))).drive
  rw [stream_setup, lineAfter_setup_append backend s i supported_stream,
    filter_stream hdistinct, hmine, stream, List.flatMap_map, List.foldl_map] at hdrive
  exact hdrive

variable (pins) in
/-- Every operation that names the pin is one of its type, and the backend, which is asked
for no open-drain mode, gets the pin emulated exactly where it keeps the preload. Lines
without a pin and those of external pins are not touched. -/
structure Emulates [DecidableEq ι] (backend : Backend σ) (s : σ) (i : ι) : Prop where
  issued : ∀ calls, ∀ op ∈ stream pins calls,
    op.Supported ∧ (op.pin = (pins i).number → op ∈ (pins i).repertoire)
  emulated : (∀ calls, Emulated pins backend s i calls) ↔ (pins i).KeptBy backend.released
  untouched : ∀ calls number, (∀ j, (pins j).number = number → pins j = .external number) →
    lineAfter backend s (stream pins calls) number = backend.line s number

theorem pins_emulate [DecidableEq ι] (hdistinct : Function.Injective fun i => (pins i).number)
    (backend : Backend σ) (s : σ) (i : ι) : Emulates pins backend s i where
  issued _ op hop := ⟨supported_stream op hop, mem_repertoire_of_pin hdistinct hop⟩
  emulated := ⟨keptBy_of_emulated hdistinct, fun hkept => emulated_of_keptBy hdistinct hkept s⟩
  untouched calls _ := lineAfter_of_external backend s calls

end Runs

section Board

/-- A backend that keeps the lines and nothing else; a line that nobody drives reads high. -/
def lines (released : InputPinMode → Bool → Bool) : Backend (Nat → Line) where
  perform s op :=
    (match op with
      | .digitalRead pin => [(s pin).drive.getD true]
      | _ => [],
      Function.update s op.pin (op.onLine released (s op.pin)))
  line s := s
  released := released
  line_self _ _ _ := Function.update_self _ _ _
  line_of_ne _ _ _ hne := Function.update_of_ne hne _ _

/-- A line that is pulled low when active, next to a pin that is only read. -/
def boardPins : Bool → Pin
  | false => .output 5 .openDrainLowOutput
  | true => .input 2 .pullUp

theorem boardPins_emulate :
    Emulates boardPins (lines fun _ latch => latch) (fun _ => ⟨true, true⟩) false :=
  pins_emulate (by intro i j; cases i <;> cases j <;> decide) _ _ false

/-- Where an input mode switches the pull-up by the latch, only a low preload is kept. -/
example : (boardPins false).KeptBy (fun mode _ => mode == .pullUp) ∧
    ¬(Pin.output 6 .openDrainHighOutput).KeptBy (fun mode _ => mode == .pullUp) := by
  decide

end Board

end GrevirPeripherals.GpioPins
