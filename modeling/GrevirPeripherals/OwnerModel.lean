import GrevirPeripherals.StandardSort
import GrevirPeripherals.Strings
import Mathlib.Data.List.GetD

/-!
The data of the owner allocator of the timers. A candidate's identity comes from
the backend, which promises equality, an order and a default value for "no
selection"; it ranges over an arbitrary linear order with a default.
-/

namespace GrevirPeripherals.OwnerModel

open GrevirPeripherals.StandardSort
open GrevirPeripherals.Strings

structure UseKey where
  owner : StringView := []
  localName : StringView := []

/-- The member-wise comparison of `operator<=>`. -/
def UseKey.members (key : UseKey) : StringView ×ₗ StringView :=
  toLex (key.owner, key.localName)

theorem UseKey.members_injective : Function.Injective UseKey.members := by
  rintro ⟨owner, localName⟩ ⟨owner', localName'⟩ h
  simpa [members] using h

instance : LinearOrder UseKey :=
  LinearOrder.lift' UseKey.members UseKey.members_injective

theorem owner_le_of_le {a b : UseKey} (h : a ≤ b) : a.owner ≤ b.owner := by
  rcases (Prod.Lex.toLex_le_toLex).mp (show a.members ≤ b.members from h) with hlt | ⟨heq, -⟩
  · exact hlt.le
  · exact heq.le

inductive UseKind where
  | pwm
  | periodEvent
deriving DecidableEq

structure UseDemand where
  key : UseKey := {}
  kind : UseKind := .pwm

instance : Inhabited UseDemand :=
  ⟨{}⟩

structure UseBinding where
  key : UseKey := {}
  kind : UseKind := .pwm
  endpoint : Nat := 0
  pin : Nat := 0
deriving DecidableEq

/-- `bindings` and `exclusiveRoles` are the arrays of a candidate, of which the
first `bindingCount` and `roleCount` entries are live. -/
structure Candidate (Identity : Type) where
  owner : StringView := []
  identity : Identity
  timer : Nat := 0
  preference : Nat := 0
  bindings : List UseBinding := List.replicate 4 {}
  bindingCount : Nat := 0
  exclusiveRoles : List Nat := List.replicate 8 0
  roleCount : Nat := 0
deriving DecidableEq

instance {Identity : Type} [Inhabited Identity] : Inhabited (Candidate Identity) :=
  ⟨{ identity := default }⟩

/-- `bindings[0..binding_count)`. -/
def Candidate.liveBindings {Identity : Type} (c : Candidate Identity) : List UseBinding :=
  c.bindings.take c.bindingCount

/-- `exclusive_roles[0..role_count)`. -/
def Candidate.liveRoles {Identity : Type} (c : Candidate Identity) : List Nat :=
  c.exclusiveRoles.take c.roleCount

inductive Status where
  | success
  | invalidIdentity
  | duplicateIdentity
  | invalidModel
  | noCandidate
  | reserved
  | conflict
  | exhausted
deriving DecidableEq

structure Diagnostic where
  status : Status := .success
  use : UseKey := {}
  detail : Nat := 0
deriving DecidableEq

structure Plan (Identity : Type) where
  diagnostic : Diagnostic
  uses : List UseKey
  candidates : List Identity
  visited : UInt32
deriving DecidableEq

def Plan.ok {Identity : Type} (plan : Plan Identity) : Bool :=
  plan.diagnostic.status = .success

/-- The arrays of a `Problem<D, C, R, Identity>`; `D`, `C` and `R` are their lengths. -/
structure Problem (Identity : Type) where
  demands : List UseDemand
  candidates : List (Candidate Identity)
  reservations : List Nat

section Order

variable {Identity : Type} [LinearOrder Identity]

/-- The comparator with which `solve` sorts the candidates. -/
def candidateLess (a b : Candidate Identity) : Bool :=
  if a.owner ≠ b.owner then a.owner < b.owner
  else if a.preference ≠ b.preference then a.preference < b.preference
  else if a.timer ≠ b.timer then a.timer < b.timer
  else a.identity < b.identity

/-- The fields `candidateLess` compares, in the order of their weight. -/
def sortKey (c : Candidate Identity) : StringView ×ₗ Nat ×ₗ Nat ×ₗ Identity :=
  toLex (c.owner, toLex (c.preference, toLex (c.timer, c.identity)))

theorem candidateLess_eq_byKey :
    (candidateLess : Candidate Identity → Candidate Identity → Bool) = byKey sortKey := by
  funext a b
  rw [Bool.eq_iff_iff, byKey_eq_true_iff]
  simp only [candidateLess, sortKey, Prod.Lex.toLex_lt_toLex]
  split_ifs with howner hpreference htimer <;> simp_all

end Order

end GrevirPeripherals.OwnerModel
