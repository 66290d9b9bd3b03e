import GrevirPeripherals.CallRuns
import GrevirPeripherals.CellStore
import Mathlib.Data.BitVec
import Mathlib.Data.Set.Basic

/-!
The typed regions of `storage_region.hpp` over a byte store. A `size_t` has `n` bits,
and a value is the list of the bytes of its object.
-/

namespace GrevirPeripherals.StorageRegion

open GrevirPeripherals.CallRuns
open GrevirPeripherals.CellStore

variable {n : Nat} {σ ι : Type}

/-- The arguments of `EepromReaderWriter` less its backend. The size is `sizeof(T)`, and no
object has more bytes than a pointer difference can count. -/
structure EepromReaderWriter where
  address : Int32
  size : Nat
  size_lt : size < 2 ^ 63

namespace EepromReaderWriter

def endAddress (region : EepromReaderWriter) : UInt64 :=
  UInt64.ofNat (if region.address ≥ 0 then region.address else 0).toInt.toNat +
    UInt64.ofNat region.size

/-- The static checks on the numbers; `intMax` is the greatest `int`. -/
structure Accepted (intMax : Nat) (capacity : BitVec n) (region : EepromReaderWriter) : Prop where
  nonnegative : region.address ≥ 0
  representable : region.endAddress.toNat ≤ intMax
  withinCapacity : region.endAddress.toNat ≤ capacity.toNat

/-- `[Address, Address + sizeof(T))`. -/
def range (region : EepromReaderWriter) : Set Int :=
  {a | region.address.toInt ≤ a ∧ a < region.address.toInt + region.size}

/-- `static_cast<std::size_t>(Address) + i`. -/
def byteAddress (n : Nat) (region : EepromReaderWriter) (i : Nat) : BitVec n :=
  BitVec.ofInt n region.address.toInt + BitVec.ofNat n i

section Loops

variable (store : Store (BitVec n) UInt8 σ) (region : EepromReaderWriter)

/-- The loop of `read` from the byte `i` on. -/
def readFrom : Nat → Nat → σ → List UInt8 × σ
  | _, 0, s => ([], s)
  | i, remaining + 1, s =>
      let byte := store.read (region.byteAddress n i) s
      let rest := readFrom (i + 1) remaining byte.2
      (byte.1 :: rest.1, rest.2)

def read (s : σ) : List UInt8 × σ :=
  readFrom store region 0 region.size s

/-- The loop of `write` from the byte `i` on. -/
def writeFrom : Nat → List UInt8 → σ → σ
  | _, [], s => s
  | i, byte :: bytes, s => writeFrom (i + 1) bytes (store.update (region.byteAddress n i) byte s)

def write (value : List UInt8) (s : σ) : σ :=
  writeFrom store region 0 value s

/-- The addresses of the bytes, in the order of the loops. -/
def cells (n : Nat) (region : EepromReaderWriter) : List (BitVec n) :=
  (List.range region.size).map (region.byteAddress n)

theorem readFrom_eq (i remaining : Nat) (s : σ) :
    readFrom store region i remaining s =
      store.readAll ((List.range' i remaining).map (region.byteAddress n)) s := by
  induction remaining generalizing i s with
  | zero => rfl
  | succ remaining ih =>
      rw [readFrom, ih, List.range'_succ, List.map_cons, Store.readAll]

theorem writeFrom_eq (i : Nat) (bytes : List UInt8) (s : σ) :
    writeFrom store region i bytes s =
      store.updateAll (((List.range' i bytes.length).map (region.byteAddress n)).zip bytes) s := by
  induction bytes generalizing i s with
  | nil => rfl
  | cons byte bytes ih =>
      rw [writeFrom, ih, List.length_cons, List.range'_succ, List.map_cons, List.zip_cons_cons,
        Store.updateAll]

theorem read_eq (s : σ) : region.read store s = store.readAll (region.cells n) s := by
  rw [read, readFrom_eq, cells, List.range_eq_range']

theorem write_eq {value : List UInt8} (hlength : value.length = region.size) (s : σ) :
    region.write store value s = store.updateAll ((region.cells n).zip value) s := by
  rw [write, writeFrom_eq, cells, List.range_eq_range', hlength]

end Loops

@[simp]
theorem cells_length (region : EepromReaderWriter) : (region.cells n).length = region.size := by
  rw [cells, List.length_map, List.length_range]

end EepromReaderWriter

section Bounds

namespace EepromReaderWriter.Accepted

variable {intMax : Nat} {capacity : BitVec n} {region : EepromReaderWriter}
  (h : region.Accepted intMax capacity)

include h

theorem zero_le : 0 ≤ region.address.toInt :=
  Int32.le_iff_toInt_le.mp h.nonnegative

/-- The exclusive end of the claim does not wrap. -/
theorem endAddress_eq : (region.endAddress.toNat : Int) = region.address.toInt + region.size := by
  have hzero := h.zero_le
  have haddress : region.address.toInt < 2 ^ 31 := region.address.toInt_lt
  have hsize := region.size_lt
  have hlt : region.address.toInt.toNat + region.size < 2 ^ 64 := by omega
  rw [endAddress, if_pos h.nonnegative, UInt64.toNat_add, UInt64.toNat_ofNat',
    UInt64.toNat_ofNat', Nat.mod_add_mod, Nat.add_mod_mod, Nat.mod_eq_of_lt hlt]
  omega

theorem toNat_byteAddress {i : Nat} (hi : i < region.size) :
    ((region.byteAddress n i).toNat : Int) = region.address.toInt + i := by
  have hend := h.endAddress_eq
  have hcapacity := h.withinCapacity
  have hlt := capacity.isLt
  obtain ⟨start, hstart⟩ := Int.eq_ofNat_of_zero_le h.zero_le
  rw [hstart] at hend
  rw [byteAddress, hstart, BitVec.ofInt_natCast, ← BitVec.ofNat_add, BitVec.toNat_ofNat,
    Nat.mod_eq_of_lt (by omega), Nat.cast_add]

theorem lt_capacity {a : BitVec n} (ha : a ∈ region.cells n) : a < capacity := by
  obtain ⟨i, hi, rfl⟩ := List.mem_map.mp ha
  rw [List.mem_range] at hi
  have haddress := h.toNat_byteAddress hi
  have hend := h.endAddress_eq
  have hcapacity := h.withinCapacity
  rw [BitVec.lt_def]
  omega

theorem mem_cells_iff {a : BitVec n} : a ∈ region.cells n ↔ (a.toNat : Int) ∈ region.range := by
  rw [cells, List.mem_map, range, Set.mem_ofPred_eq]
  constructor
  · rintro ⟨i, hi, rfl⟩
    rw [List.mem_range] at hi
    have haddress := h.toNat_byteAddress hi
    omega
  · rintro ⟨hle, hlt⟩
    have hzero := h.zero_le
    have hi : (a.toNat - region.address.toInt).toNat < region.size := by omega
    refine ⟨_, List.mem_range.mpr hi, ?_⟩
    have haddress := h.toNat_byteAddress hi
    apply BitVec.eq_of_toNat_eq
    omega

theorem nodup_cells : (region.cells n).Nodup := by
  apply List.Nodup.map_on _ List.nodup_range
  intro i hi j hj heq
  rw [List.mem_range] at hi hj
  have hi' := h.toNat_byteAddress hi
  have hj' := h.toNat_byteAddress hj
  rw [heq] at hi'
  omega

end EepromReaderWriter.Accepted

end Bounds

section Runs

/-- No two regions claim one address. -/
def DisjointRanges (regions : ι → EepromReaderWriter) : Prop :=
  Pairwise fun i j => ∀ a ∈ (regions i).range, a ∉ (regions j).range

/-- A call on one of the regions; a value to write has the size of the region. -/
inductive Call (regions : ι → EepromReaderWriter) where
  | read (i : ι)
  | write (i : ι) (value : List UInt8) (length_eq : value.length = (regions i).size)

def Call.region {regions : ι → EepromReaderWriter} : Call regions → ι
  | .read i => i
  | .write i _ _ => i

/-- What a call does to the store; a read returns the bytes of the object. -/
def regionStep (store : Store (BitVec n) UInt8 σ) (regions : ι → EepromReaderWriter) (s : σ) :
    Call regions → List (List UInt8) × σ
  | .read i => ([((regions i).read store s).1], ((regions i).read store s).2)
  | .write i value _ => ([], (regions i).write store value s)

/-- What the same call does to one variable for each region. -/
def variableStep [DecidableEq ι] (regions : ι → EepromReaderWriter) (objects : ι → List UInt8) :
    Call regions → List (List UInt8) × (ι → List UInt8)
  | .read i => ([objects i], objects)
  | .write i value _ => ([], Function.update objects i value)

/-- The bytes that the store holds in a region. -/
def objectBytes (store : Store (BitVec n) UInt8 σ) (s : σ) (region : EepromReaderWriter) :
    List UInt8 :=
  (region.cells n).map (store.contents s)

variable {store : Store (BitVec n) UInt8 σ} {regions : ι → EepromReaderWriter} {intMax : Nat}
  (haccepted : ∀ i, (regions i).Accepted intMax store.capacity)

include haccepted

/-- A call leaves the bytes outside its own region alone, and a read leaves all of them. -/
theorem contents_regionStep (s : σ) (call : Call regions) {a : BitVec n}
    (ha : a < store.capacity)
    (houtside : ∀ i value length_eq, call = .write i value length_eq →
      (a.toNat : Int) ∉ (regions i).range) :
    store.contents (regionStep store regions s call).2 a = store.contents s a := by
  cases call with
  | read i =>
      simp only [regionStep, EepromReaderWriter.read_eq]
      exact Store.contents_readAll (fun b hb => (haccepted i).lt_capacity hb) s ha
  | write i value length_eq =>
      simp only [regionStep, EepromReaderWriter.write_eq store (regions i) length_eq]
      apply Store.contents_updateAll_of_notMem (fun b hb => (haccepted i).lt_capacity hb) s ha
      rw [(haccepted i).mem_cells_iff]
      exact houtside i value length_eq rfl

/-- The regions follow the variables through a call. -/
theorem objectBytes_regionStep [DecidableEq ι]
    (hdisjoint : DisjointRanges regions) (s : σ)
    (call : Call regions) :
    (regionStep store regions s call).1 =
        (variableStep regions (fun i => objectBytes store s (regions i)) call).1 ∧
      (fun i => objectBytes store (regionStep store regions s call).2 (regions i)) =
        (variableStep regions (fun i => objectBytes store s (regions i)) call).2 := by
  have hvalid : ∀ i, ∀ a ∈ (regions i).cells n, a < store.capacity :=
    fun i a ha => (haccepted i).lt_capacity ha
  constructor
  · cases call with
    | read i =>
        simp only [regionStep, variableStep, EepromReaderWriter.read_eq,
          Store.readAll_fst (hvalid i), objectBytes]
    | write i value length_eq => rfl
  · funext j
    cases call with
    | read i =>
        apply List.map_congr_left
        intro a ha
        exact contents_regionStep haccepted s (.read i) (hvalid j a ha) (by simp)
    | write i value length_eq =>
        rcases eq_or_ne j i with rfl | hne
        · simp only [variableStep, Function.update_self, regionStep, objectBytes,
            EepromReaderWriter.write_eq store (regions j) length_eq]
          apply Store.map_contents_updateAll (haccepted j).nodup_cells (hvalid j)
          rw [length_eq, EepromReaderWriter.cells_length]
        · simp only [variableStep, Function.update_of_ne hne]
          apply List.map_congr_left
          intro a ha
          apply contents_regionStep haccepted s _ (hvalid j a ha)
          rintro _ _ _ ⟨rfl, rfl⟩
          exact hdisjoint hne _ ((haccepted j).mem_cells_iff.mp ha)

theorem run_follows_variables [DecidableEq ι]
    (hdisjoint : DisjointRanges regions) (s : σ)
    (calls : List (Call regions)) :
    returned (regionStep store regions) s calls =
        returned (variableStep regions) (fun i => objectBytes store s (regions i)) calls ∧
      (fun i => objectBytes store (after (regionStep store regions) s calls) (regions i)) =
        after (variableStep regions) (fun i => objectBytes store s (regions i)) calls := by
  induction calls using List.reverseRecOn with
  | nil => exact ⟨rfl, rfl⟩
  | append_singleton calls call ih =>
      obtain ⟨hreturned, hafter⟩ := ih
      obtain ⟨hresult, hnext⟩ := objectBytes_regionStep haccepted hdisjoint
        (after (regionStep store regions) s calls) call
      rw [hafter] at hresult hnext
      rw [returned_concat, returned_concat, after_concat, after_concat, hreturned, hresult]
      exact ⟨rfl, hnext⟩

theorem contents_run (s : σ) (calls : List (Call regions)) {a : BitVec n}
    (ha : a < store.capacity) (houtside : ∀ i, (a.toNat : Int) ∉ (regions i).range) :
    store.contents (after (regionStep store regions) s calls) a = store.contents s a := by
  refine run_induction (I := fun _ t => store.contents t a = store.contents s a) rfl ?_ calls
  intro before t call h
  rw [contents_regionStep haccepted t call ha fun i _ _ _ => houtside i]
  exact h

end Runs

section Addresses

variable (store : Store (BitVec n) UInt8 σ) (regions : ι → EepromReaderWriter)

/-- Next to the log of the adapter a call does what it does without one, and the log
grows by the addresses of its region. -/
theorem regionStep_logged (s : σ) (log : List (BitVec n)) (call : Call regions) :
    (regionStep store.logged regions (s, log) call).1 = (regionStep store regions s call).1 ∧
      (regionStep store.logged regions (s, log) call).2 =
        ((regionStep store regions s call).2, log ++ (regions call.region).cells n) := by
  cases call with
  | read i =>
      simp only [regionStep, EepromReaderWriter.read_eq, Store.readAll_logged, Call.region,
        and_self]
  | write i value length_eq =>
      have hfst : (((regions i).cells n).zip value).map Prod.fst = (regions i).cells n := by
        apply List.map_fst_zip
        rw [EepromReaderWriter.cells_length, length_eq]
      simp only [regionStep, EepromReaderWriter.write_eq _ (regions i) length_eq,
        Store.updateAll_logged, hfst, Call.region, and_self]

theorem after_logged (s : σ) (log : List (BitVec n)) (calls : List (Call regions)) :
    (after (regionStep store.logged regions) (s, log) calls).1 =
      after (regionStep store regions) s calls := by
  induction calls using List.reverseRecOn with
  | nil => rfl
  | append_singleton calls call ih =>
      rw [after_concat, after_concat, ← ih]
      exact congrArg Prod.fst (regionStep_logged store regions _ _ call).2

end Addresses

/-- After the calls the regions are what one variable for each of them would be. -/
structure Independent [DecidableEq ι] (store : Store (BitVec n) UInt8 σ)
    (regions : ι → EepromReaderWriter) (s : σ) (calls : List (Call regions)) : Prop where
  returned : returned (regionStep store regions) s calls =
    returned (variableStep regions) (fun i => objectBytes store s (regions i)) calls
  objects : ∀ i, objectBytes store (after (regionStep store regions) s calls) (regions i) =
    after (variableStep regions) (fun i => objectBytes store s (regions i)) calls i
  outside : ∀ a, a < store.capacity → (∀ i, (a.toNat : Int) ∉ (regions i).range) →
    store.contents (after (regionStep store regions) s calls) a = store.contents s a
  reads : ∀ i a, a < store.capacity →
    store.contents (regionStep store regions (after (regionStep store regions) s calls)
        (.read i)).2 a =
      store.contents (after (regionStep store regions) s calls) a
  logged : (after (regionStep store.logged regions) (s, []) calls).1 =
    after (regionStep store regions) s calls
  addresses : ∀ call, ∃ addresses,
    (after (regionStep store.logged regions) (s, []) (calls ++ [call])).2 =
        (after (regionStep store.logged regions) (s, []) calls).2 ++ addresses ∧
      ∀ a ∈ addresses, (a.toNat : Int) ∈ (regions call.region).range ∧ a < store.capacity

/-- Regions that pass the static checks and claim disjoint ranges do not see each other. -/
theorem regions_independent [DecidableEq ι] (intMax : Nat) (store : Store (BitVec n) UInt8 σ)
    (regions : ι → EepromReaderWriter)
    (haccepted : ∀ i, (regions i).Accepted intMax store.capacity)
    (hdisjoint : DisjointRanges regions) (s : σ)
    (calls : List (Call regions)) : Independent store regions s calls := by
  obtain ⟨hreturned, hafter⟩ := run_follows_variables haccepted hdisjoint s calls
  constructor
  case returned => exact hreturned
  case objects => exact fun i => congrFun hafter i
  case outside => exact fun a ha houtside => contents_run haccepted s calls ha houtside
  case reads =>
    intro i a ha
    exact contents_regionStep haccepted _ (.read i) ha (by simp)
  case logged => exact after_logged store regions s [] calls
  case addresses =>
    intro call
    refine ⟨(regions call.region).cells n, ?_, ?_⟩
    · rw [after_concat]
      exact congrArg Prod.snd (regionStep_logged store regions _ _ call).2
    · intro a ha
      exact ⟨(haccepted _).mem_cells_iff.mp ha, (haccepted _).lt_capacity ha⟩

section Adjacent

/-- Two regions that share a boundary, the second one up to the end of its store. -/
def adjacentRegions : Bool → EepromReaderWriter
  | false => { address := 24, size := 4, size_lt := by decide }
  | true => { address := 28, size := 4, size_lt := by decide }

def smallStore : Store (BitVec 16) UInt8 (BitVec 16 → UInt8) :=
  Store.ofFunction 32

theorem adjacentRegions_disjoint : DisjointRanges adjacentRegions := by
  intro i j hne a ha hb
  match i, j with
  | false, true => exact Int.lt_irrefl a (Int.lt_of_lt_of_le ha.2 hb.1)
  | true, false => exact Int.lt_irrefl a (Int.lt_of_lt_of_le hb.2 ha.1)
  | false, false => contradiction
  | true, true => contradiction

theorem adjacentRegions_independent :
    Independent smallStore adjacentRegions (fun _ => 255)
      [.write false [1, 239, 205, 171] rfl, .write true [128, 255, 1, 127] rfl, .read false,
        .read true] :=
  regions_independent 32767 smallStore adjacentRegions
    (fun i => by cases i <;> exact ⟨by decide, by decide, by decide⟩) adjacentRegions_disjoint
    (fun _ => 255) _

example : returned (regionStep smallStore adjacentRegions) (fun _ => 255)
    [.write false [1, 239, 205, 171] rfl, .read true, .read false] =
      [[255, 255, 255, 255], [1, 239, 205, 171]] := by
  decide

end Adjacent

end GrevirPeripherals.StorageRegion
