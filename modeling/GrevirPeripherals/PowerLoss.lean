import GrevirPeripherals.StorageRegion

/-!
Storage regions whose reads and writes may stop at any byte, as when the power goes, with
an adapter that starts anew afterwards. A write that stopped leaves the first bytes of the
new value and the last ones of the old.
-/

namespace GrevirPeripherals.PowerLoss

open GrevirPeripherals.CallRuns
open GrevirPeripherals.CellStore
open GrevirPeripherals.StorageRegion

variable {n : Nat} {σ ι : Type}

section Model

variable (store : Store (BitVec n) UInt8 σ)

/-- The loop of `read`, stopped after some rounds. -/
def readUpTo (region : EepromReaderWriter) (rounds : Nat) (s : σ) : σ :=
  (region.readFrom store 0 (min rounds region.size) s).2

/-- The loop of `write`, stopped after some rounds. -/
def writeUpTo (region : EepromReaderWriter) (rounds : Nat) (value : List UInt8) (s : σ) : σ :=
  region.writeFrom store 0 (value.take rounds) s

variable (regions : ι → EepromReaderWriter)

/-- A call, or one in which the power goes after some rounds of its loop. -/
inductive Event where
  | call (call : Call regions)
  | cut (call : Call regions) (rounds : Nat)

variable {regions} (restart : σ → σ)

/-- A call that is cut returns nothing, and its adapter starts anew. -/
def step (s : σ) : Event regions → List (List UInt8) × σ
  | .call call => regionStep store regions s call
  | .cut (.read i) rounds => ([], restart (readUpTo store (regions i) rounds s))
  | .cut (.write i value _) rounds => ([], restart (writeUpTo store (regions i) rounds value s))

/-- The same events on one variable for each region. -/
def objectStep [DecidableEq ι] (objects : ι → List UInt8) :
    Event regions → List (List UInt8) × (ι → List UInt8)
  | .call call => variableStep regions objects call
  | .cut (.read _) _ => ([], objects)
  | .cut (.write i value _) rounds =>
      ([], Function.update objects i (value.take rounds ++ (objects i).drop rounds))

/-- The values that a run hands over for a region, whether or not they get there. -/
def offered [DecidableEq ι] (i : ι) : Event regions → List (List UInt8)
  | .call (.write j value _) | .cut (.write j value _) _ => if j = i then [value] else []
  | _ => []

end Model

section Loops

variable {store : Store (BitVec n) UInt8 σ} {region : EepromReaderWriter}

theorem range_map_byteAddress (rounds : Nat) :
    (List.range' 0 (min rounds region.size)).map (region.byteAddress n) =
      (region.cells n).take rounds := by
  rw [EepromReaderWriter.cells, ← List.map_take, List.take_range, List.range_eq_range']

theorem readUpTo_eq (rounds : Nat) (s : σ) :
    readUpTo store region rounds s = (store.readAll ((region.cells n).take rounds) s).2 := by
  rw [readUpTo, EepromReaderWriter.readFrom_eq, range_map_byteAddress]

theorem writeUpTo_eq {value : List UInt8} (hlength : value.length = region.size) (rounds : Nat)
    (s : σ) :
    writeUpTo store region rounds value s =
      store.updateAll (((region.cells n).take rounds).zip (value.take rounds)) s := by
  rw [writeUpTo, EepromReaderWriter.writeFrom_eq, List.length_take, hlength,
    range_map_byteAddress]

variable {intMax : Nat} (haccepted : region.Accepted intMax store.capacity)

include haccepted

theorem lt_capacity_of_mem_take {rounds : Nat} :
    ∀ a ∈ (region.cells n).take rounds, a < store.capacity :=
  fun _ ha => haccepted.lt_capacity (List.mem_of_mem_take ha)

/-- The bytes that the loop reached are new, and the others old. -/
theorem objectBytes_writeUpTo {value : List UInt8} (hlength : value.length = region.size)
    (rounds : Nat) (s : σ) :
    objectBytes store (writeUpTo store region rounds value s) region =
      value.take rounds ++ (objectBytes store s region).drop rounds := by
  have hnodup := haccepted.nodup_cells
  have hsplit := List.take_append_drop rounds (region.cells n)
  have hmap (f : BitVec n → UInt8) : (region.cells n).map f =
      ((region.cells n).take rounds).map f ++ ((region.cells n).drop rounds).map f := by
    rw [← List.map_append, hsplit]
  rw [writeUpTo_eq hlength, objectBytes, objectBytes, hmap]
  congr 1
  · apply Store.map_contents_updateAll (hnodup.sublist (List.take_sublist _ _))
      (lt_capacity_of_mem_take haccepted)
    rw [List.length_take, List.length_take, EepromReaderWriter.cells_length, hlength]
  · rw [← List.map_drop]
    apply List.map_congr_left
    intro a ha
    apply Store.contents_updateAll_of_notMem (lt_capacity_of_mem_take haccepted) s
      (haccepted.lt_capacity (List.mem_of_mem_drop ha))
    intro hmem
    rw [← hsplit] at hnodup
    exact (List.nodup_append.mp hnodup).2.2 a hmem a ha rfl

theorem contents_readUpTo (rounds : Nat) (s : σ) {a : BitVec n} (ha : a < store.capacity) :
    store.contents (readUpTo store region rounds s) a = store.contents s a := by
  rw [readUpTo_eq]
  exact Store.contents_readAll (lt_capacity_of_mem_take haccepted) s ha

theorem contents_writeUpTo {value : List UInt8} (hlength : value.length = region.size)
    (rounds : Nat) (s : σ) {a : BitVec n} (ha : a < store.capacity)
    (houtside : (a.toNat : Int) ∉ region.range) :
    store.contents (writeUpTo store region rounds value s) a = store.contents s a := by
  rw [writeUpTo_eq hlength]
  apply Store.contents_updateAll_of_notMem (lt_capacity_of_mem_take haccepted) s ha
  intro hmem
  exact houtside (haccepted.mem_cells_iff.mp (List.mem_of_mem_take hmem))

end Loops

section Objects

variable [DecidableEq ι] {regions : ι → EepromReaderWriter} {objects : ι → List UInt8}

theorem length_objectStep (h : ∀ i, (objects i).length = (regions i).size) (event : Event regions)
    (i : ι) : ((objectStep objects event).2 i).length = (regions i).size := by
  rcases event with call | ⟨call, rounds⟩ <;> rcases call with _ | ⟨j, value, length_eq⟩
  · exact h i
  · rcases eq_or_ne i j with rfl | hne
    · simpa [objectStep, variableStep] using length_eq
    · simpa [objectStep, variableStep, hne] using h i
  · exact h i
  · rcases eq_or_ne i j with rfl | hne
    · simp only [objectStep, Function.update_self, List.length_append, List.length_take,
        List.length_drop, length_eq, h]
      omega
    · simpa [objectStep, hne] using h i

/-- A byte of an object after an event was there before or was offered there. -/
theorem getElem?_objectStep (h : ∀ i, (objects i).length = (regions i).size)
    (event : Event regions) {i : ι} {j : Nat} {byte : UInt8}
    (hbyte : ((objectStep objects event).2 i)[j]? = some byte) :
    (objects i)[j]? = some byte ∨ ∃ value ∈ offered i event, value[j]? = some byte := by
  rcases event with call | ⟨call, rounds⟩ <;> rcases call with _ | ⟨k, value, length_eq⟩
  · exact Or.inl hbyte
  · rcases eq_or_ne k i with rfl | hne
    · right
      simpa [objectStep, variableStep, offered] using hbyte
    · left
      simpa [objectStep, variableStep, hne.symm] using hbyte
  · exact Or.inl hbyte
  · rcases eq_or_ne k i with rfl | hne
    · simp only [objectStep, Function.update_self, List.getElem?_append, List.length_take,
        List.getElem?_take, List.getElem?_drop] at hbyte
      split_ifs at hbyte with hlt hrounds
      · right
        exact ⟨value, by simp [offered], hbyte⟩
      · left
        -- The loop stopped before this byte, so it is as far into the rest of the old object.
        obtain ⟨hbound, -⟩ := List.getElem?_eq_some_iff.mp hbyte
        rw [h, ← length_eq] at hbound
        rw [← hbyte]
        congr 1
        omega
    · left
      simpa [objectStep, hne.symm] using hbyte

end Objects

section Runs

variable {store : Store (BitVec n) UInt8 σ} {regions : ι → EepromReaderWriter} {intMax : Nat}
  {restart : σ → σ} (haccepted : ∀ i, (regions i).Accepted intMax store.capacity)
  (hrestart : ∀ s a, a < store.capacity → store.contents (restart s) a = store.contents s a)

include hrestart

theorem objectBytes_restart {region : EepromReaderWriter}
    (hregion : region.Accepted intMax store.capacity) (s : σ) :
    objectBytes store (restart s) region = objectBytes store s region := by
  apply List.map_congr_left
  intro a ha
  exact hrestart s a (hregion.lt_capacity ha)

include haccepted

/-- The regions follow the variables through calls that complete and calls that do not. -/
theorem objects_simulate [DecidableEq ι] (hdisjoint : DisjointRanges regions) :
    Simulates (step store restart) objectStep
      (fun s (i : ι) => objectBytes store s (regions i)) (fun _ (event : Event regions) => event)
      some := by
  intro s event
  cases event with
  | call call =>
      obtain ⟨hreturned, hobjects⟩ := objectBytes_regionStep haccepted hdisjoint s call
      rw [List.filterMap_some]
      exact Prod.ext hreturned.symm hobjects.symm
  | cut call rounds =>
      cases call with
      | read i =>
          refine Prod.ext rfl (funext fun j => ?_)
          show objectBytes store s (regions j) = objectBytes store (restart _) (regions j)
          rw [objectBytes_restart hrestart (haccepted j)]
          apply List.map_congr_left
          intro a ha
          exact (contents_readUpTo (haccepted i) rounds s ((haccepted j).lt_capacity ha)).symm
      | write i value length_eq =>
          refine Prod.ext rfl (funext fun j => ?_)
          show Function.update (fun i => objectBytes store s (regions i)) i
              (value.take rounds ++ (objectBytes store s (regions i)).drop rounds) j =
            objectBytes store (restart (writeUpTo store (regions i) rounds value s)) (regions j)
          rw [objectBytes_restart hrestart (haccepted j)]
          rcases eq_or_ne j i with rfl | hne
          · rw [Function.update_self, objectBytes_writeUpTo (haccepted j) length_eq]
          · rw [Function.update_of_ne hne]
            apply List.map_congr_left
            intro a ha
            exact (contents_writeUpTo (haccepted i) length_eq rounds s
              ((haccepted j).lt_capacity ha)
              (hdisjoint hne _ ((haccepted j).mem_cells_iff.mp ha))).symm

theorem contents_step (s : σ) (event : Event regions) {a : BitVec n} (ha : a < store.capacity)
    (houtside : ∀ i, (a.toNat : Int) ∉ (regions i).range) :
    store.contents (step store restart s event).2 a = store.contents s a := by
  cases event with
  | call call => exact contents_regionStep haccepted s call ha fun i _ _ _ => houtside i
  | cut call rounds =>
      cases call with
      | read i =>
          exact (hrestart _ a ha).trans (contents_readUpTo (haccepted i) rounds s ha)
      | write i value length_eq =>
          exact (hrestart _ a ha).trans
            (contents_writeUpTo (haccepted i) length_eq rounds s ha (houtside i))

omit hrestart haccepted in
theorem getElem?_after [DecidableEq ι] {objects : ι → List UInt8}
    (hlength : ∀ i, (objects i).length = (regions i).size) (events : List (Event regions)) :
    (∀ i, (after objectStep objects events i).length = (regions i).size) ∧
      ∀ (i : ι) (j : Nat) (byte : UInt8), (after objectStep objects events i)[j]? = some byte →
        (objects i)[j]? = some byte ∨
          ∃ value ∈ events.flatMap (offered i), value[j]? = some byte := by
  induction events using List.reverseRecOn with
  | nil => exact ⟨hlength, fun _ _ _ hbyte => Or.inl hbyte⟩
  | append_singleton events event ih =>
      rw [after_concat]
      refine ⟨length_objectStep ih.1 event, fun i j byte hbyte => ?_⟩
      simp only [List.flatMap_append, List.flatMap_singleton, List.mem_append]
      rcases getElem?_objectStep ih.1 event hbyte with hbefore | ⟨value, hmem, hvalue⟩
      · rcases ih.2 i j byte hbefore with hinitial | ⟨value, hmem, hvalue⟩
        · exact Or.inl hinitial
        · exact Or.inr ⟨value, Or.inl hmem, hvalue⟩
      · exact Or.inr ⟨value, Or.inr hmem, hvalue⟩

/-- What the regions hold after calls of which any may have been cut. -/
structure Recovers [DecidableEq ι] (store : Store (BitVec n) UInt8 σ)
    (regions : ι → EepromReaderWriter) (restart : σ → σ) (s : σ) (events : List (Event regions)) :
    Prop where
  returned : returned (step store restart) s events =
    returned objectStep (fun i => objectBytes store s (regions i)) events
  objects : ∀ i, objectBytes store (after (step store restart) s events) (regions i) =
    after objectStep (fun i => objectBytes store s (regions i)) events i
  bytes : ∀ (i : ι) (j : Nat) (byte : UInt8),
    (objectBytes store (after (step store restart) s events) (regions i))[j]? = some byte →
      (objectBytes store s (regions i))[j]? = some byte ∨
        ∃ value ∈ events.flatMap (offered i), value[j]? = some byte
  outside : ∀ a, a < store.capacity → (∀ i, (a.toNat : Int) ∉ (regions i).range) →
    store.contents (after (step store restart) s events) a = store.contents s a
  rewritten : ∀ i value length_eq,
    objectBytes store (after (step store restart) s
      (events ++ [.call (.write i value length_eq)])) (regions i) = value

/-- Wherever the power goes in a run, disjoint regions keep to the bytes that they were
offered, one region at a time, and a write that completes puts its own in order. -/
theorem regions_recover [DecidableEq ι] (hdisjoint : DisjointRanges regions) (s : σ)
    (events : List (Event regions)) : Recovers store regions restart s events := by
  have hsimulates := objects_simulate haccepted hrestart hdisjoint
  have hreturned := hsimulates.returned s events
  have hafter (events : List (Event regions)) (i : ι) :
      objectBytes store (after (step store restart) s events) (regions i) =
        after objectStep (fun i => objectBytes store s (regions i)) events i := by
    have hview := hsimulates.after s events
    rw [labels_self] at hview
    exact (congrFun hview i).symm
  have hlength (i : ι) : (objectBytes store s (regions i)).length = (regions i).size := by
    rw [objectBytes, List.length_map, EepromReaderWriter.cells_length]
  constructor
  case returned =>
    rw [labels_self, List.filterMap_some] at hreturned
    exact hreturned.symm
  case objects => exact hafter events
  case bytes =>
    intro i j byte hbyte
    rw [hafter] at hbyte
    exact (getElem?_after hlength events).2 i j byte hbyte
  case outside =>
    intro a ha houtside
    refine run_induction (I := fun _ t => store.contents t a = store.contents s a) rfl ?_ events
    intro before t event h
    rw [contents_step haccepted hrestart t event ha houtside]
    exact h
  case rewritten =>
    intro i value length_eq
    rw [hafter, after_concat]
    simp [objectStep, variableStep]

end Runs

section Adjacent

/-- The log of the adapter is lost with the power. -/
def forgetLog {σ : Type} (s : σ × List (BitVec 16)) : σ × List (BitVec 16) :=
  (s.1, [])

theorem adjacentRegions_recover :
    Recovers smallStore.logged adjacentRegions forgetLog (fun _ => 255, [])
      [.cut (.write false [1, 239, 205, 171] rfl) 2, .call (.read false),
        .cut (.write true [128, 255, 1, 127] rfl) 3, .cut (.read true) 1] :=
  have haccepted (i : Bool) : (adjacentRegions i).Accepted 32767 smallStore.logged.capacity := by
    cases i <;> exact ⟨by decide, by decide, by decide⟩
  have hrestart (s : (BitVec 16 → UInt8) × List (BitVec 16)) (a : BitVec 16)
      (_ : a < smallStore.logged.capacity) :
      smallStore.logged.contents (forgetLog s) a = smallStore.logged.contents s a := rfl
  regions_recover haccepted hrestart adjacentRegions_disjoint _ _

example : returned (step smallStore.logged forgetLog) (fun _ => 255, [])
    ([.cut (.write false [1, 239, 205, 171] rfl) 2, .call (.read false), .call (.read true)] :
      List (Event adjacentRegions)) = [[1, 239, 255, 255], [255, 255, 255, 255]] := by
  decide

end Adjacent

end GrevirPeripherals.PowerLoss
