import Homework.Library.Cells
import Homework.Library.CInt
import Homework.LogParser.Statistics

/-!
# The array of a map

`add_entry` works on an array of pointers that `realloc` makes larger, with the size and the
capacity in two `int`s and a `long` in each entry. Here every access is checked against the array,
every sum against its type, and every request for memory may fail. Nothing in the source checks any
of this.

An array represents an `EntryMap` (`Represents`) whose values and capacity are in range (`Fits`). On
such an array `add_entry` does what it does on the map, and it overflows exactly when the result on
the map is out of range (`Represents.addEntry`).
-/

set_option autoImplicit false
set_option relaxedAutoImplicit false

namespace Homework.LogParser

open Homework.Library Homework.Library.ByteBuffer Homework.Library.Cells

/-- A signed overflow, an access outside the array, the use of an element that was never written,
or the use of a null pointer. -/
inductive MapFault where
  | overflow
  | outside
  | unwritten
  | null
deriving DecidableEq, Repr

/-- A result that is stored in an `int` or a `long`. -/
def stored {A : Type} : Except Overflow A → Except MapFault A :=
  Except.mapError fun _ ↦ .overflow

/-- The object that an element of the array points to. The key is a null pointer if `strdup`
failed. -/
structure EntryObject where
  key : Option (List UInt8)
  value : CLong
deriving DecidableEq

/-- A map of the program: the array, the size and the capacity. -/
structure EntryArray where
  elements : List (Option EntryObject)
  size : CInt
  capacity : CInt
deriving DecidableEq

namespace EntryArray

/-- The map of `calloc` and of `{0}`. -/
def empty : EntryArray := ⟨[], ⟨0, inIntRange_zero⟩, ⟨0, inIntRange_zero⟩⟩

section Source

/-- The object that `map[i]` points to. -/
def entryAt (elements : List (Option EntryObject)) (i : ℕ) : Except MapFault EntryObject :=
  match elements[i]? with
  | none => .error .outside
  | some none => .error .unwritten
  | some (some entry) => .ok entry

/-- A key that is handed to `strcmp` or to `strdup`. -/
def keyOf (entry : EntryObject) : Except MapFault (List UInt8) :=
  match entry.key with
  | none => .error .null
  | some key => .ok key

/-- The loop of `add_entry` from `i` on, with the array if it has added to a value. -/
def searchLoop (elements : List (Option EntryObject)) (key : List UInt8) (delta : CLong) :
    ℕ → ℕ → Except MapFault (Option (List (Option EntryObject)))
  | 0, _ => return none
  | remaining + 1, i => do
    let entry ← entryAt elements i
    let held ← keyOf entry
    if held = key then
      let value ← stored (checkedLong (entry.value + delta))
      return some (elements.set i (some { entry with value }))
    else searchLoop elements key delta remaining (i + 1)

variable (allocator : Allocator)

/-- The array that `realloc` gives, with elements of 8 bytes. -/
def reallocate (elements : List (Option EntryObject)) (capacity : CInt) :
    List (Option EntryObject) :=
  let bytes := ((capacity : ℤ) * 8 % 2 ^ 64).toNat
  if allocator.grants bytes then
    elements.take (bytes / 8) ++ List.replicate (bytes / 8 - elements.length) none
  else []

/-- The capacity after a full array was found. -/
def newCapacity (capacity : CInt) : Except MapFault CInt :=
  if capacity.val = 0 then .ok ⟨16, by decide⟩ else stored (checked (capacity * 2))

/-- What `add_entry` does before it appends an entry. -/
def grow (array : EntryArray) : Except MapFault EntryArray :=
  if array.size.val ≥ array.capacity.val then do
    let capacity ← newCapacity array.capacity
    return { array with elements := reallocate allocator array.elements capacity, capacity }
  else return array

/-- `map[index] = entry`. -/
def storeAt (elements : List (Option EntryObject)) (index : ℤ) (entry : EntryObject) :
    Except MapFault (List (Option EntryObject)) :=
  if 0 ≤ index ∧ index < elements.length then .ok (elements.set index.toNat (some entry))
  else .error .outside

/-- What `add_entry` does from the `malloc` of an entry on. -/
def append (array : EntryArray) (key : List UInt8) (delta : CLong) :
    Except MapFault EntryArray :=
  if allocator.grants 16 then do
    let entry := ⟨if allocator.grants (key.length + 1) then some key else none, delta⟩
    let elements ← storeAt array.elements array.size entry
    let size ← stored (checked (array.size + 1))
    return { array with elements, size }
  else .error .null

/-- `add_entry`. -/
def addEntry (array : EntryArray) (key : List UInt8) (delta : CLong) :
    Except MapFault EntryArray := do
  match ← searchLoop array.elements key delta array.size.val.toNat 0 with
  | some elements => return { array with elements }
  | none =>
    let grown ← grow allocator array
    append allocator grown key delta

/-- The loop of `merge_maps` from `i` on. -/
def mergeLoop (source : List (Option EntryObject)) :
    ℕ → ℕ → EntryArray → Except MapFault EntryArray
  | 0, _, dest => return dest
  | remaining + 1, i, dest => do
    let entry ← entryAt source i
    let key ← keyOf entry
    let dest ← addEntry allocator dest key entry.value
    mergeLoop source remaining (i + 1) dest

/-- `merge_maps`. -/
def mergeMaps (dest source : EntryArray) : Except MapFault EntryArray :=
  mergeLoop allocator source.elements source.size.val.toNat 0 dest

end Source

/-! ### What an array represents -/

/-- The entry that an element stands for. -/
def hashEntry? (element : Option EntryObject) : Option HashEntry :=
  element.bind fun entry ↦ entry.key.map fun key ↦ ⟨key, entry.value⟩

/-- The array holds the entries of a map, and nothing behind them. -/
structure Represents (array : EntryArray) (map : EntryMap) : Prop where
  elements_eq : array.elements.map hashEntry? =
    map.entries.map some ++ List.replicate (map.capacity - map.entries.length) none
  size_eq : (array.size : ℤ) = map.entries.length
  capacity_eq : (array.capacity : ℤ) = map.capacity

/-- The values are in the range of `long`, and the capacity in that of `int`. -/
structure Fits (map : EntryMap) : Prop where
  values : ∀ entry ∈ map.entries, InLongRange entry.value
  capacity : InIntRange map.capacity

/-- A value that a key has is in range. -/
theorem Fits.values_of_value? {map : EntryMap} (hfits : Fits map) {key : List UInt8} {value : ℤ}
    (hvalue : map.value? key = some value) : InLongRange value := by
  obtain ⟨pair, hpair, rfl⟩ := Option.map_eq_some_iff.mp hvalue
  obtain ⟨entry, hentry, rfl⟩ := List.mem_map.mp (List.mem_of_find?_eq_some hpair)
  exact hfits.values entry hentry

theorem represents_empty : empty.Represents EntryMap.empty :=
  ⟨rfl, rfl, rfl⟩

theorem stored_checked_of_inRange {value : ℤ} (hrange : InIntRange value) :
    stored (checked value) = .ok ⟨value, hrange⟩ := by
  rw [checked_of_inRange hrange]
  rfl

theorem stored_checked_of_not_inRange {value : ℤ} (hrange : ¬InIntRange value) :
    stored (checked value) = .error .overflow := by
  rw [checked, dif_neg hrange]
  rfl

theorem stored_checkedLong_of_inRange {value : ℤ} (hrange : InLongRange value) :
    stored (checkedLong value) = .ok ⟨value, hrange⟩ := by
  rw [checkedLong_of_inRange hrange]
  rfl

theorem stored_checkedLong_of_not_inRange {value : ℤ} (hrange : ¬InLongRange value) :
    stored (checkedLong value) = .error .overflow := by
  rw [checkedLong, dif_neg hrange]
  rfl

section Search

variable {elements : List (Option EntryObject)} {before after : List HashEntry}
  {entry : HashEntry} {back : List (Option HashEntry)}

/-- An element that stands for an entry can be used. -/
theorem entryAt_of_elements_eq
    (helements : elements.map hashEntry? = before.map some ++ some entry :: back) :
    ∃ value : CLong, (value : ℤ) = entry.value ∧
      entryAt elements before.length = .ok ⟨some entry.key, value⟩ := by
  have hat : (elements.map hashEntry?)[before.length]? = some (some entry) := by
    rw [helements, List.getElem?_append_right (List.length_map _).le, List.length_map,
      Nat.sub_self]
    rfl
  rw [List.getElem?_map, Option.map_eq_some_iff] at hat
  obtain ⟨element, helement, hentry⟩ := hat
  obtain ⟨object, rfl, hobject⟩ := Option.bind_eq_some_iff.mp hentry
  obtain ⟨key, hkey, rfl⟩ := Option.map_eq_some_iff.mp hobject
  refine ⟨object.value, rfl, ?_⟩
  rw [entryAt, helement, ← hkey]

/-- An element that is stored to stands for the entry that is stored. -/
theorem map_set_of_elements_eq {old : Option HashEntry} (key : List UInt8) (value : CLong)
    (helements : elements.map hashEntry? = before.map some ++ old :: back) :
    (elements.set before.length (some ⟨some key, value⟩)).map hashEntry? =
      before.map some ++ some ⟨key, value⟩ :: back := by
  rw [List.map_set, helements, List.set_append_right _ _ (List.length_map _).le, List.length_map,
    Nat.sub_self, List.set_cons_zero]
  rfl

/-- The loop goes past the entries with other keys. -/
theorem searchLoop_append {key : List UInt8} {delta : CLong} {middle : List HashEntry}
    (hkey : key ∉ middle.map HashEntry.key)
    (helements : elements.map hashEntry? = before.map some ++ (middle.map some ++ back))
    (remaining : ℕ) :
    searchLoop elements key delta (middle.length + remaining) before.length =
      searchLoop elements key delta remaining (before.length + middle.length) := by
  induction middle generalizing before with
  | nil => rw [List.length_nil, Nat.zero_add, Nat.add_zero]
  | cons entry rest ih =>
    rw [List.map_cons, List.mem_cons, not_or] at hkey
    have hrest : elements.map hashEntry? =
        (before ++ [entry]).map some ++ (rest.map some ++ back) := by
      rw [helements, List.map_append, List.append_assoc]
      rfl
    obtain ⟨value, -, hentry⟩ := entryAt_of_elements_eq helements
    have hlater := ih hkey.2 hrest
    rw [List.length_append, List.length_singleton] at hlater
    rw [List.length_cons, Nat.add_right_comm, searchLoop, hentry]
    simp only [ok_bind, keyOf, if_neg (Ne.symm hkey.1), hlater]
    rw [Nat.add_assoc, Nat.add_comm 1]

/-- The loop finds nothing if no entry has the key. -/
theorem searchLoop_of_notMem {key : List UInt8} {delta : CLong}
    (hkey : key ∉ before.map HashEntry.key)
    (helements : elements.map hashEntry? = before.map some ++ back) :
    searchLoop elements key delta before.length 0 = .ok none := by
  have hpast : searchLoop elements key delta (before.length + 0) ([] : List HashEntry).length =
      searchLoop elements key delta 0 (([] : List HashEntry).length + before.length) :=
    searchLoop_append hkey helements 0
  rw [Nat.add_zero, List.length_nil] at hpast
  rw [hpast, searchLoop]
  rfl

/-- The loop adds to the value of the first entry with the key. -/
theorem searchLoop_of_split {delta : CLong} (hkey : entry.key ∉ before.map HashEntry.key)
    (helements : elements.map hashEntry? = before.map some ++ some entry :: back)
    (remaining : ℕ) :
    searchLoop elements entry.key delta (before.length + (remaining + 1)) 0 =
      (stored (checkedLong (entry.value + delta))).map fun value ↦
        some (elements.set before.length (some ⟨some entry.key, value⟩)) := by
  have hpast : searchLoop elements entry.key delta (before.length + (remaining + 1))
        ([] : List HashEntry).length =
      searchLoop elements entry.key delta (remaining + 1)
        (([] : List HashEntry).length + before.length) :=
    searchLoop_append hkey helements (remaining + 1)
  rw [List.length_nil, Nat.zero_add] at hpast
  obtain ⟨value, hvalue, hentry⟩ := entryAt_of_elements_eq helements
  rw [hpast, searchLoop, hentry, ← hvalue]
  simp only [ok_bind, keyOf, if_pos]
  rcases stored (checkedLong (value + delta)) with fault | sum
  · rfl
  · rfl

end Search

/-- The entries up to the first one with a key. -/
theorem exists_split {map : EntryMap} {key : List UInt8} (hkey : key ∈ map.keys) :
    ∃ before entry after, map.entries = before ++ entry :: after ∧ entry.key = key ∧
      key ∉ before.map HashEntry.key := by
  obtain ⟨keys, later, hkeys, hnew⟩ := List.eq_append_cons_of_mem hkey
  obtain ⟨before, rest, hentries, rfl, hrest⟩ := List.map_eq_append_iff.mp hkeys
  obtain ⟨entry, after, rfl, hentry, -⟩ := List.map_eq_cons_iff.mp hrest
  exact ⟨before, entry, after, hentries, hentry, hnew⟩

/-! ### One call -/

section Step

variable {allocator : Allocator} {array : EntryArray} {map : EntryMap} {key : List UInt8}
  {delta : CLong}

theorem Represents.fits (hrep : array.Represents map) : Fits map where
  values entry hentry := by
    have hmem : some entry ∈ array.elements.map hashEntry? := by
      rw [hrep.elements_eq]
      exact List.mem_append_left _ (List.mem_map_of_mem hentry)
    obtain ⟨element, -, helement⟩ := List.mem_map.mp hmem
    obtain ⟨object, rfl, hobject⟩ := Option.bind_eq_some_iff.mp helement
    obtain ⟨key, -, rfl⟩ := Option.map_eq_some_iff.mp hobject
    exact object.value.2
  capacity := hrep.capacity_eq ▸ array.capacity.2

theorem Represents.length_elements (hrep : array.Represents map) :
    array.elements.length = map.capacity := by
  have hlength := congrArg List.length hrep.elements_eq
  rw [List.length_map, List.length_append, List.length_map, List.length_replicate] at hlength
  have hsize := map.size_le
  omega

theorem Represents.toNat_size (hrep : array.Represents map) :
    (array.size : ℤ).toNat = map.entries.length := by
  rw [hrep.size_eq, Int.toNat_natCast]

/-- A key that is there. -/
theorem Represents.addEntry_of_mem (hrep : array.Represents map) (hkey : key ∈ map.keys) :
    (∃ next, addEntry allocator array key delta = .ok next ∧
        next.Represents (map.addEntry key delta)) ∨
      addEntry allocator array key delta = .error .overflow ∧
        ¬Fits (map.addEntry key delta) := by
  obtain ⟨before, entry, after, hentries, rfl, hnew⟩ := exists_split hkey
  have hcapacity := EntryMap.capacity_addEntry map entry.key delta
  rw [if_pos hkey] at hcapacity
  have hadded := EntryMap.entries_addEntry map entry.key delta
  rw [hentries, addToEntry_append_cons hnew, Option.getD_some] at hadded
  have helements := hrep.elements_eq
  rw [hentries, List.map_append, List.map_cons, List.append_assoc, List.cons_append] at helements
  rw [addEntry, hrep.toNat_size, hentries, List.length_append, List.length_cons,
    searchLoop_of_split hnew helements after.length]
  have hsize : (before ++ ⟨entry.key, entry.value + delta⟩ :: after).length =
      (before ++ entry :: after).length := by
    rw [List.length_append, List.length_append, List.length_cons, List.length_cons]
  by_cases hrange : InLongRange (entry.value + delta)
  · refine Or.inl ⟨_, by rw [stored_checkedLong_of_inRange hrange]; rfl, ?_, ?_, ?_⟩
    · rw [map_set_of_elements_eq _ _ helements, hadded, hcapacity, hsize, List.map_append,
        List.append_assoc]
      rfl
    · rw [hadded, hsize, ← hentries]
      exact hrep.size_eq
    · rw [hcapacity]
      exact hrep.capacity_eq
  · refine Or.inr ⟨?_, fun hfits ↦ hrange (hfits.values ⟨entry.key, entry.value + delta⟩ ?_)⟩
    · rw [stored_checkedLong_of_not_inRange hrange]
      rfl
    · rw [hadded]
      exact List.mem_append_right _ List.mem_cons_self

/-- The elements that `realloc` gives. Assumes: it succeeds. -/
theorem reallocate_eq {elements : List (Option EntryObject)} {capacity : CInt} {room : ℕ}
    (hcapacity : (capacity : ℤ) = room) (hgrants : allocator.grants (room * 8) = true)
    (hlength : elements.length ≤ room) :
    reallocate allocator elements capacity =
      elements ++ List.replicate (room - elements.length) none := by
  have hbytes : ((capacity : ℤ) * 8 % 2 ^ 64).toNat = room * 8 := by
    have hlt := allocator.lt_of_grants _ hgrants
    rw [hcapacity]
    omega
  simp only [reallocate, hbytes, if_pos hgrants, Nat.mul_div_cancel room (by decide : 0 < 8),
    List.take_of_length_le hlength]

/-- The new capacity of a full array. -/
theorem Represents.newCapacity_eq (hrep : array.Represents map)
    (hfull : map.entries.length ≥ map.capacity) :
    newCapacity array.capacity = stored (checked (map.grown.capacity : ℤ)) := by
  have hgrown : map.grown.capacity = if map.capacity = 0 then 16 else map.capacity * 2 :=
    if_pos hfull
  rw [hgrown, newCapacity]
  by_cases hzero : map.capacity = 0
  · have harray : array.capacity.val = 0 := by rw [hrep.capacity_eq, hzero]; rfl
    rw [if_pos harray, if_pos hzero]
    rfl
  · have harray : array.capacity.val ≠ 0 := by rw [hrep.capacity_eq]; omega
    rw [if_neg harray, if_neg hzero, hrep.capacity_eq, Nat.cast_mul]
    rfl

/-- The requests that a call makes for a new key succeed. -/
structure Grants (allocator : Allocator) (map : EntryMap) (key : List UInt8) : Prop where
  array : InIntRange map.grown.capacity → allocator.grants (map.grown.capacity * 8) = true
  entry : allocator.grants 16 = true
  key : allocator.grants (key.length + 1) = true

/-- A full array is made larger, if the capacity stays in the range of `int`. Assumes: the request
succeeds. -/
theorem Represents.grow (hrep : array.Represents map)
    (hgrants : InIntRange map.grown.capacity → allocator.grants (map.grown.capacity * 8) = true) :
    (∃ next, grow allocator array = .ok next ∧ next.Represents map.grown) ∨
      grow allocator array = .error .overflow ∧ ¬InIntRange map.grown.capacity := by
  have hsize := hrep.size_eq
  have hcapacity := hrep.capacity_eq
  have hlength := hrep.length_elements
  have hroom : map.entries.length < map.grown.capacity := size_lt_grownCapacity map.size_le
  have hentries := map.size_le
  by_cases hfull : map.entries.length ≥ map.capacity
  · have hge : array.size.val ≥ array.capacity.val := by omega
    rw [EntryArray.grow, if_pos hge, hrep.newCapacity_eq hfull]
    by_cases hrange : InIntRange map.grown.capacity
    · refine Or.inl ⟨⟨reallocate allocator array.elements ⟨_, hrange⟩, array.size, ⟨_, hrange⟩⟩,
        by rw [stored_checked_of_inRange hrange]; rfl, ?_, hsize, rfl⟩
      have hlarger : array.elements.length ≤ map.grown.capacity := by omega
      rw [reallocate_eq rfl (hgrants hrange) hlarger, List.map_append, hrep.elements_eq,
        List.map_replicate, hlength, Nat.sub_eq_zero_of_le hfull, List.replicate_zero,
        List.append_nil, le_antisymm hfull map.size_le]
      rfl
    · refine Or.inr ⟨?_, hrange⟩
      rw [stored_checked_of_not_inRange hrange]
      rfl
  · have hlt : ¬array.size.val ≥ array.capacity.val := by omega
    have hgrown : map.grown.capacity = map.capacity := if_neg hfull
    refine Or.inl ⟨array, by rw [EntryArray.grow, if_neg hlt]; rfl, ?_, hsize, ?_⟩
    · rw [hgrown]
      exact hrep.elements_eq
    · rw [hgrown]
      exact hcapacity

/-- A new key takes the first element that is free. Assumes: the requests succeed. -/
theorem Represents.append (hrep : array.Represents map.grown) (hkey : key ∉ map.keys)
    (hgrants : Grants allocator map key) :
    ∃ next, append allocator array key delta = .ok next ∧
      next.Represents (map.addEntry key delta) := by
  have hroom : map.entries.length < map.grown.capacity := size_lt_grownCapacity map.size_le
  have hnone := (addToEntry_eq_none_iff key delta map.entries).mpr hkey
  have hadded := EntryMap.entries_addEntry map key delta
  rw [hnone, Option.getD_none] at hadded
  have hcapacity : (map.addEntry key delta).capacity = map.grown.capacity :=
    EntryMap.capacity_addEntry_of_notMem hkey
  have hsize : (array.size : ℤ) = map.entries.length := hrep.size_eq
  have hinside : 0 ≤ (array.size : ℤ) ∧ (array.size : ℤ) < array.elements.length := by
    rw [hrep.length_elements]
    omega
  have hrange : InIntRange (array.size + 1) := by
    have hbound := array.capacity.2.2
    rw [hrep.capacity_eq] at hbound
    unfold InIntRange
    omega
  have hindex : (array.size : ℤ).toNat = map.entries.length := hrep.toNat_size
  refine ⟨⟨array.elements.set map.entries.length (some ⟨some key, delta⟩), ⟨_, hrange⟩,
    array.capacity⟩, ?_, ?_, ?_, ?_⟩
  · simp only [EntryArray.append, if_pos hgrants.entry, if_pos hgrants.key, storeAt,
      if_pos hinside, ok_bind, stored_checked_of_inRange hrange, hindex]
    rfl
  · have helements : array.elements.map hashEntry? = map.entries.map some ++
        List.replicate (map.grown.capacity - map.entries.length) none := hrep.elements_eq
    obtain ⟨free, hfree⟩ : ∃ free, map.grown.capacity - map.entries.length = free + 1 :=
      Nat.exists_eq_add_one.mpr (Nat.sub_pos_of_lt hroom)
    have hlater : map.grown.capacity - (map.entries.length + 1) = free := by omega
    rw [hfree, List.replicate_succ] at helements
    rw [map_set_of_elements_eq _ _ helements, hadded, hcapacity, List.length_append,
      List.length_singleton, hlater, List.map_append, List.append_assoc]
    rfl
  · have hnext : (array.size : ℤ) + 1 = (map.entries.length + 1 : ℕ) := by
      rw [hsize]
      rfl
    rw [hadded, List.length_append, List.length_singleton]
    exact hnext
  · rw [hcapacity]
    exact hrep.capacity_eq

/-- A key that is not there. Assumes: the requests succeed. -/
theorem Represents.addEntry_of_notMem (hrep : array.Represents map) (hkey : key ∉ map.keys)
    (hgrants : Grants allocator map key) :
    (∃ next, addEntry allocator array key delta = .ok next ∧
        next.Represents (map.addEntry key delta)) ∨
      addEntry allocator array key delta = .error .overflow ∧
        ¬Fits (map.addEntry key delta) := by
  rw [addEntry, hrep.toNat_size, searchLoop_of_notMem hkey hrep.elements_eq]
  simp only [ok_bind]
  rcases hrep.grow hgrants.array with ⟨grown, hgrown, hgrownRep⟩ | ⟨hgrown, hrange⟩
  · refine Or.inl ?_
    rw [hgrown]
    exact hgrownRep.append hkey hgrants
  · refine Or.inr ⟨by rw [hgrown]; rfl, fun hfits ↦ hrange ?_⟩
    rw [← EntryMap.capacity_addEntry_of_notMem hkey]
    exact hfits.capacity

/-- `add_entry` does on an array what it does on the map, unless the result is out of range.
Assumes: the requests for memory succeed. -/
theorem Represents.addEntry (hrep : array.Represents map) (hgrants : Grants allocator map key) :
    (∃ next, addEntry allocator array key delta = .ok next ∧
        next.Represents (map.addEntry key delta)) ∨
      addEntry allocator array key delta = .error .overflow ∧
        ¬Fits (map.addEntry key delta) := by
  by_cases hkey : key ∈ map.keys
  · exact hrep.addEntry_of_mem hkey
  · exact hrep.addEntry_of_notMem hkey hgrants

end Step

end EntryArray

end Homework.LogParser
