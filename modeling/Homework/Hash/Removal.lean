import Homework.Hash.Lookup

/-!
# What removal needs

`remove_element` compares the pointer it is given with the addresses of the keys in the elements,
not the strings. So it recognises an element only when the caller passes the key of that very
element. It walks like `get_element`, without going around the end of the array, and it frees the
slot without moving any element behind it.

In memory the elements have keys at different addresses, and a pointer to the key of an element
points to its string (`Memory`). On a well placed table `remove_element` does what it should for a
key that is not there exactly when its walk ends at a free slot, and for a key that is there exactly
when the pointer is the element's own, the element is not in front of its home, and its slot is on
the way of no other element (`removeElement_removes_iff`).
-/

set_option autoImplicit false
set_option relaxedAutoImplicit false

namespace Homework.Hash

open Homework.Library.LinearProbing Homework.Library.CyclicProbing

/-! ### `remove_element` -/

/-- A `const char *`: where it points, and the string there. -/
structure KeyPointer where
  address : ℕ
  string : List UInt8

/-- The loop of `remove_element` from an index on. The array `key` of the element in a slot has the
address `keyAddress slot`. Gives the slot of the element, or nothing for `NULL`. -/
def removeLoop (table : HashTable) (keyAddress : ℕ → ℕ) (address : ℕ) (hash : ℤ) :
    Except Fault (Option ℕ) :=
  if 0 ≤ hash ∧ hash < table.capacity then
    match table.elements hash.toNat with
    | none => .ok none
    | some _ =>
      if keyAddress hash.toNat = address then .ok (some hash.toNat)
      else removeLoop table keyAddress address (hash + 1)
  else .error (.slot hash)
termination_by (table.capacity - hash).toNat
decreasing_by omega

/-- `remove_element`. -/
def removeElement (table : HashTable) (keyAddress : ℕ → ℕ) (key : KeyPointer) :
    Except Fault HashTable :=
  match removeLoop table keyAddress key.address (homeIndex table.capacity key.string) with
  | .error fault => .error fault
  | .ok none => .ok table
  | .ok (some hash) =>
    .ok { table with
      elements := Function.update table.elements hash none
      size := table.size - 1 }

/-- The elements of a table with the addresses of their keys. -/
def located (table : HashTable) (keyAddress : ℕ → ℕ) (slot : ℕ) : Option (ℕ × Element) :=
  (table.elements slot).map fun element ↦ (keyAddress slot, element)

theorem located_eq_some_iff {table : HashTable} {keyAddress : ℕ → ℕ} {slot : ℕ}
    {entry : ℕ × Element} : located table keyAddress slot = some entry ↔
      table.elements slot = some entry.2 ∧ entry.1 = keyAddress slot := by
  rw [located, Option.map_eq_some_iff]
  constructor
  · rintro ⟨element, helement, rfl⟩
    exact ⟨helement, rfl⟩
  · rintro ⟨helement, haddress⟩
    exact ⟨entry.2, helement, Prod.ext haddress.symm rfl⟩

/-- Inside the array, the loop of `remove_element` is the search of the library for an address. -/
theorem removeLoop_eq (table : HashTable) (keyAddress : ℕ → ℕ) (address : ℕ) {index : ℕ}
    (hindex : index ≤ table.capacity) : removeLoop table keyAddress address index =
      ofProbe table.capacity
        (probe Prod.fst table.capacity (located table keyAddress) address index) := by
  refine loop_eq_ofProbe (fun index hlt hnone ↦ ?_) (fun index entry hlt hentry ↦ ?_) ?_ hindex
  · have hfree : table.elements index = none := Option.map_eq_none_iff.mp hnone
    rw [removeLoop, if_pos (index_inside hlt), Int.toNat_natCast, hfree]
  · obtain ⟨helement, haddress⟩ := located_eq_some_iff.mp hentry
    rw [removeLoop, if_pos (index_inside hlt), Int.toNat_natCast, helement, haddress]
  · rw [removeLoop, if_neg fun hinside ↦ lt_irrefl _ hinside.2]

/-- The walk of `remove_element`, for a key whose home index is not negative. -/
theorem removeLoop_home {table : HashTable} {key : List UInt8} (hcapacity : 0 < table.capacity)
    (hhome : 0 ≤ homeIndex table.capacity key) (keyAddress : ℕ → ℕ) (address : ℕ) :
    removeLoop table keyAddress address (homeIndex table.capacity key) =
      ofProbe table.capacity (probe Prod.fst table.capacity (located table keyAddress) address
        (homeOf table.capacity key)) := by
  rw [← natCast_homeOf hhome, removeLoop_eq table keyAddress address (homeOf_lt hcapacity key).le]

/-- What the walk of `remove_element` has seen when it returns. -/
theorem of_removeLoop_eq_ok {table : HashTable} {keyAddress : ℕ → ℕ} {key : KeyPointer}
    {result : Option ℕ} (hcapacity : 0 < table.capacity)
    (hloop : removeLoop table keyAddress key.address (homeIndex table.capacity key.string) =
      .ok result) :
    0 ≤ homeIndex table.capacity key.string ∧ ∃ slot,
      homeOf table.capacity key.string ≤ slot ∧ slot < table.capacity ∧
        match result with
        | none => table.elements slot = none
        | some found => found = slot ∧
            ∃ element, table.elements slot = some element ∧ keyAddress slot = key.address := by
  have hhome : 0 ≤ homeIndex table.capacity key.string := by
    by_contra hneg
    rw [removeLoop, if_neg fun hinside ↦ hneg hinside.1] at hloop
    cases hloop
  refine ⟨hhome, ?_⟩
  rw [removeLoop_home hcapacity hhome] at hloop
  rcases hprobe : probe Prod.fst table.capacity (located table keyAddress) key.address
    (homeOf table.capacity key.string) with slot | slot | _
  · rw [hprobe] at hloop
    obtain rfl := Except.ok.inj hloop
    obtain ⟨hfrom, hslot, entry, hentry, haddress⟩ := of_probe_eq_found hprobe
    obtain ⟨helement, hsame⟩ := located_eq_some_iff.mp hentry
    exact ⟨slot, hfrom, hslot, rfl, entry.2, helement, hsame.symm.trans haddress⟩
  · rw [hprobe] at hloop
    obtain rfl := Except.ok.inj hloop
    obtain ⟨hfrom, hslot, hfree, -⟩ := of_probe_eq_free hprobe
    exact ⟨slot, hfrom, hslot, Option.map_eq_none_iff.mp hfree⟩
  · rw [hprobe] at hloop
    cases hloop

/-! ### What removal should do -/

/-- Where the keys of the elements are in memory, seen from a pointer. -/
structure Memory (table : HashTable) (key : KeyPointer) where
  keyAddress : ℕ → ℕ
  distinct : ∀ {slot slot' element element'}, slot < table.capacity → slot' < table.capacity →
    table.elements slot = some element → table.elements slot' = some element' →
      keyAddress slot = keyAddress slot' → slot = slot'
  coherent : ∀ {slot element}, slot < table.capacity → table.elements slot = some element →
    keyAddress slot = key.address → element.key = key.string

/-- Exactly the element with the key is removed, if there is one, and the table stays well placed,
so that every other key that was found is found in the same slot. -/
structure Removes (table removed : HashTable) (key : List UInt8) : Prop where
  capacity_eq : removed.capacity = table.capacity
  gone : ∀ slot, ¬ StandsIn removed key slot
  size_of_present : (∃ slot, StandsIn table key slot) → removed.size = table.size - 1
  size_of_absent : (¬∃ slot, StandsIn table key slot) → removed.size = table.size
  kept : ∀ slot element, slot < table.capacity → table.elements slot = some element →
    element.key ≠ key → removed.elements slot = some element
  wellPlaced : WellPlaced removed
  found : ∀ other slot, other ≠ key → getElement table other = .ok (some slot) →
    getElement removed other = .ok (some slot)

/-- `remove_element` looks only at slots of the array and removes the key. -/
def RemovesKey (table : HashTable) (key : KeyPointer) (memory : Memory table key) : Prop :=
  ∃ removed, removeElement table memory.keyAddress key = .ok removed ∧
    Removes table removed key.string

/-- A slot is on the way of no element in another slot. -/
def OnNoWay (table : HashTable) (slot : ℕ) : Prop :=
  ∀ place element, place < table.capacity → place ≠ slot → table.elements place = some element →
    ¬ OnWay table.capacity (homeOf table.capacity element.key) place slot

/-- When `remove_element` is in order. -/
def Removable (table : HashTable) (key : KeyPointer) (memory : Memory table key) : Prop :=
  ((¬∃ slot, StandsIn table key.string slot) ∧ 0 ≤ homeIndex table.capacity key.string ∧
      ∃ slot, homeOf table.capacity key.string ≤ slot ∧ slot < table.capacity ∧
        table.elements slot = none) ∨
    ∃ slot, StandsIn table key.string slot ∧ memory.keyAddress slot = key.address ∧
      homeOf table.capacity key.string ≤ slot ∧ OnNoWay table slot

/-! ### Freeing a slot -/

/-- The table with a slot freed. -/
def freed (table : HashTable) (slot : ℕ) : HashTable :=
  { table with
    elements := Function.update table.elements slot none
    size := table.size - 1 }

section Freed

variable {table : HashTable} (htable : WellPlaced table)
include htable

/-- Freeing a slot keeps the table well placed exactly when the slot is on no way. -/
theorem WellPlaced.wellPlaced_freed_iff (slot : ℕ) :
    WellPlaced (freed table slot) ↔ OnNoWay table slot := by
  constructor
  · exact fun hfreed ↦ (htable.placed.placed_erase_iff slot).mp hfreed.placed
  · intro hway
    refine ⟨fun element helement ↦ ?_, (htable.placed.placed_erase_iff slot).mpr hway⟩
    obtain ⟨place, hplace, hat⟩ := mem_entries.mp helement
    have hold := (update_none_eq_some_iff.mp hat).2
    exact htable.home_nonneg element (mem_entries.mpr ⟨place, hplace, hold⟩)

/-- Freeing the slot of a key removes the key. Assumes: the slot is on no way. -/
theorem WellPlaced.removes_freed {key : List UInt8} {slot : ℕ} (hslot : StandsIn table key slot)
    (hway : OnNoWay table slot) : Removes table (freed table slot) key := by
  have hfreed := (htable.wellPlaced_freed_iff slot).mpr hway
  have hkept : ∀ place element, place < table.capacity → table.elements place = some element →
      element.key ≠ key → (freed table slot).elements place = some element := by
    intro place element hplace helement hne
    refine update_none_eq_some_iff.mpr ⟨?_, helement⟩
    rintro rfl
    obtain ⟨-, other, hother, hkey⟩ := hslot
    rw [helement] at hother
    exact hne (Option.some.inj hother ▸ hkey)
  refine ⟨rfl, ?_, fun _ ↦ rfl, fun habsent ↦ absurd ⟨slot, hslot⟩ habsent, hkept, hfreed, ?_⟩
  · rintro place ⟨hplace, element, hat, hkey⟩
    obtain ⟨hne, helement⟩ := update_none_eq_some_iff.mp hat
    exact hne (htable.standsIn_unique ⟨hplace, element, helement, hkey⟩ hslot)
  · intro other place hne hget
    have hpos := Nat.zero_lt_of_lt hslot.1
    obtain ⟨hhome, hfrom, hlt, element, helement, rfl⟩ := of_getElement_eq_some hpos hget
    exact hfreed.getElement_eq_some hhome hfrom
      ⟨hlt, element, hkept place element hlt helement hne, rfl⟩

/-- Leaving the table as it is removes a key that is not there. -/
theorem WellPlaced.removes_self {key : List UInt8} (habsent : ¬∃ slot, StandsIn table key slot) :
    Removes table table key where
  capacity_eq := rfl
  gone slot hslot := habsent ⟨slot, hslot⟩
  size_of_present hpresent := absurd hpresent habsent
  size_of_absent _ := rfl
  kept _ _ _ helement _ := helement
  wellPlaced := htable
  found _ _ _ hget := hget

end Freed

/-! ### The walk -/

section Walk

variable {table : HashTable} {key : KeyPointer} (memory : Memory table key)

/-- The walk for a key that is not there ends at a free slot, if it comes to one. -/
theorem removeElement_of_absent (habsent : ¬∃ slot, StandsIn table key.string slot)
    (hhome : 0 ≤ homeIndex table.capacity key.string)
    (hstops : ∃ slot, homeOf table.capacity key.string ≤ slot ∧ slot < table.capacity ∧
      table.elements slot = none) : removeElement table memory.keyAddress key = .ok table := by
  obtain ⟨stop, hfrom, hstop, hnone⟩ := hstops
  rw [removeElement, removeLoop_home (Nat.zero_lt_of_lt hstop) hhome]
  rcases hprobe : probe Prod.fst table.capacity (located table memory.keyAddress) key.address
    (homeOf table.capacity key.string) with place | place | _
  · obtain ⟨-, hplace, entry, hentry, hsame⟩ := of_probe_eq_found hprobe
    obtain ⟨helement, haddress⟩ := located_eq_some_iff.mp hentry
    have hkey := memory.coherent hplace helement (haddress.symm.trans hsame)
    exact absurd ⟨place, hplace, entry.2, helement, hkey⟩ habsent
  · rfl
  · obtain ⟨entry, hentry, -⟩ := of_probe_eq_off hprobe stop hfrom hstop
    rw [(located_eq_some_iff.mp hentry).1] at hnone
    cases hnone

/-- The walk for the address of a key behind its home ends at the element, since no free slot and no
other key with the address is on the way. -/
theorem WellPlaced.removeElement_of_present (htable : WellPlaced table) {slot : ℕ}
    (hslot : StandsIn table key.string slot) (haddress : memory.keyAddress slot = key.address)
    (hfrom : homeOf table.capacity key.string ≤ slot) :
    removeElement table memory.keyAddress key = .ok (freed table slot) := by
  obtain ⟨hlt, element, helement, hkey⟩ := hslot
  have hhome : 0 ≤ homeIndex table.capacity key.string :=
    hkey ▸ htable.home_nonneg element (mem_entries.mpr ⟨slot, hlt, helement⟩)
  have hlocated : located table memory.keyAddress slot = some (key.address, element) :=
    located_eq_some_iff.mpr ⟨helement, haddress.symm⟩
  have hforeign : Foreign Prod.fst (located table memory.keyAddress) key.address
      (homeOf table.capacity key.string) slot := by
    intro passed hfirst hlast
    have hoccupied := htable.placed.occupied_of_home_le hlt helement (hkey ▸ hfrom) passed
      (hkey ▸ hfirst) hlast
    obtain ⟨other, hother⟩ := Option.ne_none_iff_exists'.mp hoccupied
    refine ⟨(memory.keyAddress passed, other), located_eq_some_iff.mpr ⟨hother, rfl⟩, ?_⟩
    exact fun hsame ↦ hlast.ne
      (memory.distinct (hlast.trans hlt) hlt hother helement (hsame.trans haddress.symm))
  have hprobe := hforeign.probe_eq_found hlocated hlt hfrom
  rw [removeElement, removeLoop_home (Nat.zero_lt_of_lt hlt) hhome, hprobe]
  rfl

end Walk

/-! ### When removal is in order -/

section Removal

variable {table : HashTable} (htable : WellPlaced table) {key : KeyPointer}
  (memory : Memory table key)
include htable

theorem WellPlaced.removesKey (hremovable : Removable table key memory) :
    RemovesKey table key memory := by
  rcases hremovable with ⟨habsent, hhome, hstops⟩ | ⟨slot, hslot, haddress, hfrom, hway⟩
  · exact ⟨table, removeElement_of_absent memory habsent hhome hstops, htable.removes_self habsent⟩
  · exact ⟨freed table slot, htable.removeElement_of_present memory hslot haddress hfrom,
      htable.removes_freed hslot hway⟩

/-- Removal is in order exactly for a key that is not there and whose walk ends at a free slot in
front of the end of the array, and for a key that is there if the pointer is the element's own, the
element is not in front of its home, and its slot is on the way of no other element. Assumes: the
table is well placed and has a free slot. -/
theorem removeElement_removes_iff (hroom : HasRoom table) :
    RemovesKey table key memory ↔ Removable table key memory := by
  refine ⟨fun hremoves ↦ ?_, htable.removesKey memory⟩
  obtain ⟨removed, hremove, hspec⟩ := hremoves
  obtain ⟨free, hfree, -⟩ := hroom
  rw [removeElement] at hremove
  rcases hloop : removeLoop table memory.keyAddress key.address
    (homeIndex table.capacity key.string) with fault | _ | found
  · rw [hloop] at hremove
    cases hremove
  · rw [hloop] at hremove
    obtain rfl := Except.ok.inj hremove
    obtain ⟨hhome, hwalk⟩ := of_removeLoop_eq_ok (Nat.zero_lt_of_lt hfree) hloop
    exact Or.inl ⟨fun ⟨slot, hslot⟩ ↦ hspec.gone slot hslot, hhome, hwalk⟩
  · rw [hloop] at hremove
    obtain rfl := Except.ok.inj hremove
    obtain ⟨-, slot, hfrom, hslot, rfl, element, helement, haddress⟩ :=
      of_removeLoop_eq_ok (Nat.zero_lt_of_lt hfree) hloop
    have hkey := memory.coherent hslot helement haddress
    exact Or.inr ⟨found, ⟨hslot, element, helement, hkey⟩, haddress, hfrom,
      (htable.wellPlaced_freed_iff found).mp hspec.wellPlaced⟩

end Removal

/-! ### A table of one word -/

/-- The memory of the table of the word a, with the key of the element at 1000, seen from a pointer
to the text a. -/
def letterMemory (address : ℕ) : Memory (oneWord 1 [97]) ⟨address, [97]⟩ where
  keyAddress _ := 1000
  distinct _ _ hat hat' _ := (of_oneWord hat).1.trans (of_oneWord hat').1.symm
  coherent _ hat _ := by rw [(of_oneWord hat).2]

/-- The word is removed by the pointer that the element holds. -/
theorem letter_removed : RemovesKey (oneWord 1 [97]) ⟨1000, [97]⟩ (letterMemory 1000) := by
  have hroom : HasRoom (oneWord 1 [97]) := hasRoom_oneWord (by decide) [97]
  refine (removeElement_removes_iff (wellPlaced_oneWord (by decide)) _ hroom).mpr (Or.inr ?_)
  exact ⟨1, ⟨by decide, _, rfl, rfl⟩, rfl, by decide, fun _ _ _ hne hat ↦
    absurd (of_oneWord hat).1 hne⟩

/-- The word is not removed by another pointer to its text. -/
theorem letter_not_removed :
    WellPlaced (oneWord 1 [97]) ∧ HasRoom (oneWord 1 [97]) ∧ StandsIn (oneWord 1 [97]) [97] 1 ∧
      ¬ RemovesKey (oneWord 1 [97]) ⟨0, [97]⟩ (letterMemory 0) := by
  have hstands : StandsIn (oneWord 1 [97]) [97] 1 := ⟨by decide, _, rfl, rfl⟩
  refine ⟨wellPlaced_oneWord (by decide), hasRoom_oneWord (by decide) [97], hstands, ?_⟩
  rintro ⟨removed, hremove, hspec⟩
  have hhome : homeIndex (oneWord 1 [97]).capacity [97] = 1 := by decide
  have hloop : removeLoop (oneWord 1 [97]) (letterMemory 0).keyAddress
      (KeyPointer.mk 0 [97]).address 1 = .ok none := by
    rw [removeLoop, removeLoop]
    rfl
  rw [removeElement, hhome, hloop] at hremove
  obtain rfl := Except.ok.inj hremove
  exact hspec.gone 1 hstands

end Homework.Hash
