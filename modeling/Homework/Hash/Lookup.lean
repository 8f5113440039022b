import Homework.Hash.Growth

/-!
# Insertion and lookup

`add_element` walks the array cyclically, so an element can stand in front of its home, behind a
cluster that reaches the end of the array. In a table where every element stands where
`add_element` puts it (`WellPlaced`), `add_element` finds a slot and keeps the table so as long as
the array does not grow (`WellPlaced.addElement`).

`get_element` walks in the same direction but not around the end. So it gives the right answer
exactly when it has a reason to stop before the end: a free slot or the key itself, at or behind the
home of the key (`getElement_agrees_iff`).
-/

set_option autoImplicit false
set_option relaxedAutoImplicit false

namespace Homework.Hash

open Homework.Library.LinearProbing Homework.Library.CyclicProbing

/-- The element with a key stands in a slot. -/
def StandsIn (table : HashTable) (key : List UInt8) (slot : ℕ) : Prop :=
  slot < table.capacity ∧ ∃ element, table.elements slot = some element ∧ element.key = key

/-- The table has a free slot. -/
def HasRoom (table : HashTable) : Prop := ∃ slot, slot < table.capacity ∧ table.elements slot = none

/-- Every element stands where the cyclic walk of `add_element` puts it, and the keys are
distinct. -/
structure WellPlaced (table : HashTable) : Prop where
  home_nonneg : ∀ element ∈ entries table, 0 ≤ homeIndex table.capacity element.key
  placed : Placed Element.key (homeOf table.capacity) table.capacity table.elements

/-- `get_element` looks only at slots of the array and returns the element with the key if there is
one, and `NULL` otherwise. -/
def LookupAgrees (table : HashTable) (key : List UInt8) : Prop :=
  ∃ result, getElement table key = .ok result ∧
    ∀ slot, result = some slot ↔ StandsIn table key slot

/-! ### Insertion -/

theorem wellPlaced_initTable : WellPlaced initTable where
  home_nonneg element helement := by
    obtain ⟨slot, -, hslot⟩ := mem_entries.mp helement
    cases hslot
  placed := placed_empty

/-- The loop of `add_element` seeks a free slot cyclically. -/
theorem addLoop_eq_seek {table : HashTable} {index : ℕ} (hindex : index < table.capacity)
    (rounds : ℕ) : addLoop table rounds index =
      match seek table.capacity table.elements rounds index with
      | some slot => .ok slot
      | none => .error .endless := by
  induction rounds generalizing index with
  | zero => rfl
  | succ rounds ih =>
    have hpos : 0 < table.capacity := Nat.zero_lt_of_lt hindex
    have hinside : 0 ≤ (index : ℤ) ∧ (index : ℤ) < table.capacity :=
      ⟨Int.natCast_nonneg index, Int.ofNat_lt.mpr hindex⟩
    rw [addLoop, if_pos hinside, Int.toNat_natCast, seek]
    rcases table.elements index with _ | element
    · rfl
    · have hnext : ((index : ℤ) + 1).tmod table.capacity = ((index + 1) % table.capacity : ℕ) :=
        (Int.ofNat_tmod (index + 1) table.capacity).symm
      simp only [hnext]
      exact ih (Nat.mod_lt _ hpos)

/-- In a table with a free slot `add_element` finds one. Assumes: the home index of the key is not
negative. -/
theorem exists_addLoop_eq_ok {table : HashTable} {key : List UInt8} (hroom : HasRoom table)
    (hhome : 0 ≤ homeIndex table.capacity key) :
    ∃ slot, addLoop table table.capacity (homeIndex table.capacity key) = .ok slot ∧
      seek table.capacity table.elements table.capacity (homeOf table.capacity key) =
        some slot := by
  have ⟨free, hfree, _⟩ := hroom
  have hindex := homeOf_lt (Nat.zero_lt_of_lt hfree) key
  obtain ⟨slot, hseek⟩ := exists_seek hindex hroom
  refine ⟨slot, ?_, hseek⟩
  rw [← natCast_homeOf hhome, addLoop_eq_seek hindex, hseek]

/-- `add_element` stores a new key where its own walk ends, which keeps the table well placed.
Assumes: the table has a free slot, and the array does not grow. -/
theorem WellPlaced.addElement {table : HashTable} (htable : WellPlaced table)
    (hroom : HasRoom table) {key : List UInt8} (hhome : 0 ≤ homeIndex table.capacity key)
    (hnew : ¬ Holds Element.key table.capacity table.elements key)
    (hload : 10 * (table.size + 1) ≤ 7 * table.capacity) (value : ℤ) :
    ∃ added, addElement table key value = .ok added ∧ WellPlaced added ∧
      added.capacity = table.capacity := by
  obtain ⟨slot, hloop, hseek⟩ := exists_addLoop_eq_ok hroom hhome
  obtain ⟨free, hfree, -⟩ := hroom
  have hindex := homeOf_lt (Nat.zero_lt_of_lt hfree) key
  refine ⟨{ table with
    elements := Function.update table.elements slot (some ⟨value, key⟩)
    size := table.size + 1 }, ?_, ⟨fun element helement ↦ ?_, ?_⟩, rfl⟩
  · rw [Hash.addElement, hloop]
    have hrequired : ¬ 10 * (table.size + 1) > 7 * table.capacity := not_lt.mpr hload
    simp only [isRehashRequired, hrequired, decide_false, Bool.false_eq_true, if_false]
  · obtain ⟨place, hplace, hat⟩ := mem_entries.mp helement
    rcases update_eq_some_iff.mp hat with ⟨-, rfl⟩ | ⟨-, hold⟩
    · exact hhome
    · exact htable.home_nonneg element (mem_entries.mpr ⟨place, hplace, hold⟩)
  · exact htable.placed.insert ⟨value, key⟩ hindex hnew hseek

/-! ### Lookup -/

section Lookup

variable {table : HashTable} (htable : WellPlaced table) {key : List UInt8}
include htable

/-- At most one slot holds a key. -/
theorem WellPlaced.standsIn_unique {slot slot' : ℕ} (hslot : StandsIn table key slot)
    (hslot' : StandsIn table key slot') : slot = slot' := by
  obtain ⟨hlt, element, helement, hkey⟩ := hslot
  obtain ⟨hlt', element', helement', hkey'⟩ := hslot'
  exact htable.placed.distinct hlt hlt' helement helement' (hkey.trans hkey'.symm)

/-- `get_element` gives the right answer when its search stops before the end of the array. -/
theorem WellPlaced.lookupAgrees (hhash : 0 ≤ hashString key)
    (hstops : ∃ slot, homeOf table.capacity key ≤ slot ∧ slot < table.capacity ∧
      ∀ element, table.elements slot = some element → element.key = key) :
    LookupAgrees table key := by
  obtain ⟨stop, hfrom, hstop, hreason⟩ := hstops
  unfold LookupAgrees
  rw [getElement_eq (Nat.zero_lt_of_lt hstop) (homeIndex_nonneg hhash _)]
  rcases hprobe : probe Element.key table.capacity table.elements key
    (homeOf table.capacity key) with place | place | _
  · have hstands : StandsIn table key place := (of_probe_eq_found hprobe).2
    refine ⟨some place, rfl, fun slot ↦ ⟨fun hslot ↦ ?_, fun hslot ↦ ?_⟩⟩
    · exact Option.some.inj hslot ▸ hstands
    · rw [htable.standsIn_unique hstands hslot]
  · have hnone := htable.placed.not_holds_of_probe_eq_free hprobe
    refine ⟨none, rfl, fun slot ↦ ⟨fun hslot ↦ absurd hslot nofun, fun hslot ↦ ?_⟩⟩
    obtain ⟨hlt, element, helement, hkey⟩ := hslot
    exact absurd ⟨slot, element, hlt, helement, hkey⟩ hnone
  · -- every slot from the home on holds another key, also the one that the search stops at
    obtain ⟨element, helement, hne⟩ := of_probe_eq_off hprobe stop hfrom hstop
    exact absurd (hreason element helement) hne

/-- `get_element` finds what stands behind its home. -/
theorem WellPlaced.getElement_eq_some {slot : ℕ}
    (hhome : 0 ≤ homeIndex table.capacity key) (hfrom : homeOf table.capacity key ≤ slot)
    (hslot : StandsIn table key slot) : getElement table key = .ok (some slot) := by
  obtain ⟨hlt, element, helement, rfl⟩ := hslot
  rw [getElement_eq (Nat.zero_lt_of_lt hlt) hhome, htable.placed.probe_eq_found hlt helement hfrom]
  rfl

end Lookup

/-- What `get_element` has found stands behind the home. -/
theorem of_getElement_eq_some {table : HashTable} {key : List UInt8} {slot : ℕ}
    (hcapacity : 0 < table.capacity) (hget : getElement table key = .ok (some slot)) :
    0 ≤ homeIndex table.capacity key ∧ homeOf table.capacity key ≤ slot ∧
      StandsIn table key slot := by
  have hhome : 0 ≤ homeIndex table.capacity key := by
    by_contra hneg
    rw [getElement_of_neg (not_le.mp hneg)] at hget
    cases hget
  rw [getElement_eq hcapacity hhome] at hget
  rcases hprobe : probe Element.key table.capacity table.elements key
    (homeOf table.capacity key) with place | place | _
  · rw [hprobe] at hget
    obtain rfl := Option.some.inj (Except.ok.inj hget)
    exact ⟨hhome, of_probe_eq_found hprobe⟩
  · rw [hprobe] at hget
    cases hget
  · rw [hprobe] at hget
    cases hget

/-- When every slot from the home on holds another key, `get_element` leaves the array. -/
theorem getElement_eq_error {table : HashTable} {key : List UInt8} (hcapacity : 0 < table.capacity)
    (hhash : 0 ≤ hashString key)
    (hforeign : Foreign Element.key table.elements key (homeOf table.capacity key)
      table.capacity) : getElement table key = .error (.slot table.capacity) := by
  rw [getElement_eq hcapacity (homeIndex_nonneg hhash _), probe_eq_off_iff.mpr hforeign]
  rfl

/-- Lookup agrees with insertion exactly when some slot from the home of the key to the end of the
array is free or holds the key. Assumes: the table is well placed and has a free slot, and the hash
of the key is not negative. -/
theorem getElement_agrees_iff {table : HashTable} (htable : WellPlaced table)
    (hroom : HasRoom table) {key : List UInt8} (hhash : 0 ≤ hashString key) :
    LookupAgrees table key ↔
      ∃ slot, homeOf table.capacity key ≤ slot ∧ slot < table.capacity ∧
        ∀ element, table.elements slot = some element → element.key = key := by
  refine ⟨fun hagrees ↦ ?_, htable.lookupAgrees hhash⟩
  by_contra hnever
  have hforeign : Foreign Element.key table.elements key (homeOf table.capacity key)
      table.capacity := by
    intro slot hfrom hslot
    by_contra hother
    refine hnever ⟨slot, hfrom, hslot, fun element helement ↦ ?_⟩
    by_contra hne
    exact hother ⟨element, helement, hne⟩
  obtain ⟨free, hfree, -⟩ := hroom
  obtain ⟨result, hresult, -⟩ := hagrees
  rw [getElement_eq_error (Nat.zero_lt_of_lt hfree) hhash hforeign] at hresult
  cases hresult

/-! ### A cluster at the end of the array -/

theorem hasRoom_oneWord {slot : ℕ} (hslot : slot ≠ 0) (key : List UInt8) :
    HasRoom (oneWord slot key) := by
  refine ⟨0, Nat.zero_lt_succ 9, ?_⟩
  simp only [oneWord, Function.update_of_ne hslot.symm]

theorem wellPlaced_oneWord {slot : ℕ} {key : List UInt8} (hhome : homeIndex 10 key = slot) :
    WellPlaced (oneWord slot key) := by
  refine ⟨fun element helement ↦ ?_, ⟨fun {place entry passed} _ hat hway ↦ ?_, ?_⟩⟩
  · obtain ⟨_, -, hat⟩ := mem_entries.mp helement
    rw [(of_oneWord hat).2]
    exact hhome ▸ Int.natCast_nonneg slot
  · obtain ⟨rfl, rfl⟩ := of_oneWord hat
    have hself : homeOf (oneWord place key).capacity key = place :=
      (congrArg Int.toNat hhome).trans (Int.toNat_natCast place)
    rw [hself] at hway
    exact absurd hway (not_onWay_self _ _ passed)
  · intro place place' entry entry' _ _ hat hat' _
    exact (of_oneWord hat).1.trans (of_oneWord hat').1.symm

/-- The table of the words i and s, which have the last slot as their home. -/
def wrappedTable : HashTable :=
  ⟨Function.update (oneWord 9 [105]).elements 0 (some ⟨1, [115]⟩), 10, 2⟩

theorem wellPlaced_wrappedTable : WellPlaced wrappedTable := by
  have hhome : homeIndex (oneWord 9 [105]).capacity [115] = 9 := by decide
  have hnew : ¬ Holds Element.key (oneWord 9 [105]).capacity (oneWord 9 [105]).elements [115] := by
    rintro ⟨place, element, -, hat, hkey⟩
    rw [(of_oneWord hat).2] at hkey
    exact absurd hkey (by decide)
  obtain ⟨added, hadded, hplaced, -⟩ := (wellPlaced_oneWord (by decide)).addElement
    (hasRoom_oneWord (by decide) [105]) (hhome ▸ by decide) hnew (by decide) 1
  have hsame : addElement (oneWord 9 [105]) [115] 1 = .ok wrappedTable := by
    rw [addElement, hhome]
    rfl
  exact Except.ok.inj (hadded.symm.trans hsame) ▸ hplaced

/-- A single word is found. -/
theorem oneWord_agrees : LookupAgrees (oneWord 9 [105]) [105] :=
  (getElement_agrees_iff (wellPlaced_oneWord (by decide)) (hasRoom_oneWord (by decide) [105])
    (by decide)).mpr ⟨9, by decide, by decide, fun _ hat ↦ by rw [(of_oneWord hat).2]⟩

/-- The word s stands in the first slot, and the search for it leaves the array. -/
theorem wrappedTable_not_agrees : WellPlaced wrappedTable ∧ HasRoom wrappedTable ∧
    0 ≤ hashString [115] ∧ StandsIn wrappedTable [115] 0 ∧ ¬ LookupAgrees wrappedTable [115] := by
  have hhome : homeOf wrappedTable.capacity [115] = 9 := by decide
  have hhash : 0 ≤ hashString [115] := by decide
  refine ⟨wellPlaced_wrappedTable, ⟨1, by decide, rfl⟩, hhash, ⟨by decide, _, rfl, rfl⟩, ?_⟩
  have hforeign : Foreign Element.key wrappedTable.elements [115]
      (homeOf wrappedTable.capacity [115]) wrappedTable.capacity := by
    rw [hhome]
    intro slot hfrom hslot
    have hlast : slot = 9 := le_antisymm (Nat.le_of_lt_succ hslot) hfrom
    exact hlast ▸ ⟨⟨1, [105]⟩, rfl, by decide⟩
  rintro ⟨result, hresult, -⟩
  rw [getElement_eq_error (by decide) hhash hforeign] at hresult
  cases hresult

end Homework.Hash
