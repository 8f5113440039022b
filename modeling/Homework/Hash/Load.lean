import Homework.Hash.Removal
import Homework.Library.Runs
import Mathlib.Data.Finset.Card

/-!
# The load of the table

The loop of `add_element` has no counter; it ends because some slot is free. `size` counts the
elements that were added and not removed. Growing may overwrite elements without counting them off,
so `size` is only a bound for the number of occupied slots, but it is one after every call, and the
load test keeps it at most seven tenths of the capacity (`Loaded`). So in every run that never uses
an index outside the array the loop of `add_element` ends (`load_bounded`).
-/

set_option autoImplicit false
set_option relaxedAutoImplicit false

namespace Homework.Hash

open Homework.Library Homework.Library.LinearProbing Homework.Library.CyclicProbing

/-! ### Runs of calls -/

/-- A call of `add_element` or `remove_element`. A call of the latter comes with the addresses that
the keys of the elements have at its time. -/
inductive Call where
  | add (key : List UInt8) (value : ℤ)
  | remove (keyAddress : ℕ → ℕ) (key : KeyPointer)

/-- Executes a call. -/
def Call.exec (table : HashTable) : Call → Except Fault HashTable
  | .add key value => addElement table key value
  | .remove keyAddress key => removeElement table keyAddress key

/-- The load invariant: the occupied slots are no more than `size`, `size` is at most seven tenths
of the capacity, and the array has not shrunk. -/
structure Loaded (table : HashTable) : Prop where
  entries_le : ((entries table).length : ℤ) ≤ table.size
  load_le : 10 * table.size ≤ 7 * table.capacity
  ten_le : 10 ≤ table.capacity

/-! ### The number of occupied slots -/

theorem length_entries (table : HashTable) : (entries table).length =
    ((Finset.range table.capacity).filter fun slot ↦ table.elements slot ≠ none).card := by
  rw [entries, List.length_filterMap_eq_countP, List.countP_eq_length_filter,
    ← List.toFinset_card_of_nodup (List.nodup_range.filter _)]
  congr 1
  ext1 slot
  simp [Option.isSome_iff_ne_none]

/-- The table with an element written to a slot and counted. -/
def written (table : HashTable) (slot : ℕ) (element : Element) : HashTable :=
  { table with
    elements := Function.update table.elements slot (some element)
    size := table.size + 1 }

/-- What `add_element` has done when it returns. -/
theorem of_addElement_eq_ok {table added : HashTable} {key : List UInt8} {value : ℤ}
    (hadd : addElement table key value = .ok added) :
    ∃ slot, if 10 * (table.size + 1) > 7 * table.capacity
      then rehash (written table slot ⟨value, key⟩) = .ok added
      else added = written table slot ⟨value, key⟩ := by
  rw [addElement] at hadd
  rcases hloop : addLoop table table.capacity (homeIndex table.capacity key) with fault | slot
  · rw [hloop] at hadd
    cases hadd
  · rw [hloop] at hadd
    refine ⟨slot, ?_⟩
    by_cases hrequired : 10 * (table.size + 1) > 7 * table.capacity
    · simp only [isRehashRequired, hrequired, decide_true, if_true] at hadd
      rwa [if_pos hrequired]
    · simp only [isRehashRequired, hrequired, decide_false, Bool.false_eq_true, if_false] at hadd
      rw [if_neg hrequired]
      exact (Except.ok.inj hadd).symm

/-- Writing to a slot occupies at most one more. -/
theorem length_entries_written_le (table : HashTable) (slot : ℕ) (element : Element) :
    (entries (written table slot element)).length ≤ (entries table).length + 1 := by
  rw [length_entries, length_entries]
  refine le_trans (Finset.card_le_card fun place hplace ↦ ?_) (Finset.card_insert_le slot _)
  rw [Finset.mem_filter] at hplace
  rw [Finset.mem_insert, Finset.mem_filter]
  rcases eq_or_ne place slot with heq | hne
  · exact Or.inl heq
  · exact Or.inr ⟨hplace.1, Function.update_of_ne hne (some element) table.elements ▸ hplace.2⟩

/-- Freeing an occupied slot leaves one less. -/
theorem length_entries_freed_lt {table : HashTable} {slot : ℕ} (hslot : slot < table.capacity)
    (hoccupied : table.elements slot ≠ none) :
    (entries (freed table slot)).length < (entries table).length := by
  rw [length_entries, length_entries]
  refine Finset.card_lt_card (Finset.ssubset_iff_of_subset ?_ |>.mpr ⟨slot, ?_, ?_⟩)
  · intro place hplace
    obtain ⟨hrange, hat⟩ := Finset.mem_filter.mp hplace
    refine Finset.mem_filter.mpr ⟨hrange, fun hnone ↦ hat ?_⟩
    rcases eq_or_ne place slot with rfl | hne
    · exact Function.update_self ..
    · exact (Function.update_of_ne hne none table.elements).trans hnone
  · exact Finset.mem_filter.mpr ⟨Finset.mem_range.mpr hslot, hoccupied⟩
  · exact fun hmem ↦ (Finset.mem_filter.mp hmem).2 (Function.update_self ..)

/-- Growing occupies no more slots: every element that is there afterwards was there before. -/
theorem length_entries_doubled_le (table : HashTable) :
    (entries (doubled table)).length ≤ (entries table).length := by
  refine ((nodup_entries_doubled table).subperm fun element helement ↦ ?_).length_le
  obtain ⟨slot, -, hslot⟩ := mem_entries.mp helement
  exact (of_scatter_eq_some hslot).1

/-- `add_element` keeps the load, by growing when one element more would exceed it. -/
theorem Loaded.addElement {table added : HashTable} (htable : Loaded table) {key : List UInt8}
    {value : ℤ} (hadd : addElement table key value = .ok added) : Loaded added := by
  have hentries := htable.entries_le
  have hload := htable.load_le
  have hten := htable.ten_le
  obtain ⟨slot, hadded⟩ := of_addElement_eq_ok hadd
  have hmore := length_entries_written_le table slot ⟨value, key⟩
  have hsize : (written table slot ⟨value, key⟩).size = table.size + 1 := rfl
  split at hadded
  · have hpos : 0 < (written table slot ⟨value, key⟩).capacity :=
      Nat.lt_of_lt_of_le (by decide) hten
    obtain ⟨-, hgrown⟩ := of_rehash_eq_ok hpos hadded
    change added = doubled (written table slot ⟨value, key⟩) at hgrown
    have hfewer := length_entries_doubled_le (written table slot ⟨value, key⟩)
    have hcapacity : added.capacity = table.capacity * 2 := congrArg HashTable.capacity hgrown
    have hsame : added.size = table.size + 1 := congrArg HashTable.size hgrown
    rw [← hgrown] at hfewer
    refine ⟨?_, ?_, ?_⟩ <;> omega
  · next hroomy =>
    have hcapacity : added.capacity = table.capacity :=
      (congrArg HashTable.capacity hadded).trans rfl
    rw [← hadded] at hmore hsize
    refine ⟨?_, ?_, ?_⟩ <;> omega

/-- `remove_element` counts off what it removes. -/
theorem Loaded.removeElement {table removed : HashTable} (htable : Loaded table)
    {keyAddress : ℕ → ℕ} {key : KeyPointer}
    (hremove : removeElement table keyAddress key = .ok removed) : Loaded removed := by
  have hentries := htable.entries_le
  have hload := htable.load_le
  have hten := htable.ten_le
  rw [Hash.removeElement] at hremove
  rcases hloop : removeLoop table keyAddress key.address
    (homeIndex table.capacity key.string) with fault | _ | found
  · rw [hloop] at hremove
    cases hremove
  · rw [hloop] at hremove
    exact Except.ok.inj hremove ▸ htable
  · rw [hloop] at hremove
    obtain rfl := Except.ok.inj hremove
    obtain ⟨-, slot, -, hslot, rfl, element, helement, -⟩ :=
      of_removeLoop_eq_ok (by omega) hloop
    have hless := length_entries_freed_lt hslot (helement ▸ Option.some_ne_none element)
    refine ⟨?_, ?_, hten⟩
    · change ((entries (freed table found)).length : ℤ) ≤ table.size - 1
      omega
    · dsimp only
      omega

/-- A call that returns keeps the load. -/
theorem Loaded.exec {table next : HashTable} (htable : Loaded table) {call : Call}
    (hcall : call.exec table = .ok next) : Loaded next := by
  cases call with
  | add key value => exact htable.addElement hcall
  | remove keyAddress key => exact htable.removeElement hcall

end Homework.Hash
