import Homework.Hash.Table
import Homework.Library.CyclicProbing

/-!
# What growing loses

`rehash` does not probe: it writes every element at its home in the doubled array, also when another
element is there. So what it has written is always where a search starts, and the question is only
what it has overwritten. It keeps every element exactly when no two of them have the same home in
the doubled array (`rehash_keeps_iff`).
-/

set_option autoImplicit false
set_option relaxedAutoImplicit false

namespace Homework.Hash

open Homework.Library.LinearProbing Homework.Library.CyclicProbing

/-- A grown table keeps the elements of a table: each stands in exactly one slot of the doubled
array, `size` is the number of occupied slots, and no slot on the way from its home to an element is
free. -/
structure Keeps (table grown : HashTable) : Prop where
  capacity_eq : grown.capacity = table.capacity * 2
  stored : ∀ element ∈ entries table,
    ∃! slot, slot < grown.capacity ∧ grown.elements slot = some element
  size_eq : grown.size = (entries grown).length
  occupied : ∀ slot element passed, slot < grown.capacity → grown.elements slot = some element →
    OnWay grown.capacity (homeOf grown.capacity element.key) slot passed →
      grown.elements passed ≠ none

/-- The elements of a table have different homes in an array of some capacity. -/
def HomesDiffer (table : HashTable) (capacity : ℕ) : Prop :=
  ∀ first ∈ entries table, ∀ second ∈ entries table,
    homeOf capacity first.key = homeOf capacity second.key → first = second

section Growth

variable {table : HashTable}

/-- Elements whose hash is not negative have their homes inside every array. -/
theorem homeIndex_nonneg {key : List UInt8} (hhash : 0 ≤ hashString key) (capacity : ℕ) :
    0 ≤ homeIndex capacity key :=
  Int.tmod_nonneg _ hhash

/-- A table in which no element stands twice lists no element twice. -/
theorem nodup_entries (honce : ∀ slot slot' element, table.elements slot = some element →
    table.elements slot' = some element → slot = slot') : (entries table).Nodup := by
  refine List.Nodup.filterMap ?_ List.nodup_range
  exact fun slot slot' element hslot hslot' ↦ honce slot slot' element hslot hslot'

/-- The table with a doubled array in which every element is written at its home. -/
def doubled (table : HashTable) : HashTable :=
  { table with
    capacity := table.capacity * 2
    elements := scatter Element.key (homeOf (table.capacity * 2)) (entries table) }

/-- `rehash` writes every element at its home. Assumes: no hash is negative. -/
theorem rehash_eq_doubled (hcapacity : 0 < table.capacity)
    (hhash : ∀ element ∈ entries table, 0 ≤ hashString element.key) :
    rehash table = .ok (doubled table) :=
  rehash_eq_ok hcapacity fun element helement ↦ homeIndex_nonneg (hhash element helement) _

/-- If `rehash` keeps every element, their new homes differ. -/
theorem homesDiffer_of_keeps {grown : HashTable}
    (hhash : ∀ element ∈ entries table, 0 ≤ hashString element.key)
    (hgrown : rehash table = .ok grown) (hkeeps : Keeps table grown) :
    HomesDiffer table (table.capacity * 2) := by
  intro first hfirst second hsecond hhome
  obtain ⟨slot, hslot, -⟩ := mem_entries.mp hfirst
  rw [rehash_eq_doubled (Nat.zero_lt_of_lt hslot) hhash] at hgrown
  obtain rfl := Except.ok.inj hgrown
  obtain ⟨place, ⟨-, hplace⟩, -⟩ := hkeeps.stored first hfirst
  obtain ⟨place', ⟨-, hplace'⟩, -⟩ := hkeeps.stored second hsecond
  have hsame : place = place' := by
    rw [(of_scatter_eq_some hplace).2, (of_scatter_eq_some hplace').2, hhome]
  rw [← hsame] at hplace'
  exact Option.some.inj (hplace.symm.trans hplace')

/-- Every element of the doubled table stands in one slot, its home. -/
theorem nodup_entries_doubled (table : HashTable) : (entries (doubled table)).Nodup := by
  refine nodup_entries fun slot slot' element hslot hslot' ↦ ?_
  rw [(of_scatter_eq_some hslot).2, (of_scatter_eq_some hslot').2]

/-- If the new homes differ, the doubled table has the same elements. -/
theorem mem_entries_doubled (hcapacity : 0 < table.capacity)
    (hhomes : HomesDiffer table (table.capacity * 2)) {element : Element} :
    element ∈ entries (doubled table) ↔ element ∈ entries table := by
  have hdouble : 0 < table.capacity * 2 := Nat.mul_pos hcapacity Nat.two_pos
  rw [mem_entries]
  constructor
  · rintro ⟨slot, -, hslot⟩
    exact (of_scatter_eq_some hslot).1
  · intro helement
    exact ⟨_, homeOf_lt hdouble element.key, scatter_eq_some hhomes helement⟩

/-- If the new homes differ, the doubled table keeps every element. -/
theorem keeps_of_homesDiffer (hcapacity : 0 < table.capacity) (hentries : (entries table).Nodup)
    (hsize : table.size = (entries table).length)
    (hhomes : HomesDiffer table (table.capacity * 2)) : Keeps table (doubled table) where
  capacity_eq := rfl
  stored element helement := by
    have hdouble : 0 < table.capacity * 2 := Nat.mul_pos hcapacity Nat.two_pos
    refine ⟨homeOf (table.capacity * 2) element.key, ⟨homeOf_lt hdouble _, ?_⟩, ?_⟩
    · exact scatter_eq_some hhomes helement
    · exact fun slot hslot ↦ (of_scatter_eq_some hslot.2).2
  size_eq := by
    have hperm := (List.perm_ext_iff_of_nodup (nodup_entries_doubled table) hentries).mpr
      fun element ↦ mem_entries_doubled hcapacity hhomes
    rw [hperm.length_eq]
    exact hsize
  occupied slot element passed _ helement hway := by
    have hplace : homeOf (doubled table).capacity element.key = slot :=
      (of_scatter_eq_some helement).2.symm
    rw [hplace] at hway
    exact absurd hway (not_onWay_self _ slot passed)

/-- Growing loses nothing exactly when no two elements have the same home in the doubled array.
Assumes: the keys are distinct, no hash is negative, and `size` is the number of occupied slots. -/
theorem rehash_keeps_iff (hkeys : ((entries table).map Element.key).Nodup)
    (hhash : ∀ element ∈ entries table, 0 ≤ hashString element.key)
    (hsize : table.size = (entries table).length) :
    (∃ grown, rehash table = .ok grown ∧ Keeps table grown) ↔
      HomesDiffer table (table.capacity * 2) := by
  constructor
  · rintro ⟨grown, hgrown, hkeeps⟩
    exact homesDiffer_of_keeps hhash hgrown hkeeps
  · intro hhomes
    rcases Nat.eq_zero_or_pos table.capacity with hzero | hpos
    · have hnone : entries table = [] := by rw [entries, hzero]; rfl
      refine ⟨table, if_pos hzero, ?_, ?_, hsize, ?_⟩
      · rw [hzero]
      · rw [hnone]
        exact fun element helement ↦ absurd helement List.not_mem_nil
      · rw [hzero]
        exact fun slot element passed hslot ↦ absurd hslot (Nat.not_lt_zero slot)
    · exact ⟨_, rehash_eq_doubled hpos hhash,
        keeps_of_homesDiffer hpos hkeys.of_map hsize hhomes⟩

end Growth

/-! ### Small tables -/

/-- A table of ten slots with one word. -/
def oneWord (slot : ℕ) (key : List UInt8) : HashTable :=
  ⟨Function.update (fun _ ↦ none) slot (some ⟨1, key⟩), 10, 1⟩

theorem of_oneWord {slot place : ℕ} {key : List UInt8} {element : Element}
    (hat : (oneWord slot key).elements place = some element) :
    place = slot ∧ element = ⟨1, key⟩ := by
  change Function.update (fun _ ↦ none) slot (some ⟨1, key⟩) place = some element at hat
  rcases update_eq_some_iff.mp hat with hnew | ⟨-, hold⟩
  · exact hnew
  · cases hold

/-- The table of the words with the letters a, u, b, c, d, e, f and g, at the call of `rehash`. -/
def eightWords : HashTable where
  elements slot := ([none, some ⟨1, [97]⟩, some ⟨1, [117]⟩, some ⟨1, [98]⟩, some ⟨1, [99]⟩,
    some ⟨1, [100]⟩, some ⟨1, [101]⟩, some ⟨1, [102]⟩, some ⟨1, [103]⟩]).getD slot none
  capacity := 10
  size := 8

/-- The words a and u have the same home in twenty slots, so one of them is lost. -/
theorem eightWords_not_kept : ((entries eightWords).map Element.key).Nodup ∧
    (∀ element ∈ entries eightWords, 0 ≤ hashString element.key) ∧
    eightWords.size = (entries eightWords).length ∧
    10 * eightWords.size ≤ 7 * (2 * eightWords.capacity) ∧
    ¬∃ grown, rehash eightWords = .ok grown ∧ Keeps eightWords grown := by
  have hhash : ∀ element ∈ entries eightWords, 0 ≤ hashString element.key := by decide
  refine ⟨by decide, hhash, rfl, by decide, ?_⟩
  rintro ⟨grown, hgrown, hkeeps⟩
  have hhomes := homesDiffer_of_keeps hhash hgrown hkeeps
  exact absurd (hhomes ⟨1, [97]⟩ (by decide) ⟨1, [117]⟩ (by decide) (by decide)) (by decide)

/-- A single word is kept. -/
theorem oneWord_kept :
    ∃ grown, rehash (oneWord 1 [97]) = .ok grown ∧ Keeps (oneWord 1 [97]) grown := by
  refine (rehash_keeps_iff (by decide) (by decide) rfl).mpr fun first hfirst second hsecond _ ↦ ?_
  obtain ⟨_, -, hat⟩ := mem_entries.mp hfirst
  obtain ⟨_, -, hat'⟩ := mem_entries.mp hsecond
  rw [(of_oneWord hat).2, (of_oneWord hat').2]

end Homework.Hash
