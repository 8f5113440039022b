import Homework.Library.Runs
import Homework.LogParser.EntryArray

/-!
# Accumulating pairs

`add_entry` is called for one pair after another, from the empty map on. The array then holds each
key once, in the order of the first occurrences, with the sum of its deltas, and there is room
before every entry is appended (`Accumulates`). Neither `map[i]->value += delta` nor `*capacity * 2`
is protected against an overflow, so that this is the case exactly when the sums stay in the range
of `long` after every pair and there are at most 2³⁰ keys (`accumulates_iff`): the capacities are
powers of two (`Doubled`), and the one after 2³⁰ is not an `int`.
-/

set_option autoImplicit false
set_option relaxedAutoImplicit false

namespace Homework.LogParser.EntryArray

open Homework.Library Homework.Library.ByteBuffer Homework.Library.Cells Homework.Library.CString
  Homework.Library.Runs Homework.Library.Tally

/-- A key and a delta for `add_entry`. -/
abbrev Pair := List UInt8 × CLong

/-- `add_entry` for a pair. -/
def addPair (allocator : Allocator) (array : EntryArray) (pair : Pair) :
    Except MapFault EntryArray :=
  addEntry allocator array pair.1 pair.2

/-- The pairs as contributions. -/
def contributions (pairs : List Pair) : List (List UInt8 × ℤ) :=
  pairs.map fun pair ↦ (pair.1, (pair.2 : ℤ))

/-- The keys in the order of their first occurrences. -/
def distinctKeys (pairs : List Pair) : List (List UInt8) := firsts (pairs.map Prod.fst)

/-- The sum of the deltas of a key. -/
def total (pairs : List Pair) (key : List UInt8) : ℤ := (amounts (contributions pairs) key).sum

/-- The array holds each key once, with its sum. -/
structure Holds (array : EntryArray) (pairs : List Pair) : Prop where
  nodup : (distinctKeys pairs).Nodup
  size_eq : (array.size : ℤ) = (distinctKeys pairs).length
  elements_eq : (array.elements.take (distinctKeys pairs).length).map hashEntry? =
    (distinctKeys pairs).map fun key ↦ some ⟨key, total pairs key⟩

/-- What `add_entry` is to make of the pairs. -/
structure Accumulates (allocator : Allocator) (pairs : List Pair) : Prop where
  holds : ∃ array, run (addPair allocator) empty pairs = .ok array ∧ array.Holds pairs
  room : ∀ before pair, before ++ [pair] <+: pairs → pair.1 ∉ before.map Prod.fst →
    ∃ array next, run (addPair allocator) empty before = .ok array ∧
      grow allocator array = .ok next ∧ next.size.val < next.capacity.val ∧
      (next.capacity : ℤ) = next.elements.length

/-- No sum leaves the range of `long` on the way, and no capacity that of `int`. -/
structure Bounded (pairs : List Pair) : Prop where
  total : ∀ before, before <+: pairs → ∀ key, InLongRange (total before key)
  keys : (distinctKeys pairs).length ≤ 2 ^ 30

/-- The requests for memory that the pairs may lead to succeed. -/
structure Served (allocator : Allocator) (pairs : List Pair) : Prop where
  arrays : ∀ capacity : ℕ, InIntRange capacity →
    capacity ≤ max 16 (2 * (distinctKeys pairs).length) → allocator.grants (capacity * 8) = true
  entry : allocator.grants 16 = true
  keys : ∀ pair ∈ pairs, allocator.grants (pair.1.length + 1) = true

/-! ### The map of a stream -/

/-- The sums of a stream are `long`s, and it has at most 2³⁰ keys. -/
structure SumsFit (stream : List (List UInt8 × ℤ)) : Prop where
  sum : ∀ key, InLongRange (amounts stream key).sum
  keys : (firsts (stream.map Prod.fst)).length ≤ 2 ^ 30

/-- The capacities that doubling leads to: powers of two, with at least one entry in the second
half of the array. -/
structure Doubled (map : EntryMap) : Prop where
  pow : map.capacity = 0 ∨ ∃ exponent, map.capacity = 2 ^ exponent
  le : map.capacity ≤ 16 ∨ map.capacity < 2 * map.entries.length

theorem doubled_empty : Doubled EntryMap.empty :=
  ⟨Or.inl rfl, Or.inl (Nat.zero_le _)⟩

theorem Doubled.addEntry {map : EntryMap} (hdoubled : Doubled map) (key : List UInt8) (delta : ℤ) :
    Doubled (map.addEntry key delta) := by
  have hcapacity := EntryMap.capacity_addEntry map key delta
  have hkeys := congrArg List.length (EntryMap.keys_addEntry map key delta)
  have hsize := map.size_le
  have hle := hdoubled.le
  rw [EntryMap.keys, List.length_map, addKey] at hkeys
  by_cases hkey : key ∈ map.keys
  · rw [if_pos hkey] at hcapacity hkeys
    rw [EntryMap.keys, List.length_map] at hkeys
    exact ⟨hcapacity ▸ hdoubled.pow, by omega⟩
  · rw [if_neg hkey, grownCapacity] at hcapacity
    rw [if_neg hkey, List.length_append, EntryMap.keys, List.length_map,
      List.length_singleton] at hkeys
    split_ifs at hcapacity with hfull hzero
    · exact ⟨Or.inr ⟨4, hcapacity⟩, Or.inl hcapacity.le⟩
    · obtain ⟨exponent, hexponent⟩ := hdoubled.pow.resolve_left hzero
      refine ⟨Or.inr ⟨exponent + 1, ?_⟩, by omega⟩
      rw [hcapacity, hexponent, pow_succ]
    · exact ⟨hcapacity ▸ hdoubled.pow, by omega⟩

theorem Doubled.addAll {map : EntryMap} (hdoubled : Doubled map)
    (stream : List (List UInt8 × ℤ)) : Doubled (map.addAll stream) := by
  induction stream generalizing map with
  | nil => exact hdoubled
  | cons contribution rest ih => exact ih (hdoubled.addEntry contribution.1 contribution.2)

/-- A power of two that is an `int` is at most 2³⁰. -/
theorem Doubled.inIntRange_iff {map : EntryMap} (hdoubled : Doubled map) :
    InIntRange map.capacity ↔ map.entries.length ≤ 2 ^ 30 := by
  have hsize := map.size_le
  have hle := hdoubled.le
  unfold InIntRange
  constructor
  · intro hrange
    rcases hdoubled.pow with hzero | ⟨exponent, hexponent⟩
    · omega
    · have hlt : 2 ^ exponent < 2 ^ 31 := by omega
      have hexponentLt : exponent < 31 := (Nat.pow_lt_pow_iff_right (by decide)).mp hlt
      have hpow : 2 ^ exponent ≤ 2 ^ 30 := Nat.pow_le_pow_right (by decide) (by omega)
      omega
  · intro hkeys
    omega

/-- A map that comes from a stream, whatever the order in which the keys were added. -/
structure Sums (map : EntryMap) (stream : List (List UInt8 × ℤ)) : Prop where
  tally_eq : tally map.pairs = tally stream
  sum_eq : map.sum = (stream.map Prod.snd).sum
  doubled : Doubled map

theorem sums_empty : Sums EntryMap.empty [] :=
  ⟨rfl, rfl, doubled_empty⟩

section Sums

variable {map : EntryMap} {stream : List (List UInt8 × ℤ)}

/-- More contributions. -/
theorem Sums.addAll (hsums : Sums map stream) (more : List (List UInt8 × ℤ)) :
    Sums (map.addAll more) (stream ++ more) where
  tally_eq := (EntryMap.tally_addAll map more).trans (tally_append_congr hsums.tally_eq rfl)
  sum_eq := by rw [EntryMap.sum_addAll, hsums.sum_eq, List.map_append, List.sum_append]
  doubled := hsums.doubled.addAll more

/-- The entries of a second map in place of its contributions. -/
theorem Sums.mergeMaps {source : EntryMap} {more : List (List UInt8 × ℤ)}
    (hsums : Sums map stream) (hsource : Sums source more) :
    Sums (map.mergeMaps source) (stream ++ more) where
  tally_eq := (EntryMap.tally_mergeMaps map source).trans
    (tally_append_congr hsums.tally_eq hsource.tally_eq)
  sum_eq := by
    rw [EntryMap.mergeMaps_eq_addAll, EntryMap.sum_addAll, EntryMap.sum_pairs, hsums.sum_eq,
      hsource.sum_eq, List.map_append, List.sum_append]
  doubled := by
    rw [EntryMap.mergeMaps_eq_addAll]
    exact hsums.doubled.addAll _

theorem Sums.mem_keys_iff (hsums : Sums map stream) {key : List UInt8} :
    key ∈ map.keys ↔ key ∈ stream.map Prod.fst := by
  have hkeys : key ∈ map.pairs.map Prod.fst ↔ key ∈ stream.map Prod.fst :=
    mem_map_fst_iff_of_tally_eq hsums.tally_eq
  rwa [EntryMap.pairs, map_fst_map_pair] at hkeys

theorem Sums.length_entries (hsums : Sums map stream) :
    map.entries.length = (firsts (stream.map Prod.fst)).length := by
  have hperm : map.keys.Perm (firsts (stream.map Prod.fst)) :=
    (List.perm_ext_iff_of_nodup map.nodup (nodup_firsts _)).mpr fun key ↦
      hsums.mem_keys_iff.trans mem_firsts.symm
  rw [← EntryMap.length_keys, hperm.length_eq]

/-- Every key has the sum of its contributions. -/
theorem Sums.entries_eq (hsums : Sums map stream) :
    map.entries = map.keys.map fun key ↦ ⟨key, (amounts stream key).sum⟩ := by
  rw [EntryMap.entries_eq_map, EntryMap.value?_eq_tally, hsums.tally_eq]
  simp only [getD_tally]

/-- A map is in range exactly when the sums of its stream are. -/
theorem Sums.fits_iff (hsums : Sums map stream) : Fits map ↔ SumsFit stream := by
  constructor
  · intro hfits
    refine ⟨fun key ↦ ?_, ?_⟩
    · by_cases hkey : key ∈ map.keys
      · refine hfits.values ⟨key, (amounts stream key).sum⟩ ?_
        rw [hsums.entries_eq]
        exact List.mem_map_of_mem hkey
      · have hnone : amounts stream key = [] :=
          (amounts_eq_nil_iff stream key).mpr fun hmem ↦ hkey (hsums.mem_keys_iff.mpr hmem)
        rw [hnone]
        decide
    · rw [← hsums.length_entries]
      exact hsums.doubled.inIntRange_iff.mp hfits.capacity
  · intro hfit
    refine ⟨fun entry hentry ↦ ?_, ?_⟩
    · rw [hsums.entries_eq] at hentry
      obtain ⟨key, -, rfl⟩ := List.mem_map.mp hentry
      exact hfit.sum key
    · rw [hsums.doubled.inIntRange_iff, hsums.length_entries]
      exact hfit.keys

end Sums

/-! ### The map of some pairs -/

/-- The map that the pairs lead to. -/
def mapOf (pairs : List Pair) : EntryMap := EntryMap.empty.addAll (contributions pairs)

theorem mapOf_append_singleton (pairs : List Pair) (pair : Pair) :
    mapOf (pairs ++ [pair]) = (mapOf pairs).addEntry pair.1 pair.2 := by
  rw [mapOf, contributions, List.map_append, EntryMap.addAll, List.foldl_append]
  rfl

theorem keys_mapOf (pairs : List Pair) : (mapOf pairs).keys = distinctKeys pairs := by
  rw [mapOf, EntryMap.keys_addAll, contributions, List.map_map]
  rfl

theorem notMem_keys_mapOf {pairs : List Pair} {key : List UInt8}
    (hkey : key ∉ pairs.map Prod.fst) : key ∉ (mapOf pairs).keys := by
  rw [keys_mapOf, distinctKeys, mem_firsts]
  exact hkey

theorem length_entries_mapOf (pairs : List Pair) :
    (mapOf pairs).entries.length = (distinctKeys pairs).length := by
  rw [← keys_mapOf, EntryMap.keys, List.length_map]

theorem sums_mapOf (pairs : List Pair) : Sums (mapOf pairs) (contributions pairs) :=
  sums_empty.addAll (contributions pairs)

theorem entries_mapOf (pairs : List Pair) :
    (mapOf pairs).entries = (distinctKeys pairs).map fun key ↦ ⟨key, total pairs key⟩ := by
  rw [(sums_mapOf pairs).entries_eq, keys_mapOf]
  rfl

/-- More pairs have no fewer keys. -/
theorem length_distinctKeys_le {before pairs : List Pair} (hbefore : before <+: pairs) :
    (distinctKeys before).length ≤ (distinctKeys pairs).length := by
  obtain ⟨rest, rfl⟩ := hbefore
  have hkeys : distinctKeys (before ++ rest) =
      (rest.map Prod.fst).foldl addKey (distinctKeys before) := by
    rw [distinctKeys, List.map_append, firsts, List.foldl_append]
    rfl
  rw [hkeys, foldl_addKey, List.length_append]
  exact Nat.le_add_right _ _

theorem fits_mapOf_iff (pairs : List Pair) :
    Fits (mapOf pairs) ↔
      (∀ key, InLongRange (total pairs key)) ∧ (distinctKeys pairs).length ≤ 2 ^ 30 := by
  have hkeys : (contributions pairs).map Prod.fst = pairs.map Prod.fst := by
    rw [contributions, List.map_map]
    rfl
  rw [(sums_mapOf pairs).fits_iff, distinctKeys, ← hkeys]
  exact ⟨fun hfit ↦ ⟨hfit.sum, hfit.keys⟩, fun hfit ↦ ⟨hfit.1, hfit.2⟩⟩

theorem bounded_iff (pairs : List Pair) :
    Bounded pairs ↔ ∀ before, before <+: pairs → Fits (mapOf before) := by
  simp only [fits_mapOf_iff]
  constructor
  · intro hbounded before hbefore
    exact ⟨hbounded.total before hbefore, (length_distinctKeys_le hbefore).trans hbounded.keys⟩
  · intro hall
    exact ⟨fun before hbefore ↦ (hall before hbefore).1, (hall pairs List.prefix_rfl).2⟩

/-! ### The runs -/

section Runs

variable {allocator : Allocator} {pairs before : List Pair} {array : EntryArray}

/-- The requests of a call on the way succeed. -/
theorem Served.grants (hserved : Served allocator pairs) {pair : Pair}
    (hbefore : before ++ [pair] <+: pairs) : Grants allocator (mapOf before) pair.1 where
  array hrange := by
    refine hserved.arrays _ hrange ?_
    have hkeys := length_distinctKeys_le ((List.prefix_append before [pair]).trans hbefore)
    rw [← length_entries_mapOf before] at hkeys
    have hle := (sums_mapOf before).doubled.le
    have hsize := (mapOf before).size_le
    have hgrown : (mapOf before).grown.capacity =
        grownCapacity (mapOf before).entries.length (mapOf before).capacity := rfl
    rw [hgrown, grownCapacity]
    split_ifs <;> omega
  entry := hserved.entry
  key := hserved.keys pair (hbefore.subset (List.mem_append_right _ List.mem_cons_self))

/-- What pairs make of an array: the map with what they contribute, unless it is out of range at
some moment. Assumes: the requests for memory succeed. -/
theorem Represents.run_addPair {map : EntryMap} (hrep : array.Represents map)
    (hgrants : ∀ before pair, before ++ [pair] <+: pairs →
      Grants allocator (map.addAll (contributions before)) pair.1) :
    (∃ next, run (addPair allocator) array pairs = .ok next ∧
        next.Represents (map.addAll (contributions pairs)) ∧
        ∀ before, before <+: pairs → Fits (map.addAll (contributions before))) ∨
      run (addPair allocator) array pairs = .error .overflow ∧
        ∃ before, before <+: pairs ∧ ¬Fits (map.addAll (contributions before)) := by
  have hfits (state : EntryArray) (before : List Pair)
      (hstate : state.Represents (map.addAll (contributions before))) :
      Fits (map.addAll (contributions before)) := hstate.fits
  refine run_settled hfits hrep fun before pair state hbefore hstate ↦ ?_
  rw [contributions, List.map_append, EntryMap.addAll_append]
  exact hstate.addEntry (hgrants before pair hbefore)

/-- What pairs make of the empty map. Assumes: the requests for memory succeed. -/
theorem Served.run_addPair (hserved : Served allocator pairs) (hbefore : before <+: pairs) :
    (∃ array, run (addPair allocator) empty before = .ok array ∧
        array.Represents (mapOf before) ∧ ∀ earlier, earlier <+: before → Fits (mapOf earlier)) ∨
      run (addPair allocator) empty before = .error .overflow ∧
        ∃ earlier, earlier <+: before ∧ ¬Fits (mapOf earlier) :=
  represents_empty.run_addPair fun _ _ hearlier ↦ hserved.grants (hearlier.trans hbefore)

theorem Represents.holds (hrep : array.Represents (mapOf pairs)) : array.Holds pairs where
  nodup := by
    rw [← keys_mapOf]
    exact (mapOf pairs).nodup
  size_eq := by rw [hrep.size_eq, length_entries_mapOf]
  elements_eq := by
    rw [List.map_take, hrep.elements_eq, ← length_entries_mapOf,
      List.take_left' (List.length_map _), entries_mapOf, List.map_map]
    rfl

/-- Behind the entries of an array that was made larger there is room for one more. -/
theorem Represents.size_lt {map : EntryMap} (hrep : array.Represents map.grown) :
    array.size.val < array.capacity.val := by
  have hroom : map.entries.length < map.grown.capacity := size_lt_grownCapacity map.size_le
  have hsize : (array.size : ℤ) = map.entries.length := hrep.size_eq
  rw [hsize, hrep.capacity_eq]
  exact_mod_cast hroom

/-- `add_entry` accumulates the pairs exactly when nothing overflows. Assumes: the requests for
memory succeed. -/
theorem accumulates_iff (hserved : Served allocator pairs) :
    Accumulates allocator pairs ↔ Bounded pairs := by
  rw [bounded_iff]
  constructor
  · intro haccumulates
    obtain ⟨array, hrun, -⟩ := haccumulates.holds
    rcases hserved.run_addPair List.prefix_rfl with ⟨-, -, -, hall⟩ | ⟨herror, -⟩
    · exact hall
    · exact absurd (hrun.symm.trans herror) nofun
  · intro hfits
    have hall (before : List Pair) (hbefore : before <+: pairs) :
        ∃ array, run (addPair allocator) empty before = .ok array ∧
          array.Represents (mapOf before) := by
      rcases hserved.run_addPair hbefore with
        ⟨array, hrun, hrep, -⟩ | ⟨-, earlier, hearlier, hnot⟩
      · exact ⟨array, hrun, hrep⟩
      · exact absurd (hfits earlier (hearlier.trans hbefore)) hnot
    constructor
    · obtain ⟨array, hrun, hrep⟩ := hall pairs List.prefix_rfl
      exact ⟨array, hrun, hrep.holds⟩
    · intro before pair hbefore hkey
      obtain ⟨array, hrun, hrep⟩ := hall before ((List.prefix_append before [pair]).trans hbefore)
      have hcapacity := (hfits _ hbefore).capacity
      rw [mapOf_append_singleton, EntryMap.capacity_addEntry_of_notMem (notMem_keys_mapOf hkey)]
        at hcapacity
      rcases hrep.grow (hserved.grants hbefore).array with ⟨next, hgrow, hnext⟩ | ⟨-, hrange⟩
      · refine ⟨array, next, hrun, hgrow, hnext.size_lt, ?_⟩
        rw [hnext.capacity_eq, hnext.length_elements]
      · exact absurd hcapacity hrange

end Runs

/-- Requests for less than 2⁶³ bytes succeed. -/
theorem served_generous {pairs : List Pair}
    (hkeys : ∀ pair ∈ pairs, pair.1.length + 1 < 2 ^ 63) : Served generous pairs where
  arrays capacity hrange _ := by
    have hlt : capacity * 8 < 2 ^ 63 := by
      unfold InIntRange at hrange
      omega
    exact decide_eq_true hlt
  entry := by decide
  keys pair hpair := decide_eq_true (hkeys pair hpair)

/-- Two pages, one of them twice. -/
def threeRequests : List Pair :=
  [(ascii "/a", ⟨5, by decide⟩), (ascii "/b", ⟨-2, by decide⟩), (ascii "/a", ⟨7, by decide⟩)]

theorem threeRequests_accumulate :
    Accumulates generous threeRequests ↔ Bounded threeRequests :=
  accumulates_iff (served_generous (by decide))

/-- A page whose sizes do not add up to a `long`. -/
def largeRequests : List Pair :=
  [(ascii "/a", ⟨9223372036854775807, by decide⟩), (ascii "/a", ⟨1, by decide⟩)]

theorem largeRequests_overflow : Served generous largeRequests ∧
    run (addPair generous) empty largeRequests = .error .overflow ∧
    ¬Accumulates generous largeRequests := by
  have hrun : run (addPair generous) empty largeRequests = .error .overflow := by decide
  refine ⟨served_generous (by decide), hrun, fun haccumulates ↦ ?_⟩
  obtain ⟨array, hok, -⟩ := haccumulates.holds
  exact absurd (hrun.symm.trans hok) nofun

/-! ### Replaying a map -/

section Merge

variable {allocator : Allocator} {elements : List (Option EntryObject)} {source : EntryArray}
  {map : EntryMap}

theorem mergeLoop_eq {before after : List HashEntry} {back : List (Option HashEntry)}
    (helements : elements.map hashEntry? = before.map some ++ (after.map some ++ back)) :
    ∃ pairs, contributions pairs = after.map HashEntry.pair ∧
      ∀ dest, mergeLoop allocator elements after.length before.length dest =
        run (addPair allocator) dest pairs := by
  induction after generalizing before with
  | nil => exact ⟨[], rfl, fun dest ↦ rfl⟩
  | cons entry rest ih =>
    have hrest : elements.map hashEntry? =
        (before ++ [entry]).map some ++ (rest.map some ++ back) := by
      rw [helements, List.map_append, List.append_assoc]
      rfl
    obtain ⟨value, hvalue, hentry⟩ := entryAt_of_elements_eq helements
    obtain ⟨pairs, hpairs, hloop⟩ := ih hrest
    refine ⟨(entry.key, value) :: pairs, ?_, fun dest ↦ ?_⟩
    · rw [List.map_cons, ← hpairs, HashEntry.pair, ← hvalue]
      rfl
    · rw [List.length_append, List.length_singleton] at hloop
      rw [List.length_cons, mergeLoop, hentry, run, addPair]
      simp only [ok_bind, keyOf]
      rcases addEntry allocator dest entry.key value with fault | next
      · rfl
      · exact hloop next

/-- `merge_maps` calls `add_entry` for the entries of the source, one after the other. -/
theorem Represents.mergeMaps (hrep : source.Represents map) :
    ∃ pairs, contributions pairs = map.pairs ∧
      ∀ dest, mergeMaps allocator dest source = run (addPair allocator) dest pairs := by
  obtain ⟨pairs, hpairs, hloop⟩ : ∃ pairs, contributions pairs = map.entries.map HashEntry.pair ∧
      ∀ dest, mergeLoop allocator source.elements map.entries.length ([] : List HashEntry).length
        dest = run (addPair allocator) dest pairs :=
    mergeLoop_eq hrep.elements_eq
  refine ⟨pairs, hpairs, fun dest ↦ ?_⟩
  rw [EntryArray.mergeMaps, hrep.toNat_size]
  exact hloop dest

end Merge

end Homework.LogParser.EntryArray
