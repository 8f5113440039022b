import Homework.Library.Tally
import Mathlib.Algebra.Ring.Int.Defs
import Mathlib.Data.List.Nodup

/-!
# The statistics of the log parser

A thread of the log parser collects a `ThreadStats`: the bytes transferred, a map from urls to bytes
and a map from referers to counts. A map is an array of entries searched from the front;
`add_entry` adds to the value of a key that is there and appends an entry otherwise, doubling the
array when it is full.

`EntryMap` carries what `add_entry` keeps: the entries fit in the array, and no key stands twice.
With distinct keys a map reads as the tally of its entries (`EntryMap.value?_eq_tally`), `add_entry`
adds one contribution to the tally (`EntryMap.tally_addEntry`), and `merge_maps` adds the entries of
the source (`EntryMap.tally_mergeMaps`).

`LogRecord` says what one line contributes, and `ThreadStats.Represents` that the statistics are the
totals of a list of records. Two statistics of the same records in any order are the same totals and
the same finite maps (`ThreadStats.Represents.sameStatistics_of_perm`).
-/

set_option autoImplicit false
set_option relaxedAutoImplicit false

namespace Homework.LogParser

open Homework.Library.Tally

/-! ### The entry maps -/

/-- An entry of a map. The key is a C string, given by the bytes before its terminating zero. The
value is an integer; `EntryObject` has the `long` of the program. -/
structure HashEntry where
  key : List UInt8
  value : ℤ
deriving DecidableEq, Repr

/-- The entry as a contribution. -/
def HashEntry.pair (entry : HashEntry) : List UInt8 × ℤ := (entry.key, entry.value)

/-- The search loop of `add_entry`: adds to the value of the first entry with the key. -/
def addToEntry (key : List UInt8) (delta : ℤ) : List HashEntry → Option (List HashEntry)
  | [] => none
  | entry :: rest =>
    if entry.key = key then some ({ entry with value := entry.value + delta } :: rest)
    else (addToEntry key delta rest).map (entry :: ·)

/-- The search loop adds to the value of a key in an association list. -/
theorem bump_map_pair (key : List UInt8) (delta : ℤ) (entries : List HashEntry) :
    bump key delta (entries.map HashEntry.pair) =
      (addToEntry key delta entries).map (List.map HashEntry.pair) := by
  induction entries with
  | nil => rfl
  | cons entry rest ih =>
    rw [List.map_cons, bump, addToEntry]
    split_ifs with hentry hpair hpair
    · rfl
    · exact absurd hentry hpair
    · exact absurd hpair hentry
    · rw [ih, Option.map_map, Option.map_map]
      rfl

theorem map_fst_map_pair (entries : List HashEntry) :
    (entries.map HashEntry.pair).map Prod.fst = entries.map HashEntry.key := by
  rw [List.map_map]
  rfl

/-- The search loop changes no key. -/
theorem map_key_of_addToEntry {key : List UInt8} {delta : ℤ} {entries found : List HashEntry}
    (hfound : addToEntry key delta entries = some found) :
    found.map HashEntry.key = entries.map HashEntry.key := by
  rw [← map_fst_map_pair, ← map_fst_map_pair]
  apply map_fst_of_bump
  rw [bump_map_pair, hfound, Option.map_some]

/-- The search loop finds nothing exactly when the key is new. -/
theorem addToEntry_eq_none_iff (key : List UInt8) (delta : ℤ) (entries : List HashEntry) :
    addToEntry key delta entries = none ↔ key ∉ entries.map HashEntry.key := by
  rw [← map_fst_map_pair, ← bump_eq_none_iff key delta, bump_map_pair, Option.map_eq_none_iff]

/-- The search loop adds to the value of the first entry with the key. -/
theorem addToEntry_append_cons {delta : ℤ} {before after : List HashEntry} {entry : HashEntry}
    (hkey : entry.key ∉ before.map HashEntry.key) :
    addToEntry entry.key delta (before ++ entry :: after) =
      some (before ++ { entry with value := entry.value + delta } :: after) := by
  induction before with
  | nil => rw [List.nil_append, addToEntry, if_pos rfl, List.nil_append]
  | cons first rest ih =>
    rw [List.map_cons, List.mem_cons, not_or] at hkey
    rw [List.cons_append, addToEntry, if_neg (Ne.symm hkey.1), ih hkey.2]
    rfl

/-- The capacity that `add_entry` gives the array before it appends an entry. -/
def grownCapacity (size capacity : ℕ) : ℕ :=
  if size ≥ capacity then if capacity = 0 then 16 else capacity * 2 else capacity

/-- There is room for the entry that `add_entry` appends. -/
theorem size_lt_grownCapacity {size capacity : ℕ} (hfits : size ≤ capacity) :
    size < grownCapacity size capacity := by
  unfold grownCapacity
  split_ifs <;> omega

/-- A map of `ThreadStats`: its entries in the order of the array, and the capacity of the array.
The entries fit in the array and have distinct keys. -/
structure EntryMap where
  entries : List HashEntry
  capacity : ℕ
  size_le : entries.length ≤ capacity
  nodup : (entries.map HashEntry.key).Nodup

namespace EntryMap

/-- The map of `calloc` and of `{0}`: no array at all. -/
def empty : EntryMap := ⟨[], 0, Nat.le_refl 0, List.nodup_nil⟩

/-- `add_entry`. -/
def addEntry (map : EntryMap) (key : List UInt8) (delta : ℤ) : EntryMap :=
  match hfound : addToEntry key delta map.entries with
  | some entries =>
    { entries, capacity := map.capacity
      size_le := by
        have hlength := congrArg List.length (map_key_of_addToEntry hfound)
        rw [List.length_map, List.length_map] at hlength
        exact hlength.trans_le map.size_le
      nodup := by
        rw [map_key_of_addToEntry hfound]
        exact map.nodup }
  | none =>
    { entries := map.entries ++ [⟨key, delta⟩]
      capacity := grownCapacity map.entries.length map.capacity
      size_le := by
        rw [List.length_append, List.length_singleton]
        exact size_lt_grownCapacity map.size_le
      nodup := by
        have hnew := (addToEntry_eq_none_iff key delta map.entries).mp hfound
        rw [List.map_append, List.map_singleton]
        exact List.Nodup.append map.nodup (List.nodup_singleton key)
          (List.disjoint_singleton.mpr hnew) }

/-- The map with room for one more entry. -/
def grown (map : EntryMap) : EntryMap where
  entries := map.entries
  capacity := grownCapacity map.entries.length map.capacity
  size_le := Nat.le_of_lt (size_lt_grownCapacity map.size_le)
  nodup := map.nodup

theorem entries_addEntry (map : EntryMap) (key : List UInt8) (delta : ℤ) :
    (map.addEntry key delta).entries =
      (addToEntry key delta map.entries).getD (map.entries ++ [⟨key, delta⟩]) := by
  unfold addEntry
  split
  · next found hfound =>
    exact (congrArg (fun result ↦ result.getD (map.entries ++ [⟨key, delta⟩])) hfound).symm
  · next hfound =>
    exact (congrArg (fun result ↦ result.getD (map.entries ++ [⟨key, delta⟩])) hfound).symm

/-- `merge_maps`: every entry of the source is added to the destination. -/
def mergeMaps (dest src : EntryMap) : EntryMap :=
  src.entries.foldl (fun dest entry ↦ dest.addEntry entry.key entry.value) dest

/-- The entries as contributions. -/
def pairs (map : EntryMap) : List (List UInt8 × ℤ) := map.entries.map HashEntry.pair

/-- The map as a finite map: the value of the entry with the key, if there is one. -/
def value? (map : EntryMap) (key : List UInt8) : Option ℤ := lookup map.pairs key

theorem nodup_map_fst_pairs (map : EntryMap) : (map.pairs.map Prod.fst).Nodup := by
  rw [pairs, map_fst_map_pair]
  exact map.nodup

/-- A map reads as the tally of its entries. -/
theorem value?_eq_tally (map : EntryMap) : map.value? = tally map.pairs :=
  lookup_eq_tally map.nodup_map_fst_pairs

/-- `add_entry` adds a contribution. -/
theorem tally_addEntry (map : EntryMap) (key : List UInt8) (delta : ℤ) :
    tally (map.addEntry key delta).pairs = tally (map.pairs ++ [(key, delta)]) := by
  unfold addEntry
  split
  · next found hfound =>
    have hpairs : bump key delta map.pairs = some (found.map HashEntry.pair) := by
      rw [pairs, bump_map_pair, hfound, Option.map_some]
    exact tally_bump hpairs
  · unfold pairs
    rw [List.map_append]
    rfl

/-- `add_entry` changes the value of its key only. -/
theorem value?_addEntry (map : EntryMap) (key : List UInt8) (delta : ℤ) :
    (map.addEntry key delta).value? =
      Function.update map.value? key (some ((map.value? key).getD 0 + delta)) := by
  rw [value?_eq_tally, value?_eq_tally, tally_addEntry, tally_append_singleton]

/-- The keys, in the order of the array. -/
def keys (map : EntryMap) : List (List UInt8) := map.entries.map HashEntry.key

/-- `add_entry` appends a new key. -/
theorem keys_addEntry (map : EntryMap) (key : List UInt8) (delta : ℤ) :
    (map.addEntry key delta).keys = addKey map.keys key := by
  unfold addEntry addKey keys
  split
  · next found hfound =>
    have hold : key ∈ map.entries.map HashEntry.key := by
      by_contra hnew
      rw [(addToEntry_eq_none_iff key delta map.entries).mpr hnew] at hfound
      exact absurd hfound nofun
    rw [if_pos hold]
    exact map_key_of_addToEntry hfound
  · next hfound =>
    rw [if_neg ((addToEntry_eq_none_iff key delta map.entries).mp hfound), List.map_append,
      List.map_singleton]

/-- `add_entry` grows the array for a new key only. -/
theorem capacity_addEntry (map : EntryMap) (key : List UInt8) (delta : ℤ) :
    (map.addEntry key delta).capacity =
      if key ∈ map.keys then map.capacity else grownCapacity map.entries.length map.capacity := by
  have hnone : addToEntry key delta map.entries = none ↔ key ∉ map.keys :=
    addToEntry_eq_none_iff key delta map.entries
  unfold addEntry
  split
  · next found hfound =>
    rw [if_pos (not_not.mp fun hnew ↦ Option.some_ne_none _ (hfound.symm.trans (hnone.mpr hnew)))]
  · next hfound => rw [if_neg (hnone.mp hfound)]

theorem capacity_addEntry_of_notMem {map : EntryMap} {key : List UInt8} {delta : ℤ}
    (hkey : key ∉ map.keys) : (map.addEntry key delta).capacity = map.grown.capacity := by
  rw [capacity_addEntry, if_neg hkey]
  rfl

/-- `add_entry` never makes the array smaller. -/
theorem capacity_le_addEntry (map : EntryMap) (key : List UInt8) (delta : ℤ) :
    map.capacity ≤ (map.addEntry key delta).capacity := by
  rw [capacity_addEntry, grownCapacity]
  split_ifs <;> omega

/-- `add_entry` for one contribution after the other. -/
def addAll (map : EntryMap) (stream : List (List UInt8 × ℤ)) : EntryMap :=
  stream.foldl (fun map contribution ↦ map.addEntry contribution.1 contribution.2) map

theorem addAll_cons (map : EntryMap) (contribution : List UInt8 × ℤ)
    (rest : List (List UInt8 × ℤ)) : map.addAll (contribution :: rest) =
      (map.addEntry contribution.1 contribution.2).addAll rest :=
  rfl

theorem mergeMaps_eq_addAll (dest src : EntryMap) : dest.mergeMaps src = dest.addAll src.pairs := by
  rw [addAll, pairs, List.foldl_map]
  rfl

/-- The contributions are added to the tally. -/
theorem tally_addAll (map : EntryMap) (stream : List (List UInt8 × ℤ)) :
    tally (map.addAll stream).pairs = tally (map.pairs ++ stream) := by
  induction stream generalizing map with
  | nil =>
    rw [List.append_nil]
    rfl
  | cons contribution rest ih =>
    have hentry := tally_addEntry map contribution.1 contribution.2
    rw [addAll_cons, ih, tally_append_congr hentry rfl, List.append_assoc]
    rfl

/-- `merge_maps` adds the entries of the source. -/
theorem tally_mergeMaps (dest src : EntryMap) :
    tally (dest.mergeMaps src).pairs = tally (dest.pairs ++ src.pairs) := by
  rw [mergeMaps_eq_addAll, tally_addAll]

theorem addAll_append (map : EntryMap) (first second : List (List UInt8 × ℤ)) :
    map.addAll (first ++ second) = (map.addAll first).addAll second :=
  List.foldl_append ..

theorem value?_addAll (map : EntryMap) (stream : List (List UInt8 × ℤ)) :
    (map.addAll stream).value? = tally (map.pairs ++ stream) := by
  rw [value?_eq_tally, tally_addAll]

theorem keys_addAll (map : EntryMap) (stream : List (List UInt8 × ℤ)) :
    (map.addAll stream).keys = (stream.map Prod.fst).foldl addKey map.keys := by
  induction stream generalizing map with
  | nil => rfl
  | cons contribution rest ih =>
    rw [addAll_cons, ih, keys_addEntry, List.map_cons, List.foldl_cons]

theorem capacity_le_addAll (map : EntryMap) (stream : List (List UInt8 × ℤ)) :
    map.capacity ≤ (map.addAll stream).capacity := by
  induction stream generalizing map with
  | nil => exact Nat.le_refl _
  | cons contribution rest ih =>
    exact (capacity_le_addEntry map contribution.1 contribution.2).trans (ih _)

/-- The entry of a key holds its value. -/
theorem value?_key_of_mem {map : EntryMap} {entry : HashEntry} (hentry : entry ∈ map.entries) :
    map.value? entry.key = some entry.value :=
  lookup_of_mem map.nodup_map_fst_pairs (List.mem_map_of_mem hentry)

/-- The entries are the keys with their values. -/
theorem entries_eq_map (map : EntryMap) :
    map.entries = map.keys.map fun key ↦ ⟨key, (map.value? key).getD 0⟩ := by
  rw [keys, List.map_map]
  refine (List.map_id _).symm.trans (List.map_congr_left fun entry hentry ↦ ?_)
  simp only [Function.comp_apply, value?_key_of_mem hentry, Option.getD_some]
  rfl

theorem length_keys (map : EntryMap) : map.keys.length = map.entries.length :=
  List.length_map _

end EntryMap

/-! ### The sum of a map -/

/-- The search loop adds the contribution to the sum of the values. -/
theorem sum_of_addToEntry {key : List UInt8} {delta : ℤ} {entries found : List HashEntry}
    (hfound : addToEntry key delta entries = some found) :
    (found.map HashEntry.value).sum = (entries.map HashEntry.value).sum + delta := by
  induction entries generalizing found with
  | nil => exact absurd hfound nofun
  | cons entry rest ih =>
    rw [addToEntry] at hfound
    split_ifs at hfound with hkey
    · rw [← Option.some.inj hfound, List.map_cons, List.map_cons, List.sum_cons, List.sum_cons]
      exact add_right_comm entry.value delta _
    · obtain ⟨later, hlater, rfl⟩ := Option.map_eq_some_iff.mp hfound
      rw [List.map_cons, List.map_cons, List.sum_cons, List.sum_cons, ih hlater, add_assoc]

namespace EntryMap

/-- The sum of the values of a map. -/
def sum (map : EntryMap) : ℤ := (map.entries.map HashEntry.value).sum

/-- `add_entry` adds its contribution to the sum, whether it finds the key or appends it. -/
theorem sum_addEntry (map : EntryMap) (key : List UInt8) (delta : ℤ) :
    (map.addEntry key delta).sum = map.sum + delta := by
  rw [sum, entries_addEntry]
  rcases hfound : addToEntry key delta map.entries with _ | found
  · rw [Option.getD_none, List.map_append, List.sum_append, List.map_singleton,
      List.sum_singleton]
    rfl
  · exact sum_of_addToEntry hfound

/-- Contributions add to the sum. -/
theorem sum_addAll (map : EntryMap) (stream : List (List UInt8 × ℤ)) :
    (map.addAll stream).sum = map.sum + (stream.map Prod.snd).sum := by
  induction stream generalizing map with
  | nil => exact (add_zero map.sum).symm
  | cons contribution rest ih =>
    rw [addAll_cons, ih, sum_addEntry, List.map_cons, List.sum_cons, add_assoc]

theorem sum_pairs (map : EntryMap) : (map.pairs.map Prod.snd).sum = map.sum := by
  rw [pairs, List.map_map]
  rfl

end EntryMap

/-! ### The statistics of a thread -/

/-- `ThreadStats`: the maps and the total of bytes, with integers for the `long` sums. `ArrayStats`
has the sums of the program, which can overflow. -/
structure ThreadStats where
  urlMap : EntryMap
  refMap : EntryMap
  totalBytes : ℤ

/-- What one line of a log contributes: the bytes sent for a url and the referer, if it has one. -/
structure LogRecord where
  url : List UInt8
  size : ℤ
  referer : Option (List UInt8)
deriving DecidableEq, Repr

namespace LogRecord

/-- The contributions of records to the url map. -/
def urls (records : List LogRecord) : List (List UInt8 × ℤ) :=
  records.map fun entry ↦ (entry.url, entry.size)

/-- The contributions of records to the referer map. -/
def referers (records : List LogRecord) : List (List UInt8 × ℤ) :=
  (records.filterMap LogRecord.referer).map fun referer ↦ (referer, 1)

/-- The bytes of records. -/
def bytes (records : List LogRecord) : ℤ := (records.map LogRecord.size).sum

end LogRecord

namespace ThreadStats

/-- The statistics of `calloc` and of `{0}`. -/
def zero : ThreadStats := ⟨EntryMap.empty, EntryMap.empty, 0⟩

/-- `add_url`. -/
def addUrl (stats : ThreadStats) (key : List UInt8) (delta : ℤ) : ThreadStats :=
  { stats with urlMap := stats.urlMap.addEntry key delta }

/-- `add_ref`. -/
def addRef (stats : ThreadStats) (key : List UInt8) (delta : ℤ) : ThreadStats :=
  { stats with refMap := stats.refMap.addEntry key delta }

/-- What `main` does with the statistics of a joined thread. -/
def merge (final stats : ThreadStats) : ThreadStats :=
  { totalBytes := final.totalBytes + stats.totalBytes
    urlMap := final.urlMap.mergeMaps stats.urlMap
    refMap := final.refMap.mergeMaps stats.refMap }

/-- Adds a record to the total and to the maps. -/
def addRecord (stats : ThreadStats) (entry : LogRecord) : ThreadStats :=
  let stats := { stats with totalBytes := stats.totalBytes + entry.size }
  let stats := stats.addUrl entry.url entry.size
  match entry.referer with
  | none => stats
  | some referer => stats.addRef referer 1

/-- The same total and, as finite maps, the same maps. -/
structure SameStatistics (first second : ThreadStats) : Prop where
  totalBytes_eq : first.totalBytes = second.totalBytes
  url_eq : ∀ key, first.urlMap.value? key = second.urlMap.value? key
  ref_eq : ∀ key, first.refMap.value? key = second.refMap.value? key

/-- The statistics are the totals of a list of records. -/
structure Represents (stats : ThreadStats) (records : List LogRecord) : Prop where
  totalBytes_eq : stats.totalBytes = LogRecord.bytes records
  tally_url : tally stats.urlMap.pairs = tally (LogRecord.urls records)
  tally_ref : tally stats.refMap.pairs = tally (LogRecord.referers records)

theorem represents_zero : zero.Represents [] :=
  ⟨rfl, rfl, rfl⟩

/-- Adding a record to the statistics of some records gives those of one record more. -/
theorem Represents.addRecord {stats : ThreadStats} {records : List LogRecord}
    (hstats : stats.Represents records) (entry : LogRecord) :
    (stats.addRecord entry).Represents (records ++ [entry]) := by
  obtain ⟨url, size, referer⟩ := entry
  have hbytes : stats.totalBytes + size = LogRecord.bytes (records ++ [⟨url, size, referer⟩]) := by
    rw [hstats.totalBytes_eq, LogRecord.bytes, LogRecord.bytes, List.map_append, List.sum_append,
      List.map_singleton, List.sum_singleton]
  have hurls : tally (stats.urlMap.addEntry url size).pairs =
      tally (LogRecord.urls (records ++ [⟨url, size, referer⟩])) := by
    rw [EntryMap.tally_addEntry, LogRecord.urls, List.map_append]
    exact tally_append_congr hstats.tally_url rfl
  rcases referer with _ | referer
  · refine ⟨hbytes, hurls, ?_⟩
    have hreferers : LogRecord.referers (records ++ [⟨url, size, none⟩]) =
        LogRecord.referers records := by
      rw [LogRecord.referers, List.filterMap_append]
      simp [LogRecord.referers]
    rw [hreferers]
    exact hstats.tally_ref
  · refine ⟨hbytes, hurls, ?_⟩
    have hreferers : LogRecord.referers (records ++ [⟨url, size, some referer⟩]) =
        LogRecord.referers records ++ [(referer, 1)] := by
      rw [LogRecord.referers, List.filterMap_append]
      simp [LogRecord.referers]
    rw [hreferers]
    exact (EntryMap.tally_addEntry _ _ _).trans (tally_append_congr hstats.tally_ref rfl)

/-- Merging the statistics of some records with those of others gives the statistics of all. -/
theorem Represents.merge {final stats : ThreadStats} {first second : List LogRecord}
    (hfinal : final.Represents first) (hstats : stats.Represents second) :
    (final.merge stats).Represents (first ++ second) where
  totalBytes_eq := by
    rw [LogRecord.bytes, List.map_append, List.sum_append]
    exact congrArg₂ (· + ·) hfinal.totalBytes_eq hstats.totalBytes_eq
  tally_url := by
    rw [LogRecord.urls, List.map_append]
    exact (EntryMap.tally_mergeMaps _ _).trans
      (tally_append_congr hfinal.tally_url hstats.tally_url)
  tally_ref := by
    rw [LogRecord.referers, List.filterMap_append, List.map_append]
    exact (EntryMap.tally_mergeMaps _ _).trans
      (tally_append_congr hfinal.tally_ref hstats.tally_ref)

/-- Statistics of the same records, in any order, are the same. -/
theorem Represents.sameStatistics_of_perm {first second : ThreadStats}
    {records records' : List LogRecord} (hfirst : first.Represents records)
    (hsecond : second.Represents records') (hperm : records.Perm records') :
    first.SameStatistics second where
  totalBytes_eq := by
    rw [hfirst.totalBytes_eq, hsecond.totalBytes_eq]
    exact (hperm.map LogRecord.size).sum_eq
  url_eq key := by
    have hurls : (LogRecord.urls records).Perm (LogRecord.urls records') := hperm.map _
    rw [EntryMap.value?_eq_tally, EntryMap.value?_eq_tally, hfirst.tally_url, hsecond.tally_url,
      tally_perm hurls]
  ref_eq key := by
    have hreferers : (LogRecord.referers records).Perm (LogRecord.referers records') :=
      (hperm.filterMap LogRecord.referer).map _
    rw [EntryMap.value?_eq_tally, EntryMap.value?_eq_tally, hfirst.tally_ref, hsecond.tally_ref,
      tally_perm hreferers]

end ThreadStats

end Homework.LogParser
