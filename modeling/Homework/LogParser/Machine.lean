import Homework.LogParser.Accumulation
import Homework.LogParser.Line

/-!
# The log parser in C arithmetic

Here a thread keeps its statistics as the program does: the maps in arrays that grow, with sizes and
capacities in `int`s, and the bytes in `long`s. Nothing protects the sums.

The arrays of a thread hold what its records add up to (`Counts`), and a line leads on to those of
one record more, or to an overflow exactly when these are out of range (`Counts.parseLogLine`). The
same holds of a merge (`Counts.merge`): its array gets every key of the other once, so that nothing
on the way is out of range if the result is not.
-/

set_option autoImplicit false
set_option relaxedAutoImplicit false

namespace Homework.LogParser

open Homework.Library Homework.Library.ByteBuffer Homework.Library.Cells Homework.Library.CString
  Homework.Library.Runs Homework.Library.Tally Homework.Library.TextInput

/-! ### What a stream adds up to -/

/-- The sizes of some contributions, all taken positive. -/
def load : List (List UInt8 × ℤ) → ℕ
  | [] => 0
  | contribution :: rest => contribution.2.natAbs + load rest

theorem load_append (first second : List (List UInt8 × ℤ)) :
    load (first ++ second) = load first + load second := by
  induction first with
  | nil => exact (Nat.zero_add _).symm
  | cons contribution rest ih => rw [List.cons_append, load, load, ih, Nat.add_assoc]

theorem load_perm {first second : List (List UInt8 × ℤ)} (hperm : first.Perm second) :
    load first = load second := by
  induction hperm with
  | nil => rfl
  | cons contribution _ ih => rw [load, load, ih]
  | swap => simp only [load, Nat.add_left_comm]
  | trans _ _ hfirst hsecond => rw [hfirst, hsecond]

/-- What a key gets is no larger than all sizes together. -/
theorem natAbs_sum_amounts_le (stream : List (List UInt8 × ℤ)) (key : List UInt8) :
    (amounts stream key).sum.natAbs ≤ load stream := by
  induction stream with
  | nil => exact Nat.le_refl 0
  | cons contribution rest ih =>
    obtain ⟨name, delta⟩ := contribution
    rw [load]
    rcases eq_or_ne name key with rfl | hne
    · rw [amounts_cons_self, List.sum_cons]
      omega
    · rw [amounts_cons_of_ne hne]
      omega

/-- The sizes together fit in a `long`, and there are at most 2³⁰ keys. -/
structure InRange (stream : List (List UInt8 × ℤ)) : Prop where
  load_le : load stream ≤ 2 ^ 63 - 1
  keys_le : (firsts (stream.map Prod.fst)).length ≤ 2 ^ 30

/-- The sums of a stream in range fit. -/
theorem InRange.sumsFit {stream : List (List UInt8 × ℤ)} (hrange : InRange stream) :
    EntryArray.SumsFit stream where
  sum key := by
    have habs := natAbs_sum_amounts_le stream key
    have hload := hrange.load_le
    unfold InLongRange
    omega
  keys := hrange.keys_le

theorem InRange.append_left {first second : List (List UInt8 × ℤ)}
    (hrange : InRange (first ++ second)) : InRange first where
  load_le := by
    have hload := hrange.load_le
    rw [load_append] at hload
    omega
  keys_le := by
    refine (List.subperm_of_subset (nodup_firsts _) fun key hkey ↦ ?_).length_le.trans
      hrange.keys_le
    rw [mem_firsts] at hkey ⊢
    rw [List.map_append]
    exact List.mem_append_left _ hkey

theorem InRange.perm {first second : List (List UInt8 × ℤ)} (hrange : InRange second)
    (hperm : first.Perm second) : InRange first where
  load_le := (load_perm hperm).trans_le hrange.load_le
  keys_le := by
    have hkeys : (firsts (first.map Prod.fst)).Perm (firsts (second.map Prod.fst)) :=
      (List.perm_ext_iff_of_nodup (nodup_firsts _) (nodup_firsts _)).mpr fun key ↦ by
        rw [mem_firsts, mem_firsts, (hperm.map Prod.fst).mem_iff]
    exact hkeys.length_eq.trans_le hrange.keys_le

/-! ### Requests for memory -/

/-- Every request for less than 16 GiB succeeds. -/
def Plenty (allocator : Allocator) : Prop := ∀ bytes < 2 ^ 34, allocator.grants bytes = true

namespace EntryArray

theorem grants_of_plenty {allocator : Allocator} (hplenty : Plenty allocator) (map : EntryMap)
    {key : List UInt8} (hkey : allocator.grants (key.length + 1) = true) :
    Grants allocator map key where
  array hcapacity := by
    refine hplenty _ ?_
    unfold InIntRange at hcapacity
    omega
  entry := hplenty _ (by decide)
  key := hkey

/-! ### Merging arrays -/

/-- What is between two maps in range is in range, if the contributions have distinct keys: a key
has its first value or its last one. -/
theorem fits_of_fits_addAll {map : EntryMap} {earlier later : List (List UInt8 × ℤ)}
    (hdistinct : ((earlier ++ later).map Prod.fst).Nodup) (hfirst : Fits map)
    (hlast : Fits (map.addAll (earlier ++ later))) : Fits (map.addAll earlier) where
  values entry hentry := by
    have hvalue : tally (map.pairs ++ earlier) entry.key = some entry.value := by
      rw [← EntryMap.value?_addAll]
      exact EntryMap.value?_key_of_mem hentry
    rw [List.map_append, List.nodup_append] at hdistinct
    by_cases hlater : entry.key ∈ later.map Prod.fst
    · have hnone : amounts earlier entry.key = [] :=
        (amounts_eq_nil_iff _ _).mpr fun hearlier ↦ hdistinct.2.2 _ hearlier _ hlater rfl
      have hold : map.value? entry.key = some entry.value := by
        rw [EntryMap.value?_eq_tally, ← hvalue, tally, tally, amounts_append, hnone,
          List.append_nil]
      exact hfirst.values_of_value? hold
    · have hnone : amounts later entry.key = [] := (amounts_eq_nil_iff _ _).mpr hlater
      have hnew : (map.addAll (earlier ++ later)).value? entry.key = some entry.value := by
        rw [EntryMap.value?_addAll, ← hvalue, ← List.append_assoc, tally, tally,
          amounts_append _ later, hnone, List.append_nil]
      exact hlast.values_of_value? hnew
  capacity := by
    have hcapacity := EntryMap.capacity_le_addAll (map.addAll earlier) later
    have hrange := hlast.capacity
    rw [← EntryMap.addAll_append] at hcapacity
    unfold InIntRange at hrange ⊢
    omega

/-- `merge_maps` does on arrays what it does on the maps, unless the result is out of range.
Assumes: the requests for memory succeed. -/
theorem Represents.mergeMaps_settled {allocator : Allocator} {array source : EntryArray}
    {map sourceMap : EntryMap} (hrep : array.Represents map) (hsource : source.Represents sourceMap)
    (hplenty : Plenty allocator)
    (hkeys : ∀ key ∈ sourceMap.keys, allocator.grants (key.length + 1) = true) :
    (∃ next, EntryArray.mergeMaps allocator array source = .ok next ∧
        next.Represents (map.mergeMaps sourceMap)) ∨
      EntryArray.mergeMaps allocator array source = .error .overflow ∧
        ¬Fits (map.mergeMaps sourceMap) := by
  obtain ⟨pairs, hpairs, hmerge⟩ := hsource.mergeMaps
  have hfirsts : pairs.map Prod.fst = sourceMap.keys := by
    rw [EntryMap.keys, ← map_fst_map_pair, ← EntryMap.pairs, ← hpairs, contributions, List.map_map]
    rfl
  have hgrants (before : List Pair) (pair : Pair) (hbefore : before ++ [pair] <+: pairs) :
      Grants allocator (map.addAll (contributions before)) pair.1 := by
    have hpair : pair ∈ pairs := hbefore.subset (List.mem_append_right _ List.mem_cons_self)
    exact grants_of_plenty hplenty _ (hkeys _ (hfirsts ▸ List.mem_map_of_mem hpair))
  rw [hmerge, EntryMap.mergeMaps_eq_addAll, ← hpairs]
  rcases hrep.run_addPair hgrants with ⟨next, hnext, hnextRep, -⟩ | ⟨herror, before, hbefore, hnot⟩
  · exact Or.inl ⟨next, hnext, hnextRep⟩
  · refine Or.inr ⟨herror, fun hfits ↦ hnot ?_⟩
    obtain ⟨rest, rfl⟩ := hbefore
    have hsplit : contributions (before ++ rest) = contributions before ++ contributions rest :=
      List.map_append
    have hdistinct := sourceMap.nodup_map_fst_pairs
    rw [← hpairs, hsplit] at hdistinct
    rw [hsplit] at hfits
    exact fits_of_fits_addAll hdistinct hrep.fits hfits

end EntryArray

/-! ### The statistics of a thread -/

/-- `ThreadStats`, with the maps in arrays and the total in a `long`. -/
structure ArrayStats where
  urlMap : EntryArray
  refMap : EntryArray
  totalBytes : CLong

namespace ArrayStats

theorem inLongRange_zero : InLongRange 0 := by decide

theorem inLongRange_one : InLongRange 1 := by decide

/-- The statistics of `calloc` and of `{0}`. -/
def zero : ArrayStats := ⟨EntryArray.empty, EntryArray.empty, ⟨0, inLongRange_zero⟩⟩

section Source

variable (allocator : Allocator)

/-- `add_url`. -/
def addUrl (stats : ArrayStats) (key : List UInt8) (delta : CLong) :
    Except MapFault ArrayStats := do
  let urlMap ← stats.urlMap.addEntry allocator key delta
  return { stats with urlMap }

/-- `add_ref`. -/
def addRef (stats : ArrayStats) (key : List UInt8) (delta : CLong) :
    Except MapFault ArrayStats := do
  let refMap ← stats.refMap.addEntry allocator key delta
  return { stats with refMap }

/-- `parse_log_line`. The size is a `long` as `sscanf` stores it (`inLongRange_size`). -/
def parseLogLine (line : List UInt8) (stats : ArrayStats) : Except MapFault ArrayStats :=
  match requestPart line with
  | none => return stats
  | some (url, size, sizePtr) => do
    let size ← stored (checkedLong size)
    let totalBytes ← stored (checkedLong (stats.totalBytes + size))
    let stats ← addUrl allocator { stats with totalBytes } url size
    match refererPart sizePtr with
    | none => return stats
    | some ref => addRef allocator stats ref ⟨1, inLongRange_one⟩

/-- The loop of `process_file`. -/
def parseChunks : List (List UInt8) → ArrayStats → Except MapFault ArrayStats
  | [], stats => return stats
  | buffer :: rest, stats => do
    let stats ← parseLogLine allocator (cString buffer) stats
    parseChunks rest stats

/-- `process_file`. -/
def processFile (files : Files) (filename : List UInt8) (stats : ArrayStats) :
    Except MapFault ArrayStats :=
  match files filename with
  | none => return stats
  | some content => parseChunks allocator (fgetsAll content) stats

/-- What `main` does with the statistics of a joined thread. -/
def merge (final stats : ArrayStats) : Except MapFault ArrayStats := do
  let totalBytes ← stored (checkedLong (final.totalBytes + stats.totalBytes))
  let urlMap ← final.urlMap.mergeMaps allocator stats.urlMap
  let refMap ← final.refMap.mergeMaps allocator stats.refMap
  return ⟨urlMap, refMap, totalBytes⟩

end Source

/-- The arrays and the total are those of the statistics with integers. -/
structure Represents (stats : ArrayStats) (ideal : ThreadStats) : Prop where
  url : stats.urlMap.Represents ideal.urlMap
  ref : stats.refMap.Represents ideal.refMap
  totalBytes_eq : (stats.totalBytes : ℤ) = ideal.totalBytes

theorem represents_zero : zero.Represents ThreadStats.zero :=
  ⟨EntryArray.represents_empty, EntryArray.represents_empty, rfl⟩

end ArrayStats

/-! ### The lengths of the fields -/

theorem length_between_le (start stop : List UInt8) : (between start stop).length ≤ start.length :=
  List.length_take_le' _ _

theorem length_refererPart_le {text ref : List UInt8} (href : refererPart text = some ref) :
    ref.length ≤ text.length := by
  simp only [refererPart, Option.bind_eq_bind, Option.bind_eq_some_iff] at href
  obtain ⟨found, hfound, rest, -, hrest⟩ := href
  have hlength := (suffix_of_strchr hfound).length_le
  have hbetween := length_between_le (found.drop 1) rest
  rw [List.length_drop] at hbetween
  split_ifs at hrest
  · cases hrest
  · cases hrest
  · cases hrest
    omega

theorem length_requestPart_le {line url sizePtr : List UInt8} {size : ℤ}
    (hrequest : requestPart line = some (url, size, sizePtr)) :
    url.length ≤ line.length ∧ sizePtr.length ≤ line.length := by
  simp only [requestPart, Option.bind_eq_bind, Option.bind_eq_some_iff] at hrequest
  obtain ⟨ptr, hptr, hget⟩ := hrequest
  split_ifs at hget with htext
  · cases hget
  · simp only [Option.bind_eq_some_iff] at hget
    obtain ⟨urlEnd, hurl, quoted, hquoted, blank, hblank, numbers, -, hresult⟩ := hget
    have hbetween := length_between_le ((ptr.drop 1).drop 4) urlEnd
    have hptrLength := (suffix_of_strchr hptr).length_le
    have hurlLength := (suffix_of_strchr hurl).length_le
    have hquotedLength := (suffix_of_strchr hquoted).length_le
    have hblankLength := (suffix_of_strchr hblank).length_le
    simp only [List.length_drop] at hbetween hurlLength hblankLength
    cases hresult
    constructor
    · split_ifs
      · rw [List.length_dropLast]
        omega
      · omega
    · omega

/-- The size is stored as a `long`. -/
theorem exists_toLong_of_requestPart {line url sizePtr : List UInt8} {size : ℤ}
    (hrequest : requestPart line = some (url, size, sizePtr)) : ∃ number, toLong number = size := by
  simp only [requestPart, Option.bind_eq_bind, Option.bind_eq_some_iff] at hrequest
  obtain ⟨ptr, -, hget⟩ := hrequest
  split_ifs at hget with htext
  · cases hget
  · simp only [Option.bind_eq_some_iff] at hget
    obtain ⟨urlEnd, -, quoted, -, blank, -, ⟨status, stored⟩, hnumbers, hresult⟩ := hget
    cases hresult
    simp only [sscanfStatusSize, Option.bind_eq_bind, Option.bind_eq_some_iff] at hnumbers
    obtain ⟨first, -, second, -, hsecond⟩ := hnumbers
    cases hsecond
    exact ⟨_, rfl⟩

/-- The fields of a record are no longer than the line. -/
theorem length_recordOf_le {line : List UInt8} {entry : LogRecord}
    (hrecord : recordOf line = some entry) :
    entry.url.length ≤ line.length ∧ ∀ ref ∈ entry.referer, ref.length ≤ line.length := by
  obtain ⟨⟨url, size, sizePtr⟩, hrequest, rfl⟩ := Option.map_eq_some_iff.mp hrecord
  obtain ⟨hurl, hsizePtr⟩ := length_requestPart_le hrequest
  exact ⟨hurl, fun ref href ↦ (length_refererPart_le href).trans hsizePtr⟩

/-! ### Records -/

namespace LogRecord

theorem urls_append (first second : List LogRecord) :
    urls (first ++ second) = urls first ++ urls second :=
  List.map_append

theorem referers_append (first second : List LogRecord) :
    referers (first ++ second) = referers first ++ referers second := by
  rw [referers, List.filterMap_append, List.map_append]
  rfl

theorem bytes_append (first second : List LogRecord) :
    bytes (first ++ second) = bytes first + bytes second := by
  rw [bytes, List.map_append, List.sum_append]
  rfl

/-- The total is no larger than all sizes together. -/
theorem natAbs_bytes_le (records : List LogRecord) :
    (bytes records).natAbs ≤ load (urls records) := by
  induction records with
  | nil => exact Nat.le_refl 0
  | cons entry rest ih =>
    have hbytes : bytes (entry :: rest) = entry.size + bytes rest := List.sum_cons
    have hload : load (urls (entry :: rest)) = entry.size.natAbs + load (urls rest) := rfl
    omega

end LogRecord

/-- What the records add up to is in range: the total, the bytes of every url and the count of every
referer are `long`s, and there are at most 2³⁰ urls and 2³⁰ referers. -/
structure TotalsInRange (records : List LogRecord) : Prop where
  totalBytes : InLongRange (LogRecord.bytes records)
  urls : EntryArray.SumsFit (LogRecord.urls records)
  referers : EntryArray.SumsFit (LogRecord.referers records)

/-- Nothing that the records add up to is out of range, in whatever order they come. -/
structure RecordsInRange (records : List LogRecord) : Prop where
  urls : InRange (LogRecord.urls records)
  referers : InRange (LogRecord.referers records)

/-- Records before others are in range with them. -/
theorem RecordsInRange.append_left {first second : List LogRecord}
    (hrange : RecordsInRange (first ++ second)) : RecordsInRange first where
  urls := by
    have hurls := hrange.urls
    rw [LogRecord.urls_append] at hurls
    exact hurls.append_left
  referers := by
    have hreferers := hrange.referers
    rw [LogRecord.referers_append] at hreferers
    exact hreferers.append_left

theorem RecordsInRange.perm {first second : List LogRecord} (hrange : RecordsInRange second)
    (hperm : first.Perm second) : RecordsInRange first :=
  ⟨hrange.urls.perm (hperm.map _), hrange.referers.perm ((hperm.filterMap _).map _)⟩

theorem RecordsInRange.totals {records : List LogRecord} (hrange : RecordsInRange records) :
    TotalsInRange records where
  totalBytes := by
    have hbytes := LogRecord.natAbs_bytes_le records
    have hload := hrange.urls.load_le
    unfold InLongRange
    omega
  urls := hrange.urls.sumsFit
  referers := hrange.referers.sumsFit

/-- The requests for the arrays and the entries succeed, and those for the keys of some records. -/
structure Serves (allocator : Allocator) (records : List LogRecord) : Prop where
  plenty : Plenty allocator
  urls : ∀ entry ∈ records, allocator.grants (entry.url.length + 1) = true
  referers : ∀ entry ∈ records, ∀ ref ∈ entry.referer, allocator.grants (ref.length + 1) = true

theorem Serves.of_subset {allocator : Allocator} {first second : List LogRecord}
    (hserves : Serves allocator second) (hsubset : first ⊆ second) : Serves allocator first :=
  ⟨hserves.plenty, fun entry hentry ↦ hserves.urls entry (hsubset hentry),
    fun entry hentry ↦ hserves.referers entry (hsubset hentry)⟩

/-- Statistics that come from some records, whatever the order in which these were added. -/
structure ThreadStats.SumsUp (stats : ThreadStats) (records : List LogRecord) : Prop where
  url : EntryArray.Sums stats.urlMap (LogRecord.urls records)
  ref : EntryArray.Sums stats.refMap (LogRecord.referers records)
  totalBytes_eq : stats.totalBytes = LogRecord.bytes records

namespace ThreadStats

variable {stats : ThreadStats} {records : List LogRecord}

theorem SumsUp.represents (hsums : stats.SumsUp records) : stats.Represents records :=
  ⟨hsums.totalBytes_eq, hsums.url.tally_eq, hsums.ref.tally_eq⟩

theorem sumsUp_zero : zero.SumsUp [] :=
  ⟨EntryArray.sums_empty, EntryArray.sums_empty, rfl⟩

/-- A record more. -/
theorem SumsUp.addRecord (hsums : stats.SumsUp records) (entry : LogRecord) :
    (stats.addRecord entry).SumsUp (records ++ [entry]) := by
  obtain ⟨url, size, referer⟩ := entry
  have hurl : EntryArray.Sums (stats.urlMap.addEntry url size)
      (LogRecord.urls (records ++ [⟨url, size, referer⟩])) := by
    rw [LogRecord.urls_append]
    exact hsums.url.addAll [(url, size)]
  have hbytes : stats.totalBytes + size = LogRecord.bytes (records ++ [⟨url, size, referer⟩]) := by
    rw [LogRecord.bytes_append, hsums.totalBytes_eq]
    exact congrArg (_ + ·) (add_zero size).symm
  rcases referer with _ | referer
  · refine ⟨hurl, ?_, hbytes⟩
    rw [LogRecord.referers_append]
    exact hsums.ref.addAll []
  · refine ⟨hurl, ?_, hbytes⟩
    rw [LogRecord.referers_append]
    exact hsums.ref.addAll [(referer, 1)]

/-- The records of another thread. -/
theorem SumsUp.merge {other : ThreadStats} {more : List LogRecord} (hsums : stats.SumsUp records)
    (hother : other.SumsUp more) : (stats.merge other).SumsUp (records ++ more) where
  url := by
    rw [LogRecord.urls_append]
    exact hsums.url.mergeMaps hother.url
  ref := by
    rw [LogRecord.referers_append]
    exact hsums.ref.mergeMaps hother.ref
  totalBytes_eq := by
    rw [LogRecord.bytes_append, ← hsums.totalBytes_eq, ← hother.totalBytes_eq]
    rfl

/-- The total and the values are `long`s, and the capacities are `int`s. -/
structure Fits (stats : ThreadStats) : Prop where
  url : EntryArray.Fits stats.urlMap
  ref : EntryArray.Fits stats.refMap
  totalBytes : InLongRange stats.totalBytes

theorem SumsUp.fits_iff (hsums : stats.SumsUp records) : stats.Fits ↔ TotalsInRange records := by
  constructor
  · intro hfits
    exact ⟨hsums.totalBytes_eq ▸ hfits.totalBytes, hsums.url.fits_iff.mp hfits.url,
      hsums.ref.fits_iff.mp hfits.ref⟩
  · intro htotals
    exact ⟨hsums.url.fits_iff.mpr htotals.urls, hsums.ref.fits_iff.mpr htotals.referers,
      hsums.totalBytes_eq ▸ htotals.totalBytes⟩

/-- The keys of the maps are those of the records. -/
theorem SumsUp.serves_url {allocator : Allocator} (hsums : stats.SumsUp records)
    (hserves : Serves allocator records) :
    ∀ key ∈ stats.urlMap.keys, allocator.grants (key.length + 1) = true := by
  intro key hkey
  have hurls := hsums.url.mem_keys_iff.mp hkey
  rw [LogRecord.urls, List.map_map] at hurls
  obtain ⟨entry, hentry, rfl⟩ := List.mem_map.mp hurls
  exact hserves.urls entry hentry

theorem SumsUp.serves_ref {allocator : Allocator} (hsums : stats.SumsUp records)
    (hserves : Serves allocator records) :
    ∀ key ∈ stats.refMap.keys, allocator.grants (key.length + 1) = true := by
  intro key hkey
  have hreferers := hsums.ref.mem_keys_iff.mp hkey
  rw [LogRecord.referers, List.map_map] at hreferers
  obtain ⟨referer, hreferer, rfl⟩ := List.mem_map.mp hreferers
  obtain ⟨entry, hentry, hsome⟩ := List.mem_filterMap.mp hreferer
  exact hserves.referers entry hentry referer hsome

end ThreadStats

/-! ### Steps -/

namespace ArrayStats

/-- `parse_log_line` from the update of the total on. -/
def addRecord (allocator : Allocator) (stats : ArrayStats) (entry : LogRecord) :
    Except MapFault ArrayStats := do
  let size ← stored (checkedLong entry.size)
  let totalBytes ← stored (checkedLong (stats.totalBytes + size))
  let stats ← addUrl allocator { stats with totalBytes } entry.url size
  match entry.referer with
  | none => return stats
  | some ref => addRef allocator stats ref ⟨1, inLongRange_one⟩

/-- A line adds its record, or nothing. -/
theorem parseLogLine_eq (allocator : Allocator) (line : List UInt8) (stats : ArrayStats) :
    parseLogLine allocator line stats =
      (recordOf line).elim (.ok stats) (addRecord allocator stats) := by
  unfold parseLogLine recordOf
  rcases requestPart line with _ | ⟨url, size, sizePtr⟩
  · rfl
  · rfl

section Exact

variable {allocator : Allocator} {stats : ArrayStats} {ideal : ThreadStats}

theorem Represents.fits (hrep : stats.Represents ideal) : ideal.Fits :=
  ⟨hrep.url.fits, hrep.ref.fits, hrep.totalBytes_eq ▸ stats.totalBytes.2⟩

theorem Represents.addUrl (hrep : stats.Represents ideal) {key : List UInt8} (delta : CLong)
    (hgrants : EntryArray.Grants allocator ideal.urlMap key) :
    (∃ next, addUrl allocator stats key delta = .ok next ∧
        next.Represents (ideal.addUrl key delta)) ∨
      addUrl allocator stats key delta = .error .overflow ∧
        ¬EntryArray.Fits (ideal.urlMap.addEntry key delta) := by
  rw [ArrayStats.addUrl]
  rcases @EntryArray.Represents.addEntry _ _ _ _ delta hrep.url hgrants with
    ⟨urlMap, hurl, hurlRep⟩ | ⟨hurl, hnot⟩
  · exact Or.inl ⟨{ stats with urlMap }, by rw [hurl]; rfl, hurlRep, hrep.ref, hrep.totalBytes_eq⟩
  · exact Or.inr ⟨by rw [hurl]; rfl, hnot⟩

theorem Represents.addRef (hrep : stats.Represents ideal) {key : List UInt8} (delta : CLong)
    (hgrants : EntryArray.Grants allocator ideal.refMap key) :
    (∃ next, addRef allocator stats key delta = .ok next ∧
        next.Represents (ideal.addRef key delta)) ∨
      addRef allocator stats key delta = .error .overflow ∧
        ¬EntryArray.Fits (ideal.refMap.addEntry key delta) := by
  rw [ArrayStats.addRef]
  rcases @EntryArray.Represents.addEntry _ _ _ _ delta hrep.ref hgrants with
    ⟨refMap, href, hrefRep⟩ | ⟨href, hnot⟩
  · exact Or.inl ⟨{ stats with refMap }, by rw [href]; rfl, hrep.url, hrefRep, hrep.totalBytes_eq⟩
  · exact Or.inr ⟨by rw [href]; rfl, hnot⟩

/-- A record does on arrays what it does in the integers, unless the result is out of range.
Assumes: the requests for memory succeed. -/
theorem Represents.addRecord (hrep : stats.Represents ideal) {entry : LogRecord}
    (hsize : InLongRange entry.size) (hserves : Serves allocator [entry]) :
    (∃ next, addRecord allocator stats entry = .ok next ∧
        next.Represents (ideal.addRecord entry)) ∨
      addRecord allocator stats entry = .error .overflow ∧ ¬(ideal.addRecord entry).Fits := by
  obtain ⟨url, size, referer⟩ := entry
  -- a referer touches neither the total nor the urls
  have hparts : (ideal.addRecord ⟨url, size, referer⟩).Fits →
      InLongRange (ideal.totalBytes + size) ∧
        EntryArray.Fits (ideal.urlMap.addEntry url size) := by
    rcases referer with _ | referer
    · exact fun hfits ↦ ⟨hfits.totalBytes, hfits.url⟩
    · exact fun hfits ↦ ⟨hfits.totalBytes, hfits.url⟩
  have htotalEq : (stats.totalBytes : ℤ) + size = ideal.totalBytes + size :=
    congrArg (· + size) hrep.totalBytes_eq
  rw [ArrayStats.addRecord, EntryArray.stored_checkedLong_of_inRange hsize]
  simp only [ok_bind]
  by_cases htotal : InLongRange ((stats.totalBytes : ℤ) + size)
  swap
  · refine Or.inr ⟨?_, fun hfits ↦ htotal (htotalEq ▸ (hparts hfits).1)⟩
    rw [EntryArray.stored_checkedLong_of_not_inRange htotal]
    rfl
  rw [EntryArray.stored_checkedLong_of_inRange htotal]
  simp only [ok_bind]
  have htotalRep : ({ stats with totalBytes := ⟨_, htotal⟩ } : ArrayStats).Represents
      { ideal with totalBytes := ideal.totalBytes + size } := ⟨hrep.url, hrep.ref, htotalEq⟩
  have hurlGrants := EntryArray.grants_of_plenty hserves.plenty ideal.urlMap
    (hserves.urls _ (List.mem_singleton_self _))
  rcases htotalRep.addUrl ⟨size, hsize⟩ hurlGrants with
    ⟨middle, hmiddle, hmiddleRep⟩ | ⟨hurl, hnot⟩
  swap
  · exact Or.inr ⟨by rw [hurl]; rfl, fun hfits ↦ hnot (hparts hfits).2⟩
  simp only [hmiddle, ok_bind]
  rcases referer with _ | referer
  · exact Or.inl ⟨middle, rfl, hmiddleRep⟩
  · have hrefGrants := EntryArray.grants_of_plenty hserves.plenty ideal.refMap
      (hserves.referers _ (List.mem_singleton_self _) referer rfl)
    rcases hmiddleRep.addRef ⟨1, inLongRange_one⟩ hrefGrants with hnext | ⟨herror, hnot⟩
    · exact Or.inl hnext
    · exact Or.inr ⟨herror, fun hfits ↦ hnot hfits.ref⟩

/-- A merge does on arrays what it does in the integers, unless the result is out of range. Assumes:
the requests for memory succeed. -/
theorem Represents.merge {final : ArrayStats} {idealFinal : ThreadStats}
    (hfinal : final.Represents idealFinal) (hrep : stats.Represents ideal)
    (hplenty : Plenty allocator)
    (hurls : ∀ key ∈ ideal.urlMap.keys, allocator.grants (key.length + 1) = true)
    (hreferers : ∀ key ∈ ideal.refMap.keys, allocator.grants (key.length + 1) = true) :
    (∃ next, merge allocator final stats = .ok next ∧
        next.Represents (idealFinal.merge ideal)) ∨
      merge allocator final stats = .error .overflow ∧ ¬(idealFinal.merge ideal).Fits := by
  have htotalEq : (final.totalBytes : ℤ) + stats.totalBytes = (idealFinal.merge ideal).totalBytes :=
    congrArg₂ (· + ·) hfinal.totalBytes_eq hrep.totalBytes_eq
  rw [ArrayStats.merge]
  by_cases htotal : InLongRange ((final.totalBytes : ℤ) + stats.totalBytes)
  swap
  · refine Or.inr ⟨?_, fun hfits ↦ htotal (htotalEq ▸ hfits.totalBytes)⟩
    rw [EntryArray.stored_checkedLong_of_not_inRange htotal]
    rfl
  rw [EntryArray.stored_checkedLong_of_inRange htotal]
  simp only [ok_bind]
  rcases hfinal.url.mergeMaps_settled hrep.url hplenty hurls with
    ⟨urlMap, hurl, hurlRep⟩ | ⟨hurl, hnot⟩
  swap
  · refine Or.inr ⟨?_, fun hfits ↦ hnot hfits.url⟩
    rw [hurl]
    rfl
  rw [hurl]
  simp only [ok_bind]
  rcases hfinal.ref.mergeMaps_settled hrep.ref hplenty hreferers with
    ⟨refMap, href, hrefRep⟩ | ⟨href, hnot⟩
  · refine Or.inl ⟨⟨urlMap, refMap, ⟨_, htotal⟩⟩, ?_, hurlRep, hrefRep, htotalEq⟩
    rw [href]
    rfl
  · refine Or.inr ⟨?_, fun hfits ↦ hnot hfits.ref⟩
    rw [href]
    rfl

end Exact

/-! ### What the arrays of a thread hold -/

/-- The arrays and the total hold what some records add up to. -/
def Counts (stats : ArrayStats) (records : List LogRecord) : Prop :=
  ∃ ideal : ThreadStats, stats.Represents ideal ∧ ideal.SumsUp records

theorem counts_zero : zero.Counts [] :=
  ⟨ThreadStats.zero, represents_zero, ThreadStats.sumsUp_zero⟩

section Counts

variable {allocator : Allocator} {stats : ArrayStats} {records : List LogRecord}

theorem Counts.totalsInRange (hcounts : stats.Counts records) : TotalsInRange records := by
  obtain ⟨ideal, hrep, hsums⟩ := hcounts
  exact hsums.fits_iff.mp hrep.fits

/-- The size of a record is what `sscanf` stores. -/
theorem inLongRange_size {line : List UInt8} {entry : LogRecord}
    (hrecord : recordOf line = some entry) : InLongRange entry.size := by
  obtain ⟨⟨url, size, sizePtr⟩, hrequest, rfl⟩ := Option.map_eq_some_iff.mp hrecord
  obtain ⟨number, rfl⟩ := exists_toLong_of_requestPart hrequest
  exact ⟨le_toLong number, toLong_le number⟩

/-- A line adds its record to those that are counted, and overflows exactly when they are out of
range then. Assumes: the requests for memory succeed. -/
theorem Counts.parseLogLine (hcounts : stats.Counts records) {line : List UInt8}
    (hserves : Serves allocator (recordOf line).toList) :
    (∃ next, parseLogLine allocator line stats = .ok next ∧
        next.Counts (records ++ (recordOf line).toList)) ∨
      parseLogLine allocator line stats = .error .overflow ∧
        ¬TotalsInRange (records ++ (recordOf line).toList) := by
  rw [parseLogLine_eq]
  rcases hrecord : recordOf line with _ | entry
  · rw [Option.toList_none, List.append_nil]
    exact Or.inl ⟨stats, rfl, hcounts⟩
  · rw [hrecord] at hserves
    obtain ⟨ideal, hrep, hsums⟩ := hcounts
    have hnextSums := hsums.addRecord entry
    rcases hrep.addRecord (inLongRange_size hrecord) hserves with
      ⟨next, hnext, hnextRep⟩ | ⟨herror, hnot⟩
    · exact Or.inl ⟨next, hnext, _, hnextRep, hnextSums⟩
    · exact Or.inr ⟨herror, fun htotals ↦ hnot (hnextSums.fits_iff.mpr htotals)⟩

/-- A merge adds the records of a thread to those that are counted, and overflows exactly when they
are out of range then. Assumes: the requests for memory succeed. -/
theorem Counts.merge {final : ArrayStats} {before : List LogRecord} (hfinal : final.Counts before)
    (hcounts : stats.Counts records) (hserves : Serves allocator records) :
    (∃ next, merge allocator final stats = .ok next ∧ next.Counts (before ++ records)) ∨
      merge allocator final stats = .error .overflow ∧ ¬TotalsInRange (before ++ records) := by
  obtain ⟨idealFinal, hfinalRep, hfinalSums⟩ := hfinal
  obtain ⟨ideal, hrep, hsums⟩ := hcounts
  have hnextSums := hfinalSums.merge hsums
  rcases hfinalRep.merge hrep hserves.plenty (hsums.serves_url hserves)
    (hsums.serves_ref hserves) with ⟨next, hnext, hnextRep⟩ | ⟨herror, hnot⟩
  · exact Or.inl ⟨next, hnext, _, hnextRep, hnextSums⟩
  · exact Or.inr ⟨herror, fun htotals ↦ hnot (hnextSums.fits_iff.mpr htotals)⟩

end Counts

/-! ### The lines of a thread -/

/-- `parse_log_line` for the next line. -/
def parseNext (allocator : Allocator) (stats : ArrayStats) (line : List UInt8) :
    Except MapFault ArrayStats :=
  parseLogLine allocator line stats

/-- The records of some lines. -/
def lineRecords (lines : List (List UInt8)) : List LogRecord := lines.filterMap recordOf

theorem lineRecords_append_singleton (lines : List (List UInt8)) (line : List UInt8) :
    lineRecords (lines ++ [line]) = lineRecords lines ++ (recordOf line).toList := by
  rw [lineRecords, List.filterMap_append, List.filterMap_cons, List.filterMap_nil]
  rcases recordOf line with _ | entry
  · rfl
  · rfl

/-- Lines in a row: the records of all of them are counted, or those of some first lines are out of
range. Assumes: the requests for memory succeed. -/
theorem run_parseNext {allocator : Allocator} {lines : List (List UInt8)}
    (hserves : Serves allocator (lineRecords lines)) :
    (∃ last, run (parseNext allocator) zero lines = .ok last ∧ last.Counts (lineRecords lines) ∧
        ∀ front, front <+: lines → TotalsInRange (lineRecords front)) ∨
      run (parseNext allocator) zero lines = .error .overflow ∧
        ∃ front, front <+: lines ∧ ¬TotalsInRange (lineRecords front) := by
  have hgood (stats : ArrayStats) (front : List (List UInt8))
      (hcounts : stats.Counts (lineRecords front)) : TotalsInRange (lineRecords front) :=
    hcounts.totalsInRange
  refine run_settled hgood counts_zero fun front line stats hfront hcounts ↦ ?_
  have hrecord : (recordOf line).toList ⊆ lineRecords lines := by
    have hsubset := (hfront.filterMap recordOf).subset
    rw [← lineRecords, lineRecords_append_singleton] at hsubset
    exact List.Subset.trans (List.subset_append_right _ _) hsubset
  rw [lineRecords_append_singleton]
  exact hcounts.parseLogLine (hserves.of_subset hrecord)

/-- The lines of a file, as `process_file` reads them. -/
def fileLines (files : Files) (filename : List UInt8) : List (List UInt8) :=
  match files filename with
  | none => []
  | some content => (fgetsAll content).map cString

theorem fileRecords_eq (files : Files) (filename : List UInt8) :
    fileRecords files filename = lineRecords (fileLines files filename) := by
  unfold fileRecords fileLines
  rcases files filename with _ | content
  · rfl
  · exact (List.filterMap_map (g := recordOf)).symm

theorem parseChunks_eq_run (allocator : Allocator) (chunks : List (List UInt8))
    (stats : ArrayStats) :
    parseChunks allocator chunks stats = run (parseNext allocator) stats (chunks.map cString) := by
  induction chunks generalizing stats with
  | nil => rfl
  | cons buffer rest ih =>
    rw [parseChunks, List.map_cons, run, parseNext]
    rcases parseLogLine allocator (cString buffer) stats with fault | next
    · rfl
    · exact ih next

/-- `process_file` parses the lines of the file. -/
theorem processFile_eq_run (allocator : Allocator) (files : Files) (filename : List UInt8)
    (stats : ArrayStats) :
    processFile allocator files filename stats =
      run (parseNext allocator) stats (fileLines files filename) := by
  unfold processFile fileLines
  rcases files filename with _ | content
  · rfl
  · exact parseChunks_eq_run allocator (fgetsAll content) stats

end ArrayStats

/-! ### Files -/

/-- `fgets` reads at most 8191 bytes at once. -/
theorem length_le_of_mem_fgetsAll {content buffer : List UInt8}
    (hbuffer : buffer ∈ fgetsAll content) : buffer.length ≤ 8191 := by
  induction content using fgetsAll.induct with
  | case1 => simp [fgetsAll] at hbuffer
  | case2 byte rest ih =>
    rw [fgetsAll, List.mem_cons] at hbuffer
    rcases hbuffer with rfl | hlater
    · exact length_fst_fgets_le 8191 _
    · exact ih hlater

/-- The records of files have short keys. -/
theorem serves_fileRecords {allocator : Allocator} (hplenty : Plenty allocator) (files : Files)
    (filenames : List (List UInt8)) :
    Serves allocator (filenames.flatMap (fileRecords files)) := by
  have hshort : ∀ entry ∈ filenames.flatMap (fileRecords files),
      entry.url.length ≤ 8191 ∧ ∀ ref ∈ entry.referer, ref.length ≤ 8191 := by
    intro entry hentry
    obtain ⟨filename, -, hfile⟩ := List.mem_flatMap.mp hentry
    unfold fileRecords at hfile
    rcases hcontent : files filename with _ | content <;> rw [hcontent] at hfile
    · exact absurd hfile List.not_mem_nil
    · obtain ⟨buffer, hbuffer, hrecord⟩ := List.mem_filterMap.mp hfile
      obtain ⟨hurl, href⟩ := length_recordOf_le hrecord
      have hline := (length_cString_le buffer).trans (length_le_of_mem_fgetsAll hbuffer)
      exact ⟨hurl.trans hline, fun ref hmem ↦ (href ref hmem).trans hline⟩
  refine ⟨hplenty, fun entry hentry ↦ hplenty _ ?_, fun entry hentry ref href ↦ hplenty _ ?_⟩
  · have hurl := (hshort entry hentry).1
    omega
  · have hlength := (hshort entry hentry).2 ref href
    omega

end Homework.LogParser
