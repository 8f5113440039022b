import Homework.LogParser.Machine
import Homework.LogParser.Segmentation
import Homework.LogParser.Threads
import Mathlib.Data.List.Infix

/-!
# The threads and the joins in C arithmetic

The threads of the log parser work on arrays and `long`s, each on statistics of its own, and `main`
merges them in the order of the threads. The joins go through exactly when what the threads so far
add up to is in range after every join (`ArrayStats.mergeStates_settled`). What all records add up
to, taken positive, bounds this, so if it is in range no thread has a fault at any moment of any
schedule, and the joins have none (`parseLogs_in_range`).
-/

set_option autoImplicit false
set_option relaxedAutoImplicit false

namespace Homework.LogParser

open Homework.Library Homework.Library.ByteBuffer Homework.Library.Cells Homework.Library.CString
  Homework.Library.Runs Homework.Library.TextInput Homework.Library.Workers

/-! ### `main` -/

/-- A thread: the files left in its bucket and its statistics, or the fault that it had. -/
abbrev ArrayThread := Worker (List UInt8) (Except MapFault ArrayStats)

namespace ArrayStats

section Source

variable (allocator : Allocator) (files : Files)

/-- One round of the loop of `thread_function`. A thread that had a fault goes no further. -/
def processNext (filename : List UInt8) (state : Except MapFault ArrayStats) :
    Except MapFault ArrayStats := do
  let stats ← state
  processFile allocator files filename stats

/-- The threads that `main` starts, each with statistics from `calloc`. -/
def startThreads (buckets : List (List (List UInt8))) : List ArrayThread :=
  (startedBuckets buckets).map fun bucket ↦ ⟨bucket, .ok zero⟩

/-- The threads after some steps in the order of a schedule. -/
def runThreads (threads : List ArrayThread) (schedule : List ℕ) : List ArrayThread :=
  runSchedule (processNext allocator files) threads schedule

/-- The loop of `main` over the threads. -/
def mergeStates : List (Except MapFault ArrayStats) → ArrayStats → Except MapFault ArrayStats
  | [], final => return final
  | state :: rest, final => do
    let stats ← state
    let final ← merge allocator final stats
    mergeStates rest final

/-- The joins of `main`, which merge the statistics of the ended threads in order. -/
def joinThreads (threads : List ArrayThread) : Except MapFault ArrayStats :=
  mergeStates allocator (threads.map Worker.state) zero

end Source

end ArrayStats

/-! ### Buckets -/

namespace ArrayStats

section Exact

variable {allocator : Allocator}

/-- A thread parses the lines of its files. -/
theorem foldl_processNext (files : Files) (filenames : List (List UInt8)) (stats : ArrayStats) :
    filenames.foldl (fun state filename ↦ processNext allocator files filename state) (.ok stats) =
      run (parseNext allocator) stats (filenames.flatMap (fileLines files)) := by
  induction filenames using List.reverseRecOn with
  | nil => rfl
  | append_singleton filenames filename ih =>
    rw [List.foldl_append, ih, List.flatMap_append, List.flatMap_singleton]
    rcases hrun : run (parseNext allocator) stats (filenames.flatMap (fileLines files)) with
      fault | last
    · rw [run_append_of_error hrun]
      rfl
    · rw [run_append_of_ok hrun, ← processFile_eq_run]
      rfl

/-- A join as a step. -/
def joinNext (allocator : Allocator) (final : ArrayStats) (lines : List (List UInt8)) :
    Except MapFault ArrayStats := do
  let stats ← run (parseNext allocator) zero lines
  merge allocator final stats

theorem mergeStates_eq_run (buckets : List (List (List UInt8))) (final : ArrayStats) :
    mergeStates allocator (buckets.map (run (parseNext allocator) zero)) final =
      run (joinNext allocator) final buckets := by
  induction buckets generalizing final with
  | nil => rfl
  | cons lines rest ih =>
    rw [List.map_cons, mergeStates, run, joinNext]
    rcases run (parseNext allocator) zero lines with fault | stats
    · rfl
    · simp only [ok_bind]
      rcases merge allocator final stats with fault | next
      · rfl
      · exact ih next

/-- The joins of threads that have gone through their lines: the records of all of them are counted,
or those of some first threads are out of range. Assumes: the requests for memory succeed. -/
theorem mergeStates_settled {buckets : List (List (List UInt8))}
    (hbuckets : ∀ lines ∈ buckets, ∃ stats, run (parseNext allocator) zero lines = .ok stats ∧
      stats.Counts (lineRecords lines))
    (hserves : Serves allocator (lineRecords buckets.flatten)) :
    (∃ last, mergeStates allocator (buckets.map (run (parseNext allocator) zero)) zero = .ok last ∧
        last.Counts (lineRecords buckets.flatten) ∧
        ∀ front, front <+: buckets → TotalsInRange (lineRecords front.flatten)) ∨
      mergeStates allocator (buckets.map (run (parseNext allocator) zero)) zero =
          .error .overflow ∧
        ∃ front, front <+: buckets ∧ ¬TotalsInRange (lineRecords front.flatten) := by
  have hgood (stats : ArrayStats) (front : List (List (List UInt8)))
      (hcounts : stats.Counts (lineRecords front.flatten)) :
      TotalsInRange (lineRecords front.flatten) := hcounts.totalsInRange
  rw [mergeStates_eq_run]
  refine run_settled hgood counts_zero fun front lines final hfront hcounts ↦ ?_
  have hmem : lines ∈ buckets := hfront.subset (List.mem_append_right _ List.mem_cons_self)
  obtain ⟨stats, hstats, hstatsCounts⟩ := hbuckets lines hmem
  have hrecords : lineRecords (front ++ [lines]).flatten =
      lineRecords front.flatten ++ lineRecords lines := by
    rw [List.flatten_append, List.flatten_singleton]
    exact List.filterMap_append
  have hsubset : lineRecords lines ⊆ lineRecords buckets.flatten :=
    ((List.sublist_flatten_of_mem hmem).filterMap recordOf).subset
  rw [joinNext, hstats, hrecords]
  exact hcounts.merge hstatsCounts (hserves.of_subset hsubset)

end Exact

end ArrayStats

section Buckets

variable {allocator : Allocator} {files : Files}

theorem lineRecords_flatMap_fileLines (filenames : List (List UInt8)) :
    ArrayStats.lineRecords (filenames.flatMap (ArrayStats.fileLines files)) =
      filenames.flatMap (fileRecords files) := by
  rw [ArrayStats.lineRecords, List.filterMap_flatMap]
  exact List.flatMap_congr fun filename _ ↦ (ArrayStats.fileRecords_eq files filename).symm

/-- The records of some first lines are in range with those of all lines. -/
theorem RecordsInRange.of_prefix {front lines : List (List UInt8)}
    (hrange : RecordsInRange (ArrayStats.lineRecords lines)) (hfront : front <+: lines) :
    RecordsInRange (ArrayStats.lineRecords front) := by
  obtain ⟨rest, rfl⟩ := hfront
  rw [ArrayStats.lineRecords, List.filterMap_append] at hrange
  exact hrange.append_left

/-- What a thread has after some files whose records are in range. -/
theorem exists_counts_foldl (hplenty : Plenty allocator) {filenames : List (List UInt8)}
    (hrange : RecordsInRange (filenames.flatMap (fileRecords files))) :
    ∃ stats, run (ArrayStats.parseNext allocator) ArrayStats.zero
        (filenames.flatMap (ArrayStats.fileLines files)) = .ok stats ∧
      stats.Counts (ArrayStats.lineRecords (filenames.flatMap (ArrayStats.fileLines files))) := by
  have hserves := serves_fileRecords hplenty files filenames
  rw [← lineRecords_flatMap_fileLines] at hserves hrange
  rcases ArrayStats.run_parseNext hserves with
    ⟨stats, hstats, hcounts, -⟩ | ⟨-, front, hfront, hnot⟩
  · exact ⟨stats, hstats, hcounts⟩
  · exact absurd (hrange.of_prefix hfront).totals hnot

/-- The records of a bucket are in range with those of all buckets. -/
theorem RecordsInRange.of_mem_buckets {buckets : List (List (List UInt8))}
    (hrange : RecordsInRange (buckets.flatten.flatMap (fileRecords files)))
    {bucket : List (List UInt8)} (hbucket : bucket ∈ buckets) :
    RecordsInRange (bucket.flatMap (fileRecords files)) := by
  obtain ⟨before, after, rfl⟩ := List.append_of_mem hbucket
  rw [List.flatten_append, List.flatten_cons, List.flatMap_append, List.flatMap_append] at hrange
  have hfront : RecordsInRange (bucket.flatMap (fileRecords files) ++
      (after.flatten.flatMap (fileRecords files) ++
        before.flatten.flatMap (fileRecords files))) := by
    refine hrange.perm ?_
    rw [← List.append_assoc]
    exact List.perm_append_comm
  exact hfront.append_left

/-- The joins of the threads of some buckets whose records are in range. -/
theorem exists_counts_mergeStates (hplenty : Plenty allocator)
    {buckets : List (List (List UInt8))}
    (hrange : RecordsInRange (buckets.flatten.flatMap (fileRecords files))) :
    ∃ last, ArrayStats.mergeStates allocator (buckets.map fun bucket ↦ bucket.foldl
        (fun state filename ↦ ArrayStats.processNext allocator files filename state)
        (.ok ArrayStats.zero)) ArrayStats.zero = .ok last ∧
      last.Counts (buckets.flatten.flatMap (fileRecords files)) := by
  have hlines : (buckets.map fun bucket ↦ bucket.flatMap (ArrayStats.fileLines files)).flatten =
      buckets.flatten.flatMap (ArrayStats.fileLines files) := by
    rw [← List.flatMap_def, List.flatten_eq_flatMap, List.flatMap_assoc]
    rfl
  have hserves := serves_fileRecords hplenty files buckets.flatten
  have hall := hrange
  rw [← lineRecords_flatMap_fileLines, ← hlines] at hserves hall ⊢
  have hbuckets : ∀ lines ∈ buckets.map fun bucket ↦ bucket.flatMap (ArrayStats.fileLines files),
      ∃ stats, run (ArrayStats.parseNext allocator) ArrayStats.zero lines = .ok stats ∧
        stats.Counts (ArrayStats.lineRecords lines) := by
    intro lines hmem
    obtain ⟨bucket, hbucket, rfl⟩ := List.mem_map.mp hmem
    exact exists_counts_foldl hplenty (hrange.of_mem_buckets hbucket)
  simp only [ArrayStats.foldl_processNext]
  rcases ArrayStats.mergeStates_settled hbuckets hserves with
    ⟨last, hlast, hcounts, -⟩ | ⟨-, front, hfront, hnot⟩
  · rw [List.map_map] at hlast
    exact ⟨last, hlast, hcounts⟩
  · exact absurd (hall.of_prefix hfront.flatten).totals hnot

end Buckets

/-! ### Every schedule -/

/-- If what all records add up to is in range, so is everything on the way. Assumes: at least one
thread, the requests for less than 16 GiB succeed, and for the records of all regular files the
sizes taken positive add up to a `long`, as do the referers, with at most 2³⁰ urls and 2³⁰ referers.
Then no thread has a fault at any moment of any schedule, and once all threads have ended `main`
merges their statistics without a fault to those of one thread that processes all files. -/
theorem parseLogs_in_range (allocator : Allocator) (files : Files) (dir : List DirEntry)
    (path : List UInt8) {nthreads : ℕ} (hnthreads : 0 < nthreads) (hplenty : Plenty allocator)
    (hrange : RecordsInRange ((regularFiles dir path).flatMap (fileRecords files)))
    (schedule : List ℕ) :
    (∀ thread ∈ ArrayStats.runThreads allocator files
        (ArrayStats.startThreads (splitFiles dir path nthreads)) schedule,
      ∃ stats, thread.state = .ok stats) ∧
    ((∀ thread ∈ ArrayStats.runThreads allocator files
        (ArrayStats.startThreads (splitFiles dir path nthreads)) schedule, thread.pending = []) →
      ∃ final ideal, ArrayStats.joinThreads allocator (ArrayStats.runThreads allocator files
          (ArrayStats.startThreads (splitFiles dir path nthreads)) schedule) = .ok final ∧
        final.Represents ideal ∧
        ideal.SameStatistics
          (threadFunction files (regularFiles dir path) ThreadStats.zero)) := by
  have hperm : (startedBuckets (splitFiles dir path nthreads)).flatten.Perm
      (regularFiles dir path) := by
    rw [splitFiles_eq_deal]
    exact flatten_takeWhile_deal hnthreads _
  have hall : RecordsInRange
      ((startedBuckets (splitFiles dir path nthreads)).flatten.flatMap (fileRecords files)) :=
    hrange.perm (hperm.flatMap_right _)
  constructor
  · intro thread hthread
    obtain ⟨place, hplace⟩ := List.mem_iff_getElem?.mp hthread
    obtain ⟨beginning, hbeginning, done, hpending, hstate⟩ :=
      exists_done_of_getElem?_runSchedule _ _ schedule place thread hplace
    obtain ⟨bucket, hbucket, rfl⟩ := List.mem_map.mp (List.mem_of_getElem? hbeginning)
    have hsplit : bucket = done ++ thread.pending := hpending
    have hbucketRange := hall.of_mem_buckets hbucket
    rw [hsplit, List.flatMap_append] at hbucketRange
    obtain ⟨stats, hstats, -⟩ := exists_counts_foldl hplenty hbucketRange.append_left
    rw [← ArrayStats.foldl_processNext] at hstats
    exact ⟨stats, hstate.trans hstats⟩
  · intro hended
    have hstates := map_state_runSchedule (ArrayStats.processNext allocator files) _ schedule hended
    obtain ⟨final, hfinal, ideal, hrep, hsums⟩ := exists_counts_mergeStates hplenty hall
    have hsequential :=
      ThreadStats.represents_zero.threadFunction files (regularFiles dir path)
    refine ⟨final, ideal, ?_, hrep,
      hsums.represents.sameStatistics_of_perm hsequential (hperm.flatMap_right _)⟩
    rw [ArrayStats.joinThreads, ArrayStats.runThreads, hstates, ArrayStats.startThreads,
      List.map_map]
    exact hfinal

/-- A log of one line, with a referer. -/
def oneLine : List UInt8 := ascii "h - - [d] \"GET /x/ HTTP/1.0\" 200 42 \"-\" \"u\"\n"

theorem fileRecords_oneLine (filename : List UInt8) :
    fileRecords (fun _ ↦ some oneLine) filename = [⟨[47, 120], 42, some [45]⟩] := by
  have hchunks : fgetsAll oneLine = [oneLine] := by
    have hsplit : oneLine = oneLine.dropLast ++ newline :: [] := by decide
    rw [hsplit, fgetsAll_line (by decide) (by decide), fgetsAll]
  rw [fileRecords]
  simp only [hchunks]
  decide

/-- Two logs of one line each, with a directory in between, given to three threads. -/
theorem parseLogs_in_range_two :
    Plenty generous ∧ ∃ final ideal, ArrayStats.joinThreads generous
        (ArrayStats.runThreads generous (fun _ ↦ some oneLine) (ArrayStats.startThreads
          (splitFiles [⟨8, [97]⟩, ⟨4, [46]⟩, ⟨8, [98]⟩] [100] 3)) [1, 0]) = .ok final ∧
      final.Represents ideal ∧ ideal.SameStatistics (threadFunction (fun _ ↦ some oneLine)
        (regularFiles [⟨8, [97]⟩, ⟨4, [46]⟩, ⟨8, [98]⟩] [100]) ThreadStats.zero) := by
  have hplenty : Plenty generous := fun bytes hbytes ↦ decide_eq_true (by omega)
  have hfiles : regularFiles [⟨8, [97]⟩, ⟨4, [46]⟩, ⟨8, [98]⟩] [100] =
      [[100, 47, 97], [100, 47, 98]] := by decide
  have hrange : RecordsInRange ((regularFiles [⟨8, [97]⟩, ⟨4, [46]⟩, ⟨8, [98]⟩] [100]).flatMap
      (fileRecords fun _ ↦ some oneLine)) := by
    rw [hfiles, List.flatMap_cons, List.flatMap_cons, List.flatMap_nil, fileRecords_oneLine,
      fileRecords_oneLine]
    exact ⟨⟨by decide, by decide⟩, ⟨by decide, by decide⟩⟩
  refine ⟨hplenty, (parseLogs_in_range generous (fun _ ↦ some oneLine)
    [⟨8, [97]⟩, ⟨4, [46]⟩, ⟨8, [98]⟩] [100] (by decide) hplenty hrange [1, 0]).2 ?_⟩
  intro thread hthread
  have hthreads : (ArrayStats.runThreads generous (fun _ ↦ some oneLine) (ArrayStats.startThreads
      (splitFiles [⟨8, [97]⟩, ⟨4, [46]⟩, ⟨8, [98]⟩] [100] 3)) [1, 0]).map Worker.pending =
        [[], []] := rfl
  have hpending := List.mem_map_of_mem (f := Worker.pending) hthread
  rw [hthreads] at hpending
  simpa using hpending

end Homework.LogParser
