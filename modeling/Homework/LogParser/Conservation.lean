import Homework.LogParser.Joins

/-!
# Conservation of bytes

What a line adds to the total of a thread it also adds to the map of urls, and it counts a referer
at most once, so between any two lines the total of a thread is the sum of its url map and its
referers are no more than the lines that got as far as the total (`ArrayStats.Conserved`). Merging
adds totals and maps alike. Arrays that hold what some records add up to conserve the bytes
(`ArrayStats.Counts.conserved`).

Nothing protects the `long` sums, so the threads and the joins go through exactly as long as what
the records add up to is in range after every line and after every join (`bytes_conserved_iff`).

Here the threads stop after every line, and not after every file as in the model of `main`;
`outcome_startLines` says that they end with the same statistics.
-/

set_option autoImplicit false
set_option relaxedAutoImplicit false

namespace Homework.LogParser

open Homework.Library Homework.Library.ByteBuffer Homework.Library.Cells Homework.Library.CString
  Homework.Library.Runs Homework.Library.Workers

/-! ### The sum of an array -/

namespace EntryArray

/-- The value that an element of the array points to. -/
def elementValue : Option EntryObject → ℤ
  | none => 0
  | some entry => entry.value

/-- The sum of the values of the entries. -/
def sum (array : EntryArray) : ℤ :=
  ((array.elements.take array.size.val.toNat).map elementValue).sum

/-- The array has the sum of the map that it represents. -/
theorem Represents.sum_eq {array : EntryArray} {map : EntryMap} (hrep : array.Represents map) :
    array.sum = map.sum := by
  have hentries : (array.elements.take map.entries.length).map hashEntry? =
      map.entries.map some := by
    rw [List.map_take, hrep.elements_eq, List.take_left' (List.length_map _)]
  have hvalues : (array.elements.take map.entries.length).map elementValue =
      ((array.elements.take map.entries.length).map hashEntry?).map fun entry ↦
        entry.elim 0 HashEntry.value := by
    rw [List.map_map]
    refine List.map_congr_left fun element helement ↦ ?_
    have hsome : hashEntry? element ∈ map.entries.map some :=
      hentries ▸ List.mem_map_of_mem helement
    obtain ⟨entry, -, hentry⟩ := List.mem_map.mp hsome
    obtain ⟨object, rfl, hobject⟩ := Option.bind_eq_some_iff.mp hentry.symm
    obtain ⟨key, -, rfl⟩ := Option.map_eq_some_iff.mp hobject
    rw [Function.comp_apply, ← hentry]
    rfl
  rw [sum, hrep.toNat_size, hvalues, hentries, List.map_map]
  rfl

end EntryArray

/-! ### The statistics of some lines -/

/-- `parse_log_line` reaches the update of the total. -/
def Reaches (line : List UInt8) : Bool := (requestPart line).isSome

namespace ArrayStats

/-- The total is the sum of the url map, and the referers are no more than the lines that reached
the update of the total. -/
structure Conserved (stats : ArrayStats) (lines : List (List UInt8)) : Prop where
  totalBytes_eq : (stats.totalBytes : ℤ) = stats.urlMap.sum
  refs_le : stats.refMap.sum ≤ lines.countP Reaches

theorem length_lineRecords (lines : List (List UInt8)) :
    (lineRecords lines).length = lines.countP Reaches := by
  rw [lineRecords, List.length_filterMap_eq_countP]
  refine List.countP_congr fun line _ ↦ ?_
  rw [recordOf, Option.isSome_map]
  rfl

/-- What the records add up to conserves the bytes. -/
theorem Counts.conserved {stats : ArrayStats} {lines : List (List UInt8)}
    (hcounts : stats.Counts (lineRecords lines)) : stats.Conserved lines := by
  obtain ⟨ideal, hrep, hsums⟩ := hcounts
  constructor
  · rw [hrep.url.sum_eq, hsums.url.sum_eq, hrep.totalBytes_eq, hsums.totalBytes_eq,
      LogRecord.urls, List.map_map]
    rfl
  · have hones : ((LogRecord.referers (lineRecords lines)).map Prod.snd).sum =
        ((lineRecords lines).filterMap LogRecord.referer).length := by
      rw [LogRecord.referers, List.map_map]
      simp [Function.comp_def]
    have hle : ((lineRecords lines).filterMap LogRecord.referer).length ≤
        lines.countP Reaches := by
      rw [← length_lineRecords]
      exact List.length_filterMap_le _ _
    rw [hrep.ref.sum_eq, hsums.ref.sum_eq, hones]
    exact_mod_cast hle

/-- A line that is rejected before the update of the total leaves the statistics as they are. -/
theorem parseLogLine_of_not_reaches (allocator : Allocator) {line : List UInt8}
    (hline : Reaches line = false) (stats : ArrayStats) :
    parseLogLine allocator line stats = .ok stats := by
  rw [Reaches, Option.isSome_eq_false_iff, Option.isNone_iff_eq_none] at hline
  rw [parseLogLine, hline]
  rfl

end ArrayStats

/-! ### The threads, line by line -/

/-- A thread that stops after every line: the lines left and its statistics, or the fault that it
had. -/
abbrev LineThread := Worker (List UInt8) (Except MapFault ArrayStats)

section Source

variable (allocator : Allocator)

/-- `parse_log_line` for the next line. A thread that had a fault goes no further. -/
def processLine (line : List UInt8) (state : Except MapFault ArrayStats) :
    Except MapFault ArrayStats := do
  let stats ← state
  ArrayStats.parseLogLine allocator line stats

/-- Threads with the lines that each is to process. -/
def startLines (work : List (List (List UInt8))) : List LineThread :=
  work.map fun lines ↦ ⟨lines, .ok ArrayStats.zero⟩

/-- The threads after some steps in the order of a schedule. In a step a thread processes its next
line. -/
def runLines (work : List (List (List UInt8))) (schedule : List ℕ) : List LineThread :=
  runSchedule (processLine allocator) (startLines work) schedule

/-- `final_stats` after the joins of some threads. -/
def joinLines (threads : List LineThread) : Except MapFault ArrayStats :=
  ArrayStats.mergeStates allocator (threads.map Worker.state) ArrayStats.zero

/-- Bytes are conserved. Under every schedule, at every moment each thread has its statistics, and
they conserve the bytes of the lines that it has processed. Whenever the first threads have ended
and are joined, so do the merged statistics. A line that is rejected before the update of the total
changes neither the total nor a map. -/
structure Conserves (work : List (List (List UInt8))) : Prop where
  threads : ∀ (schedule : List ℕ) (place : ℕ) (thread : LineThread),
    (runLines allocator work schedule)[place]? = some thread →
      ∃ lines stats, work[place]? = some (lines ++ thread.pending) ∧ thread.state = .ok stats ∧
        stats.Conserved lines
  joins : ∀ schedule joined,
    (∀ thread ∈ (runLines allocator work schedule).take joined, thread.pending = []) →
      ∃ final, joinLines allocator ((runLines allocator work schedule).take joined) = .ok final ∧
        final.Conserved (work.take joined).flatten
  rejected : ∀ line stats, Reaches line = false →
    ArrayStats.parseLogLine allocator line stats = .ok stats

end Source

/-- What the records of the lines add up to is in range after every line of every thread and after
every join. -/
structure TotalsFit (work : List (List (List UInt8))) : Prop where
  threads : ∀ lines ∈ work, ∀ front, front <+: lines →
    TotalsInRange (ArrayStats.lineRecords front)
  joins : ∀ joined, joined <+: work → TotalsInRange (ArrayStats.lineRecords joined.flatten)

section Lines

variable {allocator : Allocator} {work : List (List (List UInt8))}

theorem foldl_processLine (lines : List (List UInt8)) (stats : ArrayStats) :
    lines.foldl (fun state line ↦ processLine allocator line state) (.ok stats) =
      run (ArrayStats.parseNext allocator) stats lines :=
  foldl_bind_eq_run lines stats

/-- The threads of `main` end with the same statistics, line by line and file by file. -/
theorem outcome_startLines (files : Files) (buckets : List (List (List UInt8))) :
    (startLines (buckets.map fun bucket ↦ bucket.flatMap (ArrayStats.fileLines files))).map
        (Worker.outcome (processLine allocator)) =
      (buckets.map fun bucket ↦ ⟨bucket, .ok ArrayStats.zero⟩).map
        (Worker.outcome (ArrayStats.processNext allocator files)) := by
  unfold startLines
  rw [List.map_map, List.map_map, List.map_map]
  refine List.map_congr_left fun bucket _ ↦ ?_
  exact (foldl_processLine _ _).trans
    (ArrayStats.foldl_processNext files bucket ArrayStats.zero).symm

/-- Once some first threads have ended, their states are what their lines lead to. -/
theorem map_state_take_runLines {schedule : List ℕ} {joined : ℕ}
    (hended : ∀ thread ∈ (runLines allocator work schedule).take joined, thread.pending = []) :
    ((runLines allocator work schedule).take joined).map Worker.state =
      (work.take joined).map (run (ArrayStats.parseNext allocator) ArrayStats.zero) := by
  rw [map_state_eq_outcome (processLine allocator) hended, List.map_take, runLines,
    map_outcome_runSchedule, startLines, List.map_map, List.map_take]
  refine congrArg _ (List.map_congr_left fun lines _ ↦ ?_)
  exact foldl_processLine lines ArrayStats.zero

section Served

variable (hserves : Serves allocator (ArrayStats.lineRecords work.flatten))
include hserves

/-- The requests for the lines of a thread succeed. -/
theorem Serves.of_mem_work {lines front : List (List UInt8)} (hlines : lines ∈ work)
    (hfront : front <+: lines) : Serves allocator (ArrayStats.lineRecords front) := by
  refine hserves.of_subset ?_
  exact ((hfront.sublist.trans (List.sublist_flatten_of_mem hlines)).filterMap recordOf).subset

/-- The lines of a thread, if their records are in range after every one. -/
theorem exists_counts_run {lines front : List (List UInt8)} (hlines : lines ∈ work)
    (hfront : front <+: lines)
    (hfit : ∀ earlier, earlier <+: lines → TotalsInRange (ArrayStats.lineRecords earlier)) :
    ∃ stats, run (ArrayStats.parseNext allocator) ArrayStats.zero front = .ok stats ∧
      stats.Counts (ArrayStats.lineRecords front) := by
  rcases ArrayStats.run_parseNext (hserves.of_mem_work hlines hfront) with
    ⟨stats, hstats, hcounts, -⟩ | ⟨-, earlier, hearlier, hnot⟩
  · exact ⟨stats, hstats, hcounts⟩
  · exact absurd (hfit earlier (hearlier.trans hfront)) hnot

/-- The joins of the first threads, once their lines have gone through. -/
theorem joins_settled (hfit : ∀ lines ∈ work, ∀ front, front <+: lines →
      TotalsInRange (ArrayStats.lineRecords front)) {joined : ℕ} :
    (∃ last, ArrayStats.mergeStates allocator ((work.take joined).map
          (run (ArrayStats.parseNext allocator) ArrayStats.zero)) ArrayStats.zero = .ok last ∧
        last.Counts (ArrayStats.lineRecords (work.take joined).flatten)) ∨
      ArrayStats.mergeStates allocator ((work.take joined).map
          (run (ArrayStats.parseNext allocator) ArrayStats.zero)) ArrayStats.zero =
          .error .overflow ∧
        ∃ front, front <+: work ∧ ¬TotalsInRange (ArrayStats.lineRecords front.flatten) := by
  have hbuckets : ∀ lines ∈ work.take joined, ∃ stats,
      run (ArrayStats.parseNext allocator) ArrayStats.zero lines = .ok stats ∧
        stats.Counts (ArrayStats.lineRecords lines) := fun lines hlines ↦
    exists_counts_run hserves (List.mem_of_mem_take hlines) List.prefix_rfl
      (hfit lines (List.mem_of_mem_take hlines))
  have hsubset : ArrayStats.lineRecords (work.take joined).flatten ⊆
      ArrayStats.lineRecords work.flatten :=
    ((List.take_prefix joined work).flatten.filterMap recordOf).subset
  rcases ArrayStats.mergeStates_settled hbuckets (hserves.of_subset hsubset) with
    ⟨last, hlast, hcounts, -⟩ | ⟨herror, front, hfront, hnot⟩
  · exact Or.inl ⟨last, hlast, hcounts⟩
  · exact Or.inr ⟨herror, front, hfront.trans (List.take_prefix joined work), hnot⟩

/-- A thread that goes through its lines has had them in range. -/
theorem Conserves.totalsFit (hconserves : Conserves allocator work) : TotalsFit work := by
  have hthreads : ∀ lines ∈ work, ∀ front, front <+: lines →
      TotalsInRange (ArrayStats.lineRecords front) := by
    rintro lines hlines front ⟨rest, rfl⟩
    obtain ⟨place, hplace⟩ := List.mem_iff_getElem?.mp hlines
    have hstart : (startLines work)[place]? = some ⟨front ++ rest, .ok ArrayStats.zero⟩ := by
      rw [startLines, List.getElem?_map, hplace]
      rfl
    have hthread := runSchedule_replicate (processLine allocator) (startLines work) place hstart
    obtain ⟨-, stats, -, hstats, -⟩ := hconserves.threads _ place _ hthread
    rw [foldl_processLine] at hstats
    rcases ArrayStats.run_parseNext
      (hserves.of_mem_work hlines (List.prefix_append front rest)) with
      ⟨-, -, -, hall⟩ | ⟨herror, -⟩
    · exact hall front List.prefix_rfl
    · exact absurd (hstats.symm.trans herror) nofun
  refine ⟨hthreads, fun joined hjoined ↦ ?_⟩
  obtain ⟨schedule, hended⟩ := exists_finishing_schedule (processLine allocator) (startLines work)
  have htake : ∀ thread ∈ (runLines allocator work schedule).take joined.length,
      thread.pending = [] := fun thread hthread ↦ hended thread (List.mem_of_mem_take hthread)
  obtain ⟨final, hfinal, -⟩ := hconserves.joins schedule joined.length htake
  rw [joinLines, map_state_take_runLines htake] at hfinal
  rw [List.prefix_iff_eq_take.mp hjoined]
  rcases joins_settled hserves hthreads with ⟨last, -, hcounts⟩ | ⟨herror, -⟩
  · exact hcounts.totalsInRange
  · exact absurd (hfinal.symm.trans herror) nofun

/-- Bytes are conserved exactly when what the records add up to is in range after every line of
every thread and after every join. Assumes: the requests for memory succeed. -/
theorem bytes_conserved_iff : Conserves allocator work ↔ TotalsFit work := by
  refine ⟨Conserves.totalsFit hserves, fun hfit ↦ ⟨?_, ?_, ?_⟩⟩
  · intro schedule place thread hthread
    obtain ⟨beginning, hbeginning, done, hpending, hstate⟩ :=
      exists_done_of_getElem?_runSchedule _ _ schedule place thread hthread
    rw [startLines, List.getElem?_map, Option.map_eq_some_iff] at hbeginning
    obtain ⟨lines, hlines, rfl⟩ := hbeginning
    have hsplit : lines = done ++ thread.pending := hpending
    have hmem := List.mem_of_getElem? hlines
    obtain ⟨stats, hstats, hcounts⟩ := exists_counts_run hserves hmem
      (hsplit ▸ List.prefix_append done thread.pending) (hfit.threads lines hmem)
    refine ⟨done, stats, hsplit ▸ hlines, ?_, hcounts.conserved⟩
    rw [hstate, ← hstats]
    exact foldl_processLine done ArrayStats.zero
  · intro schedule joined hended
    rw [joinLines, map_state_take_runLines hended]
    rcases joins_settled hserves hfit.threads with
      ⟨last, hlast, hcounts⟩ | ⟨-, front, hfront, hnot⟩
    · exact ⟨last, hlast, hcounts.conserved⟩
    · exact absurd (hfit.joins front hfront) hnot
  · exact fun line stats hline ↦ ArrayStats.parseLogLine_of_not_reaches allocator hline stats

end Served

end Lines

/-- Two threads with a request each. -/
theorem bytes_conserved_pages :
    Conserves generous [[pageLine.text], [pageLine.text]] := by
  have hserves : Serves generous (ArrayStats.lineRecords
      ([[pageLine.text], [pageLine.text]] : List (List (List UInt8))).flatten) :=
    ⟨plenty_generous, by decide, by decide⟩
  have hrange : RecordsInRange (ArrayStats.lineRecords [pageLine.text, pageLine.text]) :=
    ⟨⟨by decide, by decide⟩, ⟨by decide, by decide⟩⟩
  refine (bytes_conserved_iff hserves).mpr ⟨fun lines hlines front hfront ↦ ?_,
    fun joined hjoined ↦ (hrange.of_prefix hjoined.flatten).totals⟩
  have hone : lines = [pageLine.text] := by simpa using hlines
  rw [hone] at hfront
  exact (hrange.of_prefix (hfront.trans (List.prefix_append [pageLine.text] _))).totals

/-- A thread with a request of `LONG_MAX` bytes and one of a byte: the total overflows. -/
theorem bytes_not_conserved :
    Serves generous (ArrayStats.lineRecords [largeLine.text, pageLine.text]) ∧
      ¬Conserves generous [[largeLine.text, pageLine.text]] := by
  have hserves : Serves generous (ArrayStats.lineRecords [largeLine.text, pageLine.text]) :=
    ⟨plenty_generous, by decide, by decide⟩
  refine ⟨hserves, fun hconserves ↦ ?_⟩
  have hfit := Conserves.totalsFit hserves hconserves
  have htotals := hfit.threads _ (List.mem_singleton_self _) _ List.prefix_rfl
  exact absurd htotals.totalBytes (by decide)

end Homework.LogParser
