import Homework.Library.Workers
import Homework.LogParser.Line

/-!
# The threads of the log parser

`split_files` deals the regular files of a directory to the threads round robin, `main` starts a
thread for every bucket up to the first empty one, and once all threads are joined their statistics
are merged in the order of the threads. A thread works on statistics of its own, one file at a time,
and the threads run in any interleaving.

The result does not depend on the number of threads nor on the interleaving
(`parseLogs_thread_independent`): the buckets of the started threads hold every regular file exactly
once, the threads can always run to their end, and the merged statistics are those of one thread
that works on all files.
-/

set_option autoImplicit false
set_option relaxedAutoImplicit false

namespace Homework.LogParser

open Homework.Library.Workers

/-! ### `split_files` -/

/-- What `readdir` gives of an entry. -/
structure DirEntry where
  dType : UInt8
  dName : List UInt8
deriving DecidableEq, Repr

/-- `DT_REG`, the type of regular files. -/
def dtReg : UInt8 := 8

/-- `sprintf(full_path, "%s/%s", path, entry->d_name)`. -/
def fullPath (path : List UInt8) (entry : DirEntry) : List UInt8 :=
  path ++ slash :: entry.dName

/-- The state of the loop of `split_files`. A bucket without files is `NULL`, and `counts` holds the
lengths of the buckets. -/
structure Split where
  index : ℕ
  buckets : List (List (List UInt8))

/-- One round of the loop of `split_files`. -/
def splitEntry (path : List UInt8) (nthreads : ℕ) (split : Split) (entry : DirEntry) : Split :=
  if entry.dType = dtReg then
    { index := split.index + 1
      buckets := split.buckets.modify (split.index % nthreads) (· ++ [fullPath path entry]) }
  else split

/-- `split_files`. -/
def splitFiles (dir : List DirEntry) (path : List UInt8) (nthreads : ℕ) :
    List (List (List UInt8)) :=
  (dir.foldl (splitEntry path nthreads) ⟨0, List.replicate nthreads []⟩).buckets

/-- The paths of the regular files of a directory, in its order. -/
def regularFiles (dir : List DirEntry) (path : List UInt8) : List (List UInt8) :=
  (dir.filter fun entry ↦ entry.dType = dtReg).map (fullPath path)

/-- The loop of `split_files` deals the regular files round robin. -/
theorem buckets_foldl_splitEntry (dir : List DirEntry) (path : List UInt8) (split : Split) :
    (dir.foldl (splitEntry path split.buckets.length) split).buckets =
      dealFrom split.index split.buckets (regularFiles dir path) := by
  induction dir generalizing split with
  | nil => rfl
  | cons entry rest ih =>
    rw [List.foldl_cons, splitEntry]
    by_cases hregular : entry.dType = dtReg
    · have hdeal := ih ⟨split.index + 1, dealJob split.index split.buckets (fullPath path entry)⟩
      rw [length_dealJob] at hdeal
      have hfiles : regularFiles (entry :: rest) path =
          fullPath path entry :: regularFiles rest path := by
        simp [regularFiles, hregular]
      rw [if_pos hregular, hfiles]
      exact hdeal
    · have hfiles : regularFiles (entry :: rest) path = regularFiles rest path := by
        simp [regularFiles, hregular]
      rw [if_neg hregular, hfiles]
      exact ih split

/-- `split_files` deals the regular files round robin. -/
theorem splitFiles_eq_deal (dir : List DirEntry) (path : List UInt8) (nthreads : ℕ) :
    splitFiles dir path nthreads = deal nthreads (regularFiles dir path) := by
  have hsplit := buckets_foldl_splitEntry dir path ⟨0, List.replicate nthreads []⟩
  rw [List.length_replicate] at hsplit
  exact hsplit

/-! ### `main` -/

/-- A thread: the files left in its bucket and its statistics. -/
abbrev Thread := Worker (List UInt8) ThreadStats

/-- `thread_function`. -/
def threadFunction (files : Files) (filenames : List (List UInt8)) (stats : ThreadStats) :
    ThreadStats :=
  filenames.foldl (fun stats filename ↦ processFile files filename stats) stats

/-- The buckets that get a thread: `main` cuts `nthreads` at the first empty bucket. -/
def startedBuckets (buckets : List (List (List UInt8))) : List (List (List UInt8)) :=
  buckets.takeWhile fun bucket ↦ !bucket.isEmpty

/-- The threads that `main` starts, each with statistics from `calloc`. -/
def startThreads (buckets : List (List (List UInt8))) : List Thread :=
  (startedBuckets buckets).map fun bucket ↦ ⟨bucket, ThreadStats.zero⟩

/-- The threads after some steps in the order of a schedule. In a step a thread processes its next
file. -/
def runThreads (files : Files) (threads : List Thread) (schedule : List ℕ) : List Thread :=
  runSchedule (processFile files) threads schedule

/-- A thread ends when its bucket has no files left. -/
def Ended (threads : List Thread) : Prop := ∀ thread ∈ threads, thread.pending = []

/-- The joins of `main`, which merge the statistics of the ended threads in order. -/
def joinThreads (threads : List Thread) : ThreadStats :=
  threads.foldl (fun final thread ↦ final.merge thread.state) ThreadStats.zero

/-! ### Independence of the threads -/

/-- A thread adds the records of its files to those that its statistics represent. -/
theorem ThreadStats.Represents.threadFunction {stats : ThreadStats} {records : List LogRecord}
    (hstats : stats.Represents records) (files : Files) (filenames : List (List UInt8)) :
    (threadFunction files filenames stats).Represents
      (records ++ filenames.flatMap (fileRecords files)) := by
  induction filenames generalizing stats records with
  | nil =>
    rw [List.flatMap_nil, List.append_nil]
    exact hstats
  | cons filename rest ih =>
    have hrest := ih (hstats.processFile files filename)
    rw [List.append_assoc] at hrest
    exact hrest

/-- The joins collect the records of the files of all threads. -/
theorem represents_joins (files : Files) (buckets : List (List (List UInt8)))
    {final : ThreadStats} {records : List LogRecord} (hfinal : final.Represents records) :
    ((buckets.map fun bucket ↦ threadFunction files bucket ThreadStats.zero).foldl
      ThreadStats.merge final).Represents
        (records ++ buckets.flatten.flatMap (fileRecords files)) := by
  induction buckets generalizing final records with
  | nil =>
    rw [List.flatten_nil, List.flatMap_nil, List.append_nil]
    exact hfinal
  | cons bucket rest ih =>
    have hbucket := ThreadStats.represents_zero.threadFunction files bucket
    have hrest := ih (hfinal.merge hbucket)
    rw [List.flatten_cons, List.flatMap_append, ← List.append_assoc]
    exact hrest

/-- When all threads have ended, the statistics of a thread are those of its bucket, whatever the
interleaving. -/
theorem map_state_runThreads (files : Files) (buckets : List (List (List UInt8)))
    (schedule : List ℕ) (hended : Ended (runThreads files (startThreads buckets) schedule)) :
    (runThreads files (startThreads buckets) schedule).map Worker.state =
      (startedBuckets buckets).map fun bucket ↦ threadFunction files bucket ThreadStats.zero := by
  have hstates := map_state_runSchedule (processFile files) (startThreads buckets) schedule hended
  rw [runThreads, hstates, startThreads, List.map_map]
  rfl

/-- The log parser does not depend on the number of threads nor on their interleaving. Assumes: at
least one thread. Then every regular file is in the bucket of exactly one started thread, the
threads can run to their end from every point of every interleaving, and whenever they have all
ended the merged statistics are those of one thread that processes all files one after another. -/
theorem parseLogs_thread_independent (files : Files) (dir : List DirEntry) (path : List UInt8)
    {nthreads : ℕ} (hnthreads : 0 < nthreads) :
    (startedBuckets (splitFiles dir path nthreads)).flatten.Perm (regularFiles dir path) ∧
      (∀ schedule, ∃ more, Ended (runThreads files (startThreads (splitFiles dir path nthreads))
        (schedule ++ more))) ∧
      ∀ schedule, Ended (runThreads files (startThreads (splitFiles dir path nthreads)) schedule) →
        (joinThreads (runThreads files (startThreads (splitFiles dir path nthreads))
          schedule)).SameStatistics
            (threadFunction files (regularFiles dir path) ThreadStats.zero) := by
  have hperm : (startedBuckets (splitFiles dir path nthreads)).flatten.Perm
      (regularFiles dir path) := by
    rw [splitFiles_eq_deal]
    exact flatten_takeWhile_deal hnthreads _
  refine ⟨hperm, fun schedule ↦ ?_, fun schedule hended ↦ ?_⟩
  · rcases exists_finishing_schedule (processFile files) (runThreads files _ schedule) with
      ⟨more, hmore⟩
    refine ⟨more, ?_⟩
    rw [runThreads, runSchedule_append]
    exact hmore
  · have hjoins := represents_joins files (startedBuckets (splitFiles dir path nthreads))
      ThreadStats.represents_zero
    rw [← map_state_runThreads files _ schedule hended, List.foldl_map] at hjoins
    have hsequential :=
      ThreadStats.represents_zero.threadFunction files (regularFiles dir path)
    exact hjoins.sameStatistics_of_perm hsequential (hperm.flatMap_right _)

/-- Two log files and a directory, given to three threads. -/
theorem parseLogs_three_threads :
    (startedBuckets (splitFiles [⟨8, [97]⟩, ⟨4, [46]⟩, ⟨8, [98]⟩] [100] 3)).flatten.Perm
        (regularFiles [⟨8, [97]⟩, ⟨4, [46]⟩, ⟨8, [98]⟩] [100]) ∧
      ∀ files : Files,
        (joinThreads (runThreads files (startThreads (splitFiles
          [⟨8, [97]⟩, ⟨4, [46]⟩, ⟨8, [98]⟩] [100] 3)) [1, 0])).SameStatistics
            (threadFunction files [[100, 47, 97], [100, 47, 98]] ThreadStats.zero) := by
  refine ⟨(parseLogs_thread_independent (fun _ ↦ none) _ _ (by decide)).1, fun files ↦ ?_⟩
  apply (parseLogs_thread_independent files [⟨8, [97]⟩, ⟨4, [46]⟩, ⟨8, [98]⟩] [100]
    (by decide)).2.2
  intro thread hthread
  have hthreads : (runThreads files (startThreads (splitFiles
      [⟨8, [97]⟩, ⟨4, [46]⟩, ⟨8, [98]⟩] [100] 3)) [1, 0]).map Worker.pending = [[], []] := rfl
  have hpending := List.mem_map_of_mem (f := Worker.pending) hthread
  rw [hthreads] at hpending
  simpa using hpending

end Homework.LogParser
