import Homework.Library.Decimal
import Homework.Library.TextInput
import Homework.LogParser.Statistics

/-!
# The lines of a log

`process_file` reads a file in chunks of at most 8191 bytes, each up to and with the first newline,
and hands every chunk to `parse_log_line` as a C string. `parse_log_line` finds the request, the
status, the size and the referer by `strchr` and `sscanf`, and gives up without a trace when the
first three are not there.

A pointer into a line is the rest of the line from there on, without the terminating zero.

Whatever a line holds, what it does to the statistics is to add one record or none
(`parseLogLine_eq`), so the statistics after a file are those of the records of the file on top of
those before (`ThreadStats.Represents.processFile`).
-/

set_option autoImplicit false
set_option relaxedAutoImplicit false

namespace Homework.LogParser

open Homework.Library.CString Homework.Library.Decimal Homework.Library.TextInput

/-! ### Texts -/

/-- The double quote. -/
def quote : UInt8 := 34

/-- The blank. -/
def space : UInt8 := 32

/-- The slash. -/
def slash : UInt8 := 47

/-- The text `"GET "`. -/
def getText : List UInt8 := [71, 69, 84, 32]

/-- `strchr`: the text from the first place of a byte on. -/
def strchr (sought : UInt8) : List UInt8 → Option (List UInt8)
  | [] => none
  | byte :: rest => if byte = sought then some (byte :: rest) else strchr sought rest

/-- The text from one pointer to a later one. -/
def between (start stop : List UInt8) : List UInt8 := start.take (start.length - stop.length)

/-- `strchr` goes past what does not hold the byte. -/
theorem strchr_append_of_notMem {sought : UInt8} {front : List UInt8} (hfront : sought ∉ front)
    (text : List UInt8) : strchr sought (front ++ text) = strchr sought text := by
  induction front with
  | nil => rfl
  | cons byte rest ih =>
    obtain ⟨hbyte, hrest⟩ := List.ne_and_not_mem_of_not_mem_cons hfront
    rw [List.cons_append, strchr, if_neg (Ne.symm hbyte)]
    exact ih hrest

/-- `strchr` finds the byte that ends a field. -/
theorem strchr_append {sought : UInt8} {front : List UInt8} (hfront : sought ∉ front)
    (back : List UInt8) : strchr sought (front ++ sought :: back) = some (sought :: back) :=
  (strchr_append_of_notMem hfront _).trans (if_pos rfl)

/-- What `strchr` finds is the rest of the text from the byte on. -/
theorem suffix_of_strchr {sought : UInt8} {text found : List UInt8}
    (hfound : strchr sought text = some found) : found <:+ text := by
  induction text with
  | nil => cases hfound
  | cons byte rest ih =>
    rw [strchr] at hfound
    split_ifs at hfound
    · exact Option.some.inj hfound ▸ List.suffix_rfl
    · exact (ih hfound).trans (List.suffix_cons byte rest)

theorem between_append (front back : List UInt8) : between (front ++ back) back = front := by
  rw [between, List.length_append, Nat.add_sub_cancel, List.take_left]

/-! ### `sscanf` -/

/-- A conversion of `sscanf` to a signed number: blanks, a sign, digits. Gives the number and the
text after it. -/
def scanNumber (text : List UInt8) : Option (ℤ × List UInt8) :=
  let (sign, text) := scanSign (text.dropWhile isSpace)
  let digits := text.takeWhile isDigit
  if digits = [] then none else some (sign * numberOf digits, text.dropWhile isDigit)

/-- `sscanf(text, " %d %ld", &status, &size) == 2`, with the status as read, since nothing uses it,
and the size. The blanks of the format skip the blanks that the conversions skip anyway. -/
def sscanfStatusSize (text : List UInt8) : Option (ℤ × ℤ) := do
  let (status, text) ← scanNumber text
  let (size, _) ← scanNumber text
  some (status, toLong size)

/-! ### `parse_log_line` -/

/-- The part of `parse_log_line` before the update of the total: the url, the size, and the place
from which the referer is searched. -/
def requestPart (line : List UInt8) : Option (List UInt8 × ℤ × List UInt8) := do
  let ptr ← strchr quote line
  let ptr := ptr.drop 1
  if ptr.take 4 ≠ getText then none
  let ptr := ptr.drop 4
  let urlEnd ← strchr space ptr
  let url := between ptr urlEnd
  let url := if url.length > 1 ∧ url.getLast? = some slash then url.dropLast else url
  let sizePtr ← strchr quote urlEnd
  let sizePtr ← strchr space (sizePtr.drop 1)
  let (_, size) ← sscanfStatusSize sizePtr
  some (url, size, sizePtr)

/-- The part of `parse_log_line` after the update of the url map: the referer. -/
def refererPart (sizePtr : List UInt8) : Option (List UInt8) := do
  let refStart ← strchr quote sizePtr
  let refStart := refStart.drop 1
  let refEnd ← strchr quote refStart
  if refEnd.length = refStart.length then none
  let ref := between refStart refEnd
  if ref.length > 0 then some ref else none

/-- `parse_log_line`. -/
def parseLogLine (line : List UInt8) (stats : ThreadStats) : ThreadStats :=
  match requestPart line with
  | none => stats
  | some (url, size, sizePtr) =>
    let stats := { stats with totalBytes := stats.totalBytes + size }
    let stats := stats.addUrl url size
    match refererPart sizePtr with
    | none => stats
    | some ref => stats.addRef ref 1

/-- The record of a line, if it has one. -/
def recordOf (line : List UInt8) : Option LogRecord :=
  (requestPart line).map fun (url, size, sizePtr) ↦ ⟨url, size, refererPart sizePtr⟩

/-- A line adds its record, or nothing. -/
theorem parseLogLine_eq (line : List UInt8) (stats : ThreadStats) :
    parseLogLine line stats = (recordOf line).elim stats stats.addRecord := by
  unfold parseLogLine recordOf
  rcases requestPart line with _ | ⟨url, size, sizePtr⟩
  · rfl
  · rfl

/-! ### `process_file` -/

/-- The chunks that `fgets` reads from a file into a buffer of 8192 bytes, until it returns
`NULL`. -/
def fgetsAll : List UInt8 → List (List UInt8)
  | [] => []
  | byte :: rest => (fgets 8191 (byte :: rest)).1 :: fgetsAll (fgets 8191 (byte :: rest)).2
termination_by content => content.length
decreasing_by exact length_fgets_lt 8190 byte rest

/-- The files that can be opened, with their contents. -/
abbrev Files := List UInt8 → Option (List UInt8)

/-- `process_file`. -/
def processFile (files : Files) (filename : List UInt8) (stats : ThreadStats) : ThreadStats :=
  match files filename with
  | none => stats
  | some content =>
    (fgetsAll content).foldl (fun stats buffer ↦ parseLogLine (cString buffer) stats) stats

/-- The records of a file, in the order of the file. -/
def fileRecords (files : Files) (filename : List UInt8) : List LogRecord :=
  match files filename with
  | none => []
  | some content => (fgetsAll content).filterMap fun buffer ↦ recordOf (cString buffer)

namespace ThreadStats

/-- A line adds its record to those that the statistics represent. -/
theorem Represents.parseLogLine {stats : ThreadStats} {records : List LogRecord}
    (hstats : stats.Represents records) (line : List UInt8) :
    (parseLogLine line stats).Represents (records ++ (recordOf line).toList) := by
  rw [parseLogLine_eq]
  rcases recordOf line with _ | entry
  · rw [Option.toList_none, List.append_nil]
    exact hstats
  · exact hstats.addRecord entry

/-- The chunks of a file add their records to those that the statistics represent. -/
theorem Represents.parseChunks {stats : ThreadStats} {records : List LogRecord}
    (hstats : stats.Represents records) (chunks : List (List UInt8)) :
    (chunks.foldl (fun stats buffer ↦ LogParser.parseLogLine (cString buffer) stats)
      stats).Represents (records ++ chunks.filterMap fun buffer ↦ recordOf (cString buffer)) := by
  induction chunks generalizing stats records with
  | nil =>
    rw [List.filterMap_nil, List.append_nil]
    exact hstats
  | cons buffer rest ih =>
    have hrest := ih (hstats.parseLogLine (cString buffer))
    rw [List.foldl_cons, List.filterMap_cons]
    rw [List.append_assoc] at hrest
    rcases hrecord : recordOf (cString buffer) with _ | entry <;> rw [hrecord] at hrest <;>
      exact hrest

/-- A file adds its records to those that the statistics represent. -/
theorem Represents.processFile {stats : ThreadStats} {records : List LogRecord}
    (hstats : stats.Represents records) (files : Files) (filename : List UInt8) :
    (processFile files filename stats).Represents (records ++ fileRecords files filename) := by
  unfold LogParser.processFile fileRecords
  rcases files filename with _ | content
  · rw [List.append_nil]
    exact hstats
  · exact hstats.parseChunks (fgetsAll content)

end ThreadStats

end Homework.LogParser
