import Homework.Library.Cells
import Homework.Library.CInt
import Homework.Library.Decimal
import Homework.Library.TextInput
import Mathlib.Data.List.DropRight

/-!
# The size of a file

The server reads a path from its configuration file and answers every message with the size of the
file at the path. The answer is written to a buffer of 1024 bytes with `sprintf`, whatever its
length, and the size goes through an `int`. So the server answers as it should exactly when the
size is an `int` and the path leaves room for the rest of the text (`getResponce_iff`).

The file system is what `access` and `stat` see: the sizes of the files that exist.
-/

set_option autoImplicit false
set_option relaxedAutoImplicit false

namespace Homework.Ipc

open Homework.Library Homework.Library.ByteBuffer Homework.Library.CString Homework.Library.Cells
  Homework.Library.Decimal Homework.Library.TextInput

/-- The sizes of the files that exist. -/
abbrev FileSystem := List UInt8 → Option Int64

/-! ### The path -/

/-- The loop of `rstrip`, with `end = s + count - 1`. -/
def rstripLoop (s : List UInt8) : ℕ → List UInt8
  | 0 => s
  | count + 1 => if isSpace (s.getD count 0) then rstripLoop (s.set count 0) count else s

/-- `rstrip`. -/
def rstrip (s : List UInt8) : List UInt8 := rstripLoop s (cString s).length

/-- `get_file_path`: the bytes that are stored in the buffer, or `none` for `NULL`. The
configuration file may be missing. -/
def getFilePath (allocator : Allocator) (config : Option (List UInt8)) : Option (List UInt8) :=
  match config with
  | none => none
  | some content =>
    if allocator.grants 1024 then
      if content = [] then none else some ((fgets 1023 content).1 ++ [0])
    else none

/-- The path that `start_server` serves. -/
def configuredPath (allocator : Allocator) (config : Option (List UInt8)) : Option (List UInt8) :=
  (getFilePath allocator config).map fun buffer ↦ cString (rstrip buffer)

/-! ### The answer -/

/-- `"Size of %s: %d\n"`. -/
def sizeText (filePath : List UInt8) (size : ℤ) : List UInt8 :=
  ascii "Size of " ++ filePath ++ ascii ": " ++ intBytes size ++ ascii "\n"

/-- `"File %s not exists\n"`. -/
def notExistsText (filePath : List UInt8) : List UInt8 :=
  ascii "File " ++ filePath ++ ascii " not exists\n"

/-- `is_file_exists`. -/
def isFileExists (files : FileSystem) (filePath : List UInt8) : Bool := (files filePath).isSome

/-- `get_file_size`. A `stat` that fails leaves `st` unwritten. -/
def getFileSize (files : FileSystem) (filePath : List UInt8) : Except CellFault ℤ :=
  match files filePath with
  | none => .error .unwritten
  | some size => .ok size.toInt32.toInt

/-- `get_file_size_as_string`. -/
def getFileSizeAsString (files : FileSystem) (filePath : List UInt8) (message : CellArray) :
    Except CellFault CellArray := do
  let size ← getFileSize files filePath
  write message 0 (sizeText filePath size ++ [0])

/-- `get_file_not_exists_message`. -/
def getFileNotExistsMessage (filePath : List UInt8) (message : CellArray) :
    Except CellFault CellArray :=
  write message 0 (notExistsText filePath ++ [0])

/-- `get_responce`. The null pointer has no cells. -/
def getResponce (allocator : Allocator) (files : FileSystem) (filePath : List UInt8) :
    Except CellFault CellArray :=
  let message := if allocator.grants 1024 then fresh 1024 else []
  if !isFileExists files filePath then getFileNotExistsMessage filePath message
  else getFileSizeAsString files filePath message

/-! ### What is answered -/

/-- The text that the server is to answer. -/
def reply (filePath : List UInt8) : Option Int64 → List UInt8
  | none => notExistsText filePath
  | some size => sizeText filePath size.toInt

/-- `get_responce` stays in its buffer, and the buffer holds the text. -/
def Replies (allocator : Allocator) (files : FileSystem) (filePath : List UInt8) : Prop :=
  ∃ message, getResponce allocator files filePath = .ok message ∧
    readString message = .ok (reply filePath (files filePath))

/-- The text has less than 1024 bytes, and the size is an `int`. -/
def Fits (filePath : List UInt8) : Option Int64 → Prop
  | none => filePath.length ≤ 1006
  | some size =>
    InIntRange size.toInt ∧ filePath.length + (intBytes size.toInt).length ≤ 1012

instance (filePath : List UInt8) (size? : Option Int64) : Decidable (Fits filePath size?) :=
  match size? with
  | none => inferInstanceAs (Decidable (_ ≤ _))
  | some _ => inferInstanceAs (Decidable (_ ∧ _))

/-- `rstrip` removes the blanks at the end. -/
theorem cString_rstripLoop {text : List UInt8} (htext : (0 : UInt8) ∉ text) (rest : List UInt8) :
    cString (rstripLoop (text ++ 0 :: rest) text.length) = text.rdropWhile isSpace := by
  induction text using List.reverseRecOn generalizing rest with
  | nil => rfl
  | append_singleton text byte ih =>
    have hlast : text ++ [byte] ++ 0 :: rest = text ++ byte :: 0 :: rest := by
      rw [List.append_assoc]
      rfl
    have hfront : (0 : UInt8) ∉ text := fun hmem ↦ htext (List.mem_append_left _ hmem)
    have hbyte : (text ++ byte :: 0 :: rest).getD text.length 0 = byte := by simp
    rw [List.length_append, List.length_singleton, rstripLoop, hlast, hbyte]
    by_cases hspace : isSpace byte = true
    · rw [if_pos hspace, List.rdropWhile_concat_pos _ _ _ hspace,
        List.set_append_right _ _ le_rfl, Nat.sub_self, List.set_cons_zero]
      exact ih hfront (0 :: rest)
    · rw [if_neg hspace, List.rdropWhile_concat_neg _ _ _ hspace, ← hlast]
      exact cString_append_zero htext rest

/-- The path is the first line of the configuration, without the blanks at its end. -/
theorem configuredPath_eq {allocator : Allocator} {content : List UInt8}
    (hgrants : allocator.grants 1024 = true) (hcontent : content ≠ []) :
    configuredPath allocator (some content) =
      some ((cString (fgets 1023 content).1).rdropWhile isSpace) := by
  obtain ⟨rest, hline⟩ := exists_cString_append_zero (fgets 1023 content).1
  have hzero := zero_notMem_cString (fgets 1023 content).1
  rw [configuredPath, getFilePath, if_pos hgrants, if_neg hcontent, Option.map_some, hline, rstrip,
    cString_append_zero hzero, cString_rstripLoop hzero]

section Answer

variable {allocator later : Allocator} {files : FileSystem} {config : Option (List UInt8)}
  {filePath : List UInt8}

/-- The path fits in the buffer it is read to. -/
theorem length_configuredPath_le (hpath : configuredPath allocator config = some filePath) :
    filePath.length ≤ 1023 := by
  obtain ⟨buffer, hbuffer, -⟩ := Option.map_eq_some_iff.mp hpath
  rcases config with _ | content
  · exact absurd hbuffer nofun
  · rw [getFilePath] at hbuffer
    split_ifs at hbuffer with hgrants hcontent
    rw [configuredPath_eq hgrants hcontent] at hpath
    obtain rfl := Option.some.inj hpath
    calc
      ((cString (fgets 1023 content).1).rdropWhile isSpace).length
          ≤ (cString (fgets 1023 content).1).length := (List.rdropWhile_prefix isSpace _).length_le
      _ ≤ (fgets 1023 content).1.length := length_cString_le _
      _ ≤ 1023 := length_fst_fgets_le 1023 content

/-- The path is a string. -/
theorem zero_notMem_of_configuredPath (hpath : configuredPath allocator config = some filePath) :
    (0 : UInt8) ∉ filePath := by
  obtain ⟨buffer, -, rfl⟩ := Option.map_eq_some_iff.mp hpath
  exact zero_notMem_cString _

theorem zero_notMem_sizeText (hpath : (0 : UInt8) ∉ filePath) (size : ℤ) :
    (0 : UInt8) ∉ sizeText filePath size := by
  have hsize : (0 : UInt8) ∉ intBytes size := notMem_intBytes (by decide) (by decide) size
  simp only [sizeText, List.mem_append, not_or]
  exact ⟨⟨⟨⟨by decide, hpath⟩, by decide⟩, hsize⟩, by decide⟩

theorem zero_notMem_notExistsText (hpath : (0 : UInt8) ∉ filePath) :
    (0 : UInt8) ∉ notExistsText filePath := by
  simp only [notExistsText, List.mem_append, not_or]
  exact ⟨⟨by decide, hpath⟩, by decide⟩

theorem length_sizeText (filePath : List UInt8) (size : ℤ) :
    (sizeText filePath size).length = filePath.length + (intBytes size).length + 11 := by
  have hfront : (ascii "Size of ").length = 8 := by decide
  have hmiddle : (ascii ": ").length = 2 := by decide
  have hend : (ascii "\n").length = 1 := by decide
  simp only [sizeText, List.length_append, hfront, hmiddle, hend]
  omega

theorem length_notExistsText (filePath : List UInt8) :
    (notExistsText filePath).length = filePath.length + 17 := by
  have hfront : (ascii "File ").length = 5 := by decide
  have hend : (ascii " not exists\n").length = 12 := by decide
  simp only [notExistsText, List.length_append, hfront, hend]
  omega

/-- The text determines the size. -/
theorem sizeText_inj {first second : ℤ} :
    sizeText filePath first = sizeText filePath second ↔ first = second := by
  rw [sizeText, sizeText, List.append_left_inj, List.append_right_inj, intBytes_inj]

/-- The conversion to `int` keeps the sizes that are one. -/
theorem toInt32_eq_iff (size : Int64) :
    size.toInt32.toInt = size.toInt ↔ InIntRange size.toInt := by
  rw [Int64.toInt_toInt32, InIntRange, Int.bmod_eq_iff (by decide)]
  omega

theorem getResponce_of_not_exists (hgrants : allocator.grants 1024 = true)
    (hfile : files filePath = none) :
    getResponce allocator files filePath =
      write (fresh 1024) 0 (notExistsText filePath ++ [0]) := by
  rw [getResponce, if_pos hgrants, isFileExists, hfile, Option.isSome_none, Bool.not_false,
    if_pos rfl, getFileNotExistsMessage]

theorem getResponce_of_exists {size : Int64} (hgrants : allocator.grants 1024 = true)
    (hfile : files filePath = some size) :
    getResponce allocator files filePath =
      write (fresh 1024) 0 (sizeText filePath size.toInt32.toInt ++ [0]) := by
  rw [getResponce, if_pos hgrants, isFileExists, hfile, Option.isSome_some, Bool.not_true,
    if_neg Bool.false_ne_true, getFileSizeAsString, getFileSize, hfile]
  exact ok_bind _ _

/-- The server answers exactly when the text fits in the buffer and the size in an `int`. Assumes:
the request for the buffer succeeds. -/
theorem getResponce_iff (hpath : configuredPath allocator config = some filePath)
    (hgrants : later.grants 1024 = true) :
    Replies later files filePath ↔ Fits filePath (files filePath) := by
  have hzero := zero_notMem_of_configuredPath hpath
  rw [Replies]
  rcases hfile : files filePath with _ | size
  · rw [getResponce_of_not_exists hgrants hfile, reply,
      exists_write_fresh_iff (zero_notMem_notExistsText hzero), length_notExistsText,
      and_iff_left rfl, Fits]
    omega
  · rw [getResponce_of_exists hgrants hfile, reply,
      exists_write_fresh_iff (zero_notMem_sizeText hzero _), length_sizeText, sizeText_inj,
      toInt32_eq_iff, Fits, and_comm]
    refine and_congr_right fun hrange ↦ ?_
    rw [(toInt32_eq_iff size).mpr hrange]
    omega

end Answer

theorem configuredPath_line :
    configuredPath generous (some (ascii "/srv/a \n")) = some (ascii "/srv/a") := by
  decide

/-- A file of five bytes. -/
def smallFile : FileSystem := fun filePath ↦ if filePath = ascii "/srv/a" then some 5 else none

theorem smallFile_replies : Replies generous smallFile (ascii "/srv/a") :=
  (getResponce_iff configuredPath_line (by decide)).mpr (by decide)

/-- A file of 2³¹ bytes. -/
def largeFile : FileSystem :=
  fun filePath ↦ if filePath = ascii "/srv/a" then some 2147483648 else none

theorem largeFile_not_replies :
    configuredPath generous (some (ascii "/srv/a \n")) = some (ascii "/srv/a") ∧
      generous.grants 1024 = true ∧ ¬Replies generous largeFile (ascii "/srv/a") := by
  have hfile : largeFile (ascii "/srv/a") = some 2147483648 := by decide
  have hzero : (0 : UInt8) ∉ ascii "/srv/a" := by decide
  have hwritten := getResponce_of_exists (by decide : generous.grants 1024 = true) hfile
  refine ⟨configuredPath_line, by decide, fun hreplies ↦ ?_⟩
  rw [Replies, hwritten, hfile, exists_write_fresh_iff (zero_notMem_sizeText hzero _)] at hreplies
  have hsame : (2147483648 : Int64).toInt32.toInt = (2147483648 : Int64).toInt :=
    sizeText_inj.mp hreplies.2
  exact absurd hsame (by decide)

end Homework.Ipc
