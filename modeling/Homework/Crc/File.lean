import Homework.Crc.Checksum

/-!
# The checksum of a file

`get_crc32` maps a file in windows of 16 MiB and runs `crc32` over each, until the offset is past
the size of the file. The size of a regular file is an `off_t` that is not negative, and the offset
is an unsigned number of 64 bits, so the offset never wraps around and the loop ends.

A mapping of the file at an offset is the memory of the file from that offset on: the address of a
byte stands for its position in the file. What a mapping shows past the end of the file is
arbitrary. When everything succeeds the loop reads each byte of the file once and in order, nothing
past the end, and gives the standard CRC-32 (`getCrc32_standard`).
-/

set_option autoImplicit false
set_option relaxedAutoImplicit false

namespace Homework.Crc

open Homework.Library.ReflectedCrc

/-! ### The file -/

/-- A regular file. Its size is an `off_t`. -/
structure RegularFile where
  content : List UInt8
  size_lt : content.length < 2 ^ 63

namespace RegularFile

/-- The size that `fstat` gives. -/
def size (file : RegularFile) : Fin (2 ^ 63) := ⟨file.content.length, file.size_lt⟩

/-- The memory of the mappings of a file, for what they show past its end. -/
def memory (file : RegularFile) (beyond : ℕ → UInt8) (position : ℕ) : UInt8 :=
  file.content.getD position (beyond position)

/-- The memory shows the content of the file. -/
theorem map_memory_range (file : RegularFile) (beyond : ℕ → UInt8) :
    (List.range file.content.length).map (file.memory beyond) = file.content := by
  apply List.ext_getElem
  · rw [List.length_map, List.length_range]
  · intro position _ hposition
    rw [List.getElem_map, List.getElem_range, memory, List.getD_eq_getElem?_getD,
      List.getElem?_eq_getElem hposition, Option.getD_some]

end RegularFile

/-- The outcomes of the system calls: of `open`, of `fstat`, and of `mmap` at each offset. -/
structure System where
  openOk : Bool
  fstatOk : Bool
  mmapOk : ℕ → Bool

/-! ### `get_crc32` -/

/-- `BUF_SIZE`. -/
def bufSize : ℕ := 16777216

/-- `get_file_size`, and whether the descriptor is still open after it. -/
def getFileSize (file : RegularFile) (system : System) : Fin (2 ^ 63) × Bool :=
  if system.fstatOk then (file.size, true) else (0, false)

/-- The offset of the next round: `offset += BUF_SIZE` in 64 bits. -/
def nextOffset (offset : ℕ) : ℕ := (offset + bufSize) % 2 ^ 64

theorem nextOffset_eq {fileSize : Fin (2 ^ 63)} {offset : ℕ} (hoffset : ¬ offset > fileSize) :
    nextOffset offset = offset + bufSize := by
  have hsize := fileSize.isLt
  have hbuf : bufSize < 2 ^ 63 := by decide
  unfold nextOffset
  omega

/-- The next offset is nearer to the end of the loop. -/
theorem nextOffset_lt {fileSize : Fin (2 ^ 63)} {offset : ℕ} (hoffset : ¬ offset > fileSize) :
    fileSize + 1 - nextOffset offset < fileSize + 1 - offset := by
  have hbuf : 0 < bufSize := by decide
  rw [nextOffset_eq hoffset]
  omega

/-- The value of `size` in a round: what is left of the file, cut at the size of a window. -/
def windowSize (fileSize offset : ℕ) : ℕ :=
  if fileSize - offset > bufSize then bufSize else fileSize - offset

/-- The loop of `get_crc32` from an offset on, for the value of `crc` and the positions read so
far. -/
def crcLoop (memory : ℕ → UInt8) (mmapOk : ℕ → Bool) (fileSize : Fin (2 ^ 63)) (offset : ℕ)
    (sum : Checksum) : Checksum :=
  if _ : offset > fileSize then sum
  else if !mmapOk offset then sum
  else
    let chunk := crc32 memory offset (windowSize fileSize offset) sum.crc
    crcLoop memory mmapOk fileSize (nextOffset offset) ⟨chunk.crc, sum.addresses ++ chunk.addresses⟩
termination_by fileSize + 1 - offset
decreasing_by exact nextOffset_lt ‹_›

/-- `get_crc32`, with the positions of the file that it reads, in order. -/
def getCrc32 (file : RegularFile) (beyond : ℕ → UInt8) (system : System) : Checksum :=
  if !system.openOk then ⟨0, []⟩
  else
    let (fileSize, fdOpen) := getFileSize file system
    let mmapOk := fun offset ↦ fdOpen && system.mmapOk offset
    let sum := crcLoop (file.memory beyond) mmapOk fileSize 0 ⟨~~~0, []⟩
    ⟨sum.crc ^^^ ~~~0, sum.addresses⟩

/-! ### Correctness -/

/-- The positions from an offset on are those of a window and those from the next offset on. -/
theorem range'_window (fileSize offset : ℕ) :
    List.range' offset (fileSize - offset) =
      List.range' offset (windowSize fileSize offset) ++
        List.range' (offset + bufSize) (fileSize - (offset + bufSize)) := by
  unfold windowSize
  split_ifs with hlong
  · have hlength : fileSize - offset = bufSize + (fileSize - (offset + bufSize)) := by omega
    rw [hlength, List.range'_append_1]
  · have hlength : fileSize - (offset + bufSize) = 0 := by omega
    rw [hlength, List.range'_zero, List.append_nil]

/-- The offset of a window, from the next one on. -/
theorem windowOffset_succ (offset window : ℕ) :
    offset + bufSize * (window + 1) = offset + bufSize + bufSize * window := by
  rw [Nat.mul_succ]
  omega

section Loop

variable (memory : ℕ → UInt8) {mmapOk : ℕ → Bool} {fileSize : Fin (2 ^ 63)}

theorem crcLoop_of_gt {offset : ℕ} (hoffset : offset > fileSize) (sum : Checksum) :
    crcLoop memory mmapOk fileSize offset sum = sum := by
  rw [crcLoop, dif_pos hoffset]

/-- The loop ends at a mapping that fails. -/
theorem crcLoop_of_unmapped {offset : ℕ} (hfailed : mmapOk offset = false) (sum : Checksum) :
    crcLoop memory mmapOk fileSize offset sum = sum := by
  by_cases hoffset : offset > fileSize
  · exact crcLoop_of_gt memory hoffset sum
  · rw [crcLoop, dif_neg hoffset, hfailed]
    rfl

/-- A round folds the bytes of a window. -/
theorem crcLoop_of_mapped {offset : ℕ} (hoffset : offset ≤ fileSize)
    (hmapped : mmapOk offset = true) (sum : Checksum) :
    crcLoop memory mmapOk fileSize offset sum =
      crcLoop memory mmapOk fileSize (offset + bufSize)
        ⟨((List.range' offset (windowSize fileSize offset)).map memory).foldl crcByte sum.crc,
          sum.addresses ++ List.range' offset (windowSize fileSize offset)⟩ := by
  rw [crcLoop, dif_neg (not_lt.mpr hoffset), hmapped]
  simp only [Bool.not_true, Bool.false_eq_true, if_false]
  rw [nextOffset_eq (not_lt.mpr hoffset), crc32_eq]

/-- When every mapping that the loop asks for succeeds, it reads the positions from the offset on
once, in order, and folds their bytes. -/
theorem crcLoop_eq (offset : ℕ) (sum : Checksum)
    (hmmap : ∀ window, offset + bufSize * window ≤ fileSize →
      mmapOk (offset + bufSize * window) = true) :
    crcLoop memory mmapOk fileSize offset sum =
      ⟨((List.range' offset (fileSize - offset)).map memory).foldl crcByte sum.crc,
        sum.addresses ++ List.range' offset (fileSize - offset)⟩ := by
  by_cases hoffset : offset > fileSize
  · have hempty : (fileSize : ℕ) - offset = 0 := Nat.sub_eq_zero_of_le (Nat.le_of_lt hoffset)
    rw [crcLoop_of_gt memory hoffset, hempty, List.range'_zero, List.append_nil]
    rfl
  · have hnext : ∀ window, offset + bufSize + bufSize * window ≤ fileSize →
        mmapOk (offset + bufSize + bufSize * window) = true := by
      intro window
      rw [← windowOffset_succ]
      exact hmmap (window + 1)
    have hmapped := hmmap 0 (not_lt.mp hoffset)
    rw [crcLoop_of_mapped memory (not_lt.mp hoffset) hmapped, crcLoop_eq (offset + bufSize) _ hnext,
      range'_window fileSize offset, List.map_append, List.foldl_append, List.append_assoc]
termination_by fileSize + 1 - offset
decreasing_by
  rw [← nextOffset_eq hoffset]
  exact nextOffset_lt hoffset

/-- When a mapping fails after some that succeed, the loop has folded the bytes in front of it. -/
theorem crcLoop_eq_of_unmapped {rounds : ℕ} (offset : ℕ) (sum : Checksum)
    (hmmap : ∀ window, window < rounds → mmapOk (offset + bufSize * window) = true)
    (hfailed : mmapOk (offset + bufSize * rounds) = false)
    (hrounds : offset + bufSize * rounds ≤ fileSize) :
    crcLoop memory mmapOk fileSize offset sum =
      ⟨((List.range' offset (bufSize * rounds)).map memory).foldl crcByte sum.crc,
        sum.addresses ++ List.range' offset (bufSize * rounds)⟩ := by
  induction rounds generalizing offset sum with
  | zero =>
    have hhere : mmapOk offset = false := hfailed
    rw [crcLoop_of_unmapped memory hhere, Nat.mul_zero, List.range'_zero, List.append_nil]
    rfl
  | succ rounds ih =>
    have hwindow : windowSize fileSize offset = bufSize := by
      rw [Nat.mul_succ] at hrounds
      unfold windowSize
      split_ifs
      · rfl
      · omega
    have hlength : bufSize * (rounds + 1) = bufSize + bufSize * rounds := by
      rw [Nat.mul_succ, Nat.add_comm]
    rw [crcLoop_of_mapped memory ((Nat.le_add_right ..).trans hrounds)
      (hmmap 0 (Nat.zero_lt_succ rounds)), hwindow]
    have hnext : ∀ window, window < rounds →
        mmapOk (offset + bufSize + bufSize * window) = true := by
      intro window hlt
      rw [← windowOffset_succ]
      exact hmmap (window + 1) (Nat.succ_lt_succ hlt)
    rw [windowOffset_succ] at hfailed hrounds
    rw [ih _ _ hnext hfailed hrounds, hlength, ← List.range'_append_1, List.map_append,
      List.foldl_append, List.append_assoc]

end Loop

/-- The standard CRC-32 folds the bytes of the content into a register of ones. -/
theorem standardCrc32_eq (content : List UInt8) :
    standardCrc32 content = content.foldl crcByte (~~~0) ^^^ ~~~0 := by
  apply UInt32.toBitVec_inj.mp
  have hones : (~~~0 : UInt32).toBitVec = BitVec.allOnes 32 := by decide
  rw [UInt32.toBitVec_xor, toBitVec_foldl_crcByte, hones, BitVec.xor_allOnes]
  rfl

/-- `get_crc32`, when `open`, `fstat` and every mapping that the size asks for succeed. -/
theorem getCrc32_eq (file : RegularFile) (beyond : ℕ → UInt8) {system : System}
    (hopen : system.openOk = true) (hfstat : system.fstatOk = true)
    (hmmap : ∀ window, bufSize * window ≤ file.content.length →
      system.mmapOk (bufSize * window) = true) :
    getCrc32 file beyond system =
      ⟨standardCrc32 file.content, List.range file.content.length⟩ := by
  have hsize : getFileSize file system = (file.size, true) := by
    rw [getFileSize, hfstat]
    rfl
  have hloop := @crcLoop_eq (file.memory beyond) (fun offset ↦ true && system.mmapOk offset)
    file.size 0 ⟨~~~0, []⟩ fun window hwindow ↦ by
      rw [Nat.zero_add] at hwindow ⊢
      exact hmmap window hwindow
  have hrange : List.range' 0 ((file.size : ℕ) - 0) = List.range file.content.length :=
    List.range_eq_range'.symm
  rw [hrange, file.map_memory_range beyond, List.nil_append] at hloop
  unfold getCrc32
  rw [hopen, hsize, standardCrc32_eq]
  simp only [Bool.not_true, Bool.false_eq_true, if_false, hloop]

/-- `get_crc32` computes the standard CRC-32. Assumes: `open`, `fstat` and every `mmap` succeed.
Then the result is the CRC-32 of the content of the file, and every position of the file is read
exactly once, in order, and no other. -/
theorem getCrc32_standard (file : RegularFile) (beyond : ℕ → UInt8) {system : System}
    (hopen : system.openOk = true) (hfstat : system.fstatOk = true)
    (hmmap : ∀ offset, system.mmapOk offset = true) :
    (getCrc32 file beyond system).crc = standardCrc32 file.content ∧
      (getCrc32 file beyond system).addresses = List.range file.content.length := by
  rw [getCrc32_eq file beyond hopen hfstat fun window _ ↦ hmmap _]
  exact ⟨rfl, rfl⟩

/-- The checksum of the file that holds the letter `a`. -/
theorem getCrc32_letter :
    (getCrc32 ⟨[97], by decide⟩ (fun _ ↦ 0) ⟨true, true, fun _ ↦ true⟩).crc = 0xE8B7BE43 ∧
      (getCrc32 ⟨[97], by decide⟩ (fun _ ↦ 0) ⟨true, true, fun _ ↦ true⟩).addresses = [0] := by
  have hstandard : standardCrc32 [97] = 0xE8B7BE43 := by decide
  rw [← hstandard]
  exact getCrc32_standard ⟨[97], by decide⟩ (fun _ ↦ 0) rfl rfl fun _ ↦ rfl

end Homework.Crc
