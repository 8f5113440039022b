import Homework.Crc.File

/-!
# The report of a checksum

`get_crc32` returns 0 when it fails and what it has summed up to a mapping that fails, and `main`
takes 0 for a failure and any other number for the checksum. So `main` misses the files whose
CRC-32 is 0, and reports the CRC-32 of the front of a file when a later mapping fails. It reports
the checksum exactly when the file was read for all other files and outcomes of the calls
(`reports_iff`).
-/

set_option autoImplicit false
set_option relaxedAutoImplicit false

namespace Homework.Crc

/-! ### `main` -/

/-- What the program prints on its standard output. -/
inductive Output where
  | usage
  | openFailed
  | crc32 (result : UInt32)
deriving DecidableEq

/-- What the program has printed when it ends, and its exit status. -/
structure Outcome where
  printed : List Output
  status : ℕ
deriving DecidableEq

/-- `main` on `argc` arguments, of which `argv[1]` is the path of a file. -/
def main (argc : ℕ) (file : RegularFile) (beyond : ℕ → UInt8) (system : System) : Outcome :=
  if argc < 2 then ⟨[.usage], 1⟩
  else
    let printed := if system.openOk then [] else [.openFailed]
    let result := (getCrc32 file beyond system).crc
    if result = 0 then ⟨printed, 1⟩ else ⟨printed ++ [.crc32 result], 0⟩

/-- `main` prints a checksum and returns 0. -/
def Outcome.Reports (outcome : Outcome) (crc : UInt32) : Prop :=
  .crc32 crc ∈ outcome.printed ∧ outcome.status = 0

section Reports

variable (file : RegularFile) (beyond : ℕ → UInt8) (system : System)

/-- `open`, `fstat` and every mapping that the size of the file asks for succeed. -/
def AllSucceed : Prop :=
  system.openOk = true ∧ system.fstatOk = true ∧
    ∀ window, bufSize * window ≤ file.content.length → system.mmapOk (bufSize * window) = true

/-- `open` and `fstat` succeed, and the mapping of a window is the first that fails. -/
structure FirstFailure (window : ℕ) : Prop where
  openOk : system.openOk = true
  fstatOk : system.fstatOk = true
  mapped : ∀ earlier, earlier < window → system.mmapOk (bufSize * earlier) = true
  unmapped : system.mmapOk (bufSize * window) = false
  le_length : bufSize * window ≤ file.content.length

/-- A checksum is reported exactly when everything succeeds, and then it is the CRC-32 of the
file. -/
def ReportsExactly (argc : ℕ) : Prop :=
  ((∃ crc, (main argc file beyond system).Reports crc) ↔ AllSucceed file system) ∧
    ∀ crc, (main argc file beyond system).Reports crc → crc = standardCrc32 file.content

variable {file beyond system}

/-! ### What `get_crc32` returns -/

theorem main_reports_iff {argc : ℕ} (hargc : 2 ≤ argc) {crc : UInt32} :
    (main argc file beyond system).Reports crc ↔
      (getCrc32 file beyond system).crc = crc ∧ crc ≠ 0 := by
  unfold main Outcome.Reports
  rw [if_neg (not_lt.mpr hargc)]
  by_cases hresult : (getCrc32 file beyond system).crc = 0
  · simp only [hresult, if_true]
    refine iff_of_false (fun hreports ↦ absurd hreports.2 Nat.one_ne_zero) ?_
    exact fun hzero ↦ hzero.2 hzero.1.symm
  · simp only [hresult, if_false, and_true]
    constructor
    · intro hprinted
      have hcrc : crc = (getCrc32 file beyond system).crc := by
        rcases List.mem_append.mp hprinted with hopen | hlast
        · split_ifs at hopen <;> simp at hopen
        · simpa using hlast
      exact ⟨hcrc.symm, hcrc ▸ hresult⟩
    · rintro ⟨rfl, -⟩
      exact List.mem_append_right _ (List.mem_singleton_self _)

theorem crc_of_not_openOk (hopen : system.openOk = false) :
    (getCrc32 file beyond system).crc = 0 := by
  rw [getCrc32, hopen]
  rfl

/-- After a failure of `fstat` the descriptor is closed and nothing can be mapped. -/
theorem crc_of_not_fstatOk (hfstat : system.fstatOk = false) :
    (getCrc32 file beyond system).crc = 0 := by
  have hsize : getFileSize file system = (0, false) := by
    rw [getFileSize, hfstat]
    rfl
  have hloop := @crcLoop_of_unmapped (file.memory beyond)
    (fun offset ↦ false && system.mmapOk offset) 0 0 rfl ⟨~~~0, []⟩
  unfold getCrc32
  split_ifs
  · rfl
  · simp only [hsize, hloop]
    decide

/-- The part of a file in front of a window is what the memory shows there. -/
theorem map_memory_take {length : ℕ} (hlength : length ≤ file.content.length) :
    (List.range' 0 length).map (file.memory beyond) = file.content.take length := by
  rw [← file.map_memory_range beyond, ← List.map_take, List.take_range, min_eq_left hlength,
    List.range_eq_range']

theorem crc_of_firstFailure {window : ℕ} (hfailure : FirstFailure file system window) :
    (getCrc32 file beyond system).crc =
      standardCrc32 (file.content.take (bufSize * window)) := by
  have hsize : getFileSize file system = (file.size, true) := by
    rw [getFileSize, hfailure.fstatOk]
    rfl
  have hloop := @crcLoop_eq_of_unmapped (file.memory beyond)
    (fun offset ↦ true && system.mmapOk offset) file.size window 0 ⟨~~~0, []⟩
    (fun earlier hearlier ↦ by rw [Nat.zero_add]; exact hfailure.mapped earlier hearlier)
    (by rw [Nat.zero_add]; exact hfailure.unmapped)
    (by rw [Nat.zero_add]; exact hfailure.le_length)
  rw [map_memory_take hfailure.le_length] at hloop
  unfold getCrc32
  rw [hfailure.openOk, hsize, standardCrc32_eq]
  simp only [Bool.not_true, Bool.false_eq_true, if_false, hloop]

theorem crc_of_allSucceed (hall : AllSucceed file system) :
    (getCrc32 file beyond system).crc = standardCrc32 file.content := by
  rw [getCrc32_eq file beyond hall.1 hall.2.1 hall.2.2]

/-- When not everything succeeds, though `open` and `fstat` do, there is a first mapping that
fails. -/
theorem firstFailure_of_not_allSucceed (hopen : system.openOk = true)
    (hfstat : system.fstatOk = true) (hsome : ¬ AllSucceed file system) :
    ∃ window, FirstFailure file system window := by
  have hexists : ∃ window, bufSize * window ≤ file.content.length ∧
      system.mmapOk (bufSize * window) = false := by
    by_contra hnone
    refine hsome ⟨hopen, hfstat, fun window hwindow ↦ ?_⟩
    by_contra hfailed
    exact hnone ⟨window, hwindow, Bool.eq_false_of_not_eq_true hfailed⟩
  classical
  obtain ⟨hlength, hfailed⟩ := Nat.find_spec hexists
  refine ⟨Nat.find hexists, hopen, hfstat, fun earlier hearlier ↦ ?_, hfailed, hlength⟩
  by_contra hother
  refine Nat.find_min hexists hearlier ⟨?_, Bool.eq_false_of_not_eq_true hother⟩
  exact (Nat.mul_le_mul_left bufSize hearlier.le).trans hlength

/-- When a call fails the result is 0, unless it is a mapping behind a part of the file whose CRC-32
is not 0. -/
theorem crc_eq_zero_of_not_allSucceed (hsome : ¬ AllSucceed file system)
    (hfront : ∀ window, FirstFailure file system window →
      standardCrc32 (file.content.take (bufSize * window)) = 0) :
    (getCrc32 file beyond system).crc = 0 := by
  rcases hopen : system.openOk
  · exact crc_of_not_openOk hopen
  · rcases hfstat : system.fstatOk
    · exact crc_of_not_fstatOk hfstat
    · obtain ⟨window, hfailure⟩ := firstFailure_of_not_allSucceed hopen hfstat hsome
      exact (crc_of_firstFailure hfailure).trans (hfront window hfailure)

/-! ### When the report is right -/

/-- The CRC-32 of the file is not 0 when everything succeeds, and that of the part in front of the
first mapping that fails is 0. -/
structure Unambiguous (file : RegularFile) (system : System) : Prop where
  content_ne : AllSucceed file system → standardCrc32 file.content ≠ 0
  front_eq : ∀ window, FirstFailure file system window →
    standardCrc32 (file.content.take (bufSize * window)) = 0

variable (file beyond system)

/-- Success is reported exactly when the file was read, with its CRC-32, for the files and outcomes
of the calls that are unambiguous, and only for these. Assumes: a path is given. -/
theorem reports_iff {argc : ℕ} (hargc : 2 ≤ argc) :
    ReportsExactly file beyond system argc ↔ Unambiguous file system := by
  unfold ReportsExactly
  simp only [main_reports_iff hargc]
  constructor
  · rintro ⟨hiff, -⟩
    refine ⟨fun hall ↦ ?_, fun window hfailure ↦ ?_⟩
    · obtain ⟨crc, hcrc, hne⟩ := hiff.mpr hall
      rwa [← crc_of_allSucceed hall, hcrc]
    · rw [← @crc_of_firstFailure file beyond system window hfailure]
      by_contra hne
      have hall := hiff.mp ⟨_, rfl, hne⟩
      exact absurd (hall.2.2 window hfailure.le_length) (hfailure.unmapped ▸ Bool.false_ne_true)
  · intro hclear
    have hiff : (∃ crc, (getCrc32 file beyond system).crc = crc ∧ crc ≠ 0) ↔
        AllSucceed file system := by
      constructor
      · rintro ⟨crc, rfl, hne⟩
        by_contra hsome
        exact hne (crc_eq_zero_of_not_allSucceed hsome hclear.front_eq)
      · intro hall
        exact ⟨_, crc_of_allSucceed hall, hclear.content_ne hall⟩
    refine ⟨hiff, ?_⟩
    rintro crc ⟨rfl, hne⟩
    exact crc_of_allSucceed (hiff.mp ⟨_, rfl, hne⟩)

end Reports

/-! ### Two files -/

/-- The checksum of the file with the letter `a` is reported. -/
theorem letter_reported :
    ReportsExactly ⟨[97], by decide⟩ (fun _ ↦ 0) ⟨true, true, fun _ ↦ true⟩ 2 := by
  refine (reports_iff _ _ _ le_rfl).mpr ⟨fun _ ↦ by decide, fun window hfailure ↦ ?_⟩
  exact nomatch (show true = false from hfailure.unmapped)

/-- Four bytes whose CRC-32 is 0. -/
def zeroChecksum : RegularFile := ⟨[0x9D, 0x0A, 0xD9, 0x6D], by decide⟩

/-- The file is read, and no checksum is reported. -/
theorem zeroChecksum_not_reported :
    AllSucceed zeroChecksum ⟨true, true, fun _ ↦ true⟩ ∧
      main 2 zeroChecksum (fun _ ↦ 0) ⟨true, true, fun _ ↦ true⟩ = ⟨[], 1⟩ ∧
      ¬ ReportsExactly zeroChecksum (fun _ ↦ 0) ⟨true, true, fun _ ↦ true⟩ 2 := by
  have hall : AllSucceed zeroChecksum ⟨true, true, fun _ ↦ true⟩ := ⟨rfl, rfl, fun _ _ ↦ rfl⟩
  have hzero : (getCrc32 zeroChecksum (fun _ ↦ 0) ⟨true, true, fun _ ↦ true⟩).crc = 0 :=
    (crc_of_allSucceed hall).trans (by decide)
  have hmain : main 2 zeroChecksum (fun _ ↦ 0) ⟨true, true, fun _ ↦ true⟩ = ⟨[], 1⟩ := by
    rw [main, hzero]
    rfl
  refine ⟨hall, hmain, fun hexact ↦ ?_⟩
  obtain ⟨crc, hprinted, -⟩ := hexact.1.mpr hall
  rw [hmain] at hprinted
  exact absurd hprinted List.not_mem_nil

end Homework.Crc
