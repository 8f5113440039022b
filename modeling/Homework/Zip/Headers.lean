import Homework.Zip.Detail

/-!
# The three records of a ZIP file

`find_eocdr`, `read_cfh` and `read_lfh` of `zip.c` over the buffer handed to `zip_read`. The two
header readers work in the window `zip->src`, of length `zip->src_len`, which ends where the buffer
ends and whose start is computed from fields of the file, so that it can lie before the buffer.

Each function has one specification. `readCfh_of_inside` and `readLfh_of_inside` evaluate a header
reader at an offset that lies in the buffer to its pure form, `cfhIn` and `lfhIn`, and
`readCfh_of_outside` and `readLfh_of_outside` show the fault it runs into when the offset lies in
the part of the window before the buffer. `findEocdr_of_first` and `findEocdr_of_none` evaluate the
backward scan by the first comment length at which a record matches (`EocdrAt`).

The pure forms move with the buffer: `eocdrAt_append`, `cfhIn_append` and `lfhIn_append`.
-/

set_option autoImplicit false
set_option relaxedAutoImplicit false

namespace Homework.Zip

open Library.ByteBuffer

/-! ### The records -/

/-- `EOCDR_BASE_SZ`, the size of the end of central directory record without its comment. -/
def eocdrBaseSz : ℕ := 22

/-- `EOCDR_SIGNATURE`. -/
def eocdrSignature : UInt32 := 0x06054b50

/-- `CFH_BASE_SZ`. -/
def cfhBaseSz : ℕ := 46

/-- `CFH_SIGNATURE`. -/
def cfhSignature : UInt32 := 0x02014b50

/-- `LFH_BASE_SZ`. -/
def lfhBaseSz : ℕ := 30

/-- `LFH_SIGNATURE`. -/
def lfhSignature : UInt32 := 0x04034b50

/-- `UINT16_MAX`. -/
def uint16Max : ℕ := 65535

/-- `struct eocdr`. Pointers into the buffer are indices. -/
structure Eocdr where
  diskNbr : UInt16
  cdStartDisk : UInt16
  diskCdEntries : UInt16
  cdEntries : UInt16
  cdSize : UInt32
  cdOffset : UInt32
  commentLen : UInt16
  comment : ℤ
  deriving DecidableEq, Repr, Inhabited

/-- `struct cfh`, a central file header. -/
structure Cfh where
  madeByVer : UInt16
  extractVer : UInt16
  gpFlag : UInt16
  method : UInt16
  modTime : UInt16
  modDate : UInt16
  crc32 : UInt32
  compSize : UInt32
  uncompSize : UInt32
  nameLen : UInt16
  extraLen : UInt16
  commentLen : UInt16
  diskNbrStart : UInt16
  intAttrs : UInt16
  extAttrs : UInt32
  lfhOffset : UInt32
  name : ℤ
  extra : ℤ
  comment : ℤ
  deriving DecidableEq, Repr

/-- `struct lfh`, a local file header. -/
structure Lfh where
  extractVer : UInt16
  gpFlag : UInt16
  method : UInt16
  modTime : UInt16
  modDate : UInt16
  crc32 : UInt32
  compSize : UInt32
  uncompSize : UInt32
  nameLen : UInt16
  extraLen : UInt16
  name : ℤ
  extra : ℤ
  deriving DecidableEq, Repr

/-- The length of the variable part of a central header. -/
def Cfh.tailLen (cfh : Cfh) : ℕ :=
  cfh.nameLen.toNat + cfh.extraLen.toNat + cfh.commentLen.toNat

/-- The length of the variable part of a local header. -/
def Lfh.tailLen (lfh : Lfh) : ℕ :=
  lfh.nameLen.toNat + lfh.extraLen.toNat

/-! ### The readers -/

/-- The body of the scan of `find_eocdr` for one comment length: the offset it tries, and the
record `r`, overwritten when the signature matches. -/
def findEocdrTry (src : List UInt8) (r : Eocdr) (commentLen : ℕ) :
    Except Fault (Eocdr × Option ℕ) := do
  let offset := src.length - eocdrBaseSz - commentLen
  let (signature, p) ← read32 src offset
  if signature = eocdrSignature then
    let (diskNbr, p) ← read16 src p
    let (cdStartDisk, p) ← read16 src p
    let (diskCdEntries, p) ← read16 src p
    let (cdEntries, p) ← read16 src p
    let (cdSize, p) ← read32 src p
    let (cdOffset, p) ← read32 src p
    let (storedLen, p) ← read16 src p
    let r : Eocdr := ⟨diskNbr, cdStartDisk, diskCdEntries, cdEntries, cdSize, cdOffset,
      storedLen, p⟩
    assert (p = (src.length : ℤ) - commentLen)
    if storedLen.toNat = commentLen then return (r, some offset) else return (r, none)
  else return (r, none)

/-- The scan of `find_eocdr` with the last `remaining` of its `UINT16_MAX + 1` comment lengths
still to try. The offset 0 stands for failure. -/
def findEocdrScan (src : List UInt8) (r : Eocdr) : ℕ → Except Fault (Eocdr × ℕ)
  | 0 => return (r, 0)
  | remaining + 1 => do
    let commentLen := uint16Max - remaining
    if src.length < eocdrBaseSz + commentLen then return (r, 0)
    match ← findEocdrTry src r commentLen with
    | (r, some offset) => return (r, offset)
    | (r, none) => findEocdrScan src r remaining

/-- `find_eocdr`: the record it leaves in `r` and the offset it returns. -/
def findEocdr (src : List UInt8) (r : Eocdr) : Except Fault (Eocdr × ℕ) :=
  findEocdrScan src r (uint16Max + 1)

/-- `read_cfh` on the window of length `srcLen` that starts at index `src` of the buffer. -/
def readCfh (buffer : List UInt8) (src : ℤ) (srcLen offset : ℕ) : Except Fault (Option Cfh) := do
  if offset > srcLen ∨ srcLen - offset < cfhBaseSz then return none
  let (signature, p) ← read32 buffer (src + offset)
  if signature ≠ cfhSignature then return none
  let (madeByVer, p) ← read16 buffer p
  let (extractVer, p) ← read16 buffer p
  let (gpFlag, p) ← read16 buffer p
  let (method, p) ← read16 buffer p
  let (modTime, p) ← read16 buffer p
  let (modDate, p) ← read16 buffer p
  let (crc32, p) ← read32 buffer p
  let (compSize, p) ← read32 buffer p
  let (uncompSize, p) ← read32 buffer p
  let (nameLen, p) ← read16 buffer p
  let (extraLen, p) ← read16 buffer p
  let (commentLen, p) ← read16 buffer p
  let (diskNbrStart, p) ← read16 buffer p
  let (intAttrs, p) ← read16 buffer p
  let (extAttrs, p) ← read32 buffer p
  let (lfhOffset, p) ← read32 buffer p
  let cfh : Cfh := ⟨madeByVer, extractVer, gpFlag, method, modTime, modDate, crc32, compSize,
    uncompSize, nameLen, extraLen, commentLen, diskNbrStart, intAttrs, extAttrs, lfhOffset,
    p, p + nameLen.toNat, p + nameLen.toNat + extraLen.toNat⟩
  assert (p = src + offset + cfhBaseSz)
  if srcLen - offset - cfhBaseSz < cfh.tailLen then return none
  return some cfh

/-- `read_lfh` on the window of length `srcLen` that starts at index `src` of the buffer. -/
def readLfh (buffer : List UInt8) (src : ℤ) (srcLen offset : ℕ) : Except Fault (Option Lfh) := do
  if offset > srcLen ∨ srcLen - offset < lfhBaseSz then return none
  let (signature, p) ← read32 buffer (src + offset)
  if signature ≠ lfhSignature then return none
  let (extractVer, p) ← read16 buffer p
  let (gpFlag, p) ← read16 buffer p
  let (method, p) ← read16 buffer p
  let (modTime, p) ← read16 buffer p
  let (modDate, p) ← read16 buffer p
  let (crc32, p) ← read32 buffer p
  let (compSize, p) ← read32 buffer p
  let (uncompSize, p) ← read32 buffer p
  let (nameLen, p) ← read16 buffer p
  let (extraLen, p) ← read16 buffer p
  let lfh : Lfh := ⟨extractVer, gpFlag, method, modTime, modDate, crc32, compSize, uncompSize,
    nameLen, extraLen, p, p + nameLen.toNat⟩
  assert (p = src + offset + lfhBaseSz)
  if srcLen - offset - lfhBaseSz < lfh.tailLen then return none
  return some lfh

/-! ### The records without the bounds checks -/

/-- The end of central directory record at an index. -/
def eocdrAt (buffer : List UInt8) (p : ℤ) : Eocdr :=
  ⟨word16 buffer (p + 4), word16 buffer (p + 6), word16 buffer (p + 8), word16 buffer (p + 10),
    word32 buffer (p + 12), word32 buffer (p + 16), word16 buffer (p + 20), p + 22⟩

/-- The central header at an index. -/
def cfhAt (buffer : List UInt8) (p : ℤ) : Cfh :=
  ⟨word16 buffer (p + 4), word16 buffer (p + 6), word16 buffer (p + 8), word16 buffer (p + 10),
    word16 buffer (p + 12), word16 buffer (p + 14), word32 buffer (p + 16),
    word32 buffer (p + 20), word32 buffer (p + 24), word16 buffer (p + 28),
    word16 buffer (p + 30), word16 buffer (p + 32), word16 buffer (p + 34),
    word16 buffer (p + 36), word32 buffer (p + 38), word32 buffer (p + 42), p + 46,
    p + (46 + (word16 buffer (p + 28)).toNat),
    p + (46 + ((word16 buffer (p + 28)).toNat + (word16 buffer (p + 30)).toNat))⟩

/-- The local header at an index. -/
def lfhAt (buffer : List UInt8) (p : ℤ) : Lfh :=
  ⟨word16 buffer (p + 4), word16 buffer (p + 6), word16 buffer (p + 8), word16 buffer (p + 10),
    word16 buffer (p + 12), word32 buffer (p + 14), word32 buffer (p + 18),
    word32 buffer (p + 22), word16 buffer (p + 26), word16 buffer (p + 28), p + 30,
    p + (30 + (word16 buffer (p + 26)).toNat)⟩

/-- The fixed part of a record of `size` bytes at an offset fits in a window. -/
def FitsWindow (srcLen offset size : ℕ) : Prop :=
  offset ≤ srcLen ∧ size ≤ srcLen - offset

instance (srcLen offset size : ℕ) : Decidable (FitsWindow srcLen offset size) :=
  inferInstanceAs (Decidable (_ ∧ _))

/-- What `read_cfh` computes at an offset that lies in the buffer. -/
def cfhIn (buffer : List UInt8) (src : ℤ) (srcLen offset : ℕ) : Option Cfh :=
  if FitsWindow srcLen offset cfhBaseSz ∧ word32 buffer (src + offset) = cfhSignature ∧
      (cfhAt buffer (src + offset)).tailLen ≤ srcLen - offset - cfhBaseSz then
    some (cfhAt buffer (src + offset))
  else none

/-- What `read_lfh` computes at an offset that lies in the buffer. -/
def lfhIn (buffer : List UInt8) (src : ℤ) (srcLen offset : ℕ) : Option Lfh :=
  if FitsWindow srcLen offset lfhBaseSz ∧ word32 buffer (src + offset) = lfhSignature ∧
      (lfhAt buffer (src + offset)).tailLen ≤ srcLen - offset - lfhBaseSz then
    some (lfhAt buffer (src + offset))
  else none

/-! ### The header readers at an offset in the buffer -/

/-- The range check at the head of a header reader is the negation of `FitsWindow`. -/
theorem not_fitsWindow_iff {srcLen offset size : ℕ} :
    (offset > srcLen ∨ srcLen - offset < size) ↔ ¬ FitsWindow srcLen offset size := by
  simp only [FitsWindow]
  omega

/-- Assumes: the offset lies in the buffer, and the window ends where the buffer ends. -/
theorem readCfh_of_inside {buffer : List UInt8} {src : ℤ} {srcLen offset : ℕ}
    (hlow : 0 ≤ src + offset) (hend : src + srcLen = buffer.length) :
    readCfh buffer src srcLen offset = .ok (cfhIn buffer src srcLen offset) := by
  by_cases hfits : FitsWindow srcLen offset cfhBaseSz
  · obtain ⟨p, hp⟩ : ∃ p, p = src + (offset : ℤ) := ⟨_, rfl⟩
    have hspace : p + 46 ≤ buffer.length := by
      simp only [FitsWindow, cfhBaseSz] at hfits
      omega
    rw [readCfh, if_neg fun h ↦ not_fitsWindow_iff.mp h hfits, cfhIn, ← hp]
    rw [← hp] at hlow
    simp (disch := omega) only [read16_of_inside, read32_of_inside, ok_bind, add_assoc,
      Int.reduceAdd]
    by_cases hsignature : word32 buffer p = cfhSignature
    · rw [if_neg (not_not.mpr hsignature), assert_of_true (by simp [cfhBaseSz]), ok_bind]
      change (if srcLen - offset - cfhBaseSz < (cfhAt buffer p).tailLen then pure none
        else pure (some (cfhAt buffer p))) = _
      by_cases htail : (cfhAt buffer p).tailLen ≤ srcLen - offset - cfhBaseSz
      · rw [if_neg (not_lt.mpr htail), if_pos ⟨hfits, hsignature, htail⟩, pure_eq_ok]
      · rw [if_pos (not_le.mp htail), if_neg fun h ↦ htail h.2.2, pure_eq_ok]
    · rw [if_pos hsignature, if_neg fun h ↦ hsignature h.2.1, pure_eq_ok]
  · rw [readCfh, if_pos (not_fitsWindow_iff.mpr hfits), cfhIn, if_neg fun h ↦ hfits h.1,
      pure_eq_ok]

/-- Assumes: the offset lies in the buffer, and the window ends where the buffer ends. -/
theorem readLfh_of_inside {buffer : List UInt8} {src : ℤ} {srcLen offset : ℕ}
    (hlow : 0 ≤ src + offset) (hend : src + srcLen = buffer.length) :
    readLfh buffer src srcLen offset = .ok (lfhIn buffer src srcLen offset) := by
  by_cases hfits : FitsWindow srcLen offset lfhBaseSz
  · obtain ⟨p, hp⟩ : ∃ p, p = src + (offset : ℤ) := ⟨_, rfl⟩
    have hspace : p + 30 ≤ buffer.length := by
      simp only [FitsWindow, lfhBaseSz] at hfits
      omega
    rw [readLfh, if_neg fun h ↦ not_fitsWindow_iff.mp h hfits, lfhIn, ← hp]
    rw [← hp] at hlow
    simp (disch := omega) only [read16_of_inside, read32_of_inside, ok_bind, add_assoc,
      Int.reduceAdd]
    by_cases hsignature : word32 buffer p = lfhSignature
    · rw [if_neg (not_not.mpr hsignature), assert_of_true (by simp [lfhBaseSz]), ok_bind]
      change (if srcLen - offset - lfhBaseSz < (lfhAt buffer p).tailLen then pure none
        else pure (some (lfhAt buffer p))) = _
      by_cases htail : (lfhAt buffer p).tailLen ≤ srcLen - offset - lfhBaseSz
      · rw [if_neg (not_lt.mpr htail), if_pos ⟨hfits, hsignature, htail⟩, pure_eq_ok]
      · rw [if_pos (not_le.mp htail), if_neg fun h ↦ htail h.2.2, pure_eq_ok]
    · rw [if_pos hsignature, if_neg fun h ↦ hsignature h.2.1, pure_eq_ok]
  · rw [readLfh, if_pos (not_fitsWindow_iff.mpr hfits), lfhIn, if_neg fun h ↦ hfits h.1,
      pure_eq_ok]

/-- A central header that fits in the window but starts before the buffer is inspected outside
the buffer. -/
theorem readCfh_of_outside {buffer : List UInt8} {src : ℤ} {srcLen offset : ℕ}
    (hlow : src + offset < 0) (hfits : FitsWindow srcLen offset cfhBaseSz) :
    readCfh buffer src srcLen offset = .error (.outside (src + offset)) := by
  rw [readCfh, if_neg fun h ↦ not_fitsWindow_iff.mp h hfits, read32_of_neg hlow]
  rfl

/-- A local header that fits in the window but starts before the buffer is inspected outside the
buffer. -/
theorem readLfh_of_outside {buffer : List UInt8} {src : ℤ} {srcLen offset : ℕ}
    (hlow : src + offset < 0) (hfits : FitsWindow srcLen offset lfhBaseSz) :
    readLfh buffer src srcLen offset = .error (.outside (src + offset)) := by
  rw [readLfh, if_neg fun h ↦ not_fitsWindow_iff.mp h hfits, read32_of_neg hlow]
  rfl

/-- A header that does not fit in the window is rejected before any byte is read. -/
theorem readCfh_of_not_fits {buffer : List UInt8} {src : ℤ} {srcLen offset : ℕ}
    (hfits : ¬ FitsWindow srcLen offset cfhBaseSz) :
    readCfh buffer src srcLen offset = .ok none := by
  rw [readCfh, if_pos (not_fitsWindow_iff.mpr hfits), pure_eq_ok]

/-- A local header that does not fit in the window is rejected before any byte is read. -/
theorem readLfh_of_not_fits {buffer : List UInt8} {src : ℤ} {srcLen offset : ℕ}
    (hfits : ¬ FitsWindow srcLen offset lfhBaseSz) :
    readLfh buffer src srcLen offset = .ok none := by
  rw [readLfh, if_pos (not_fitsWindow_iff.mpr hfits), pure_eq_ok]

/-- A central header read through the window lies in the buffer, and it is the pure one. -/
theorem readCfh_eq_some {buffer : List UInt8} {src : ℤ} {srcLen offset : ℕ} {cfh : Cfh}
    (hend : src + srcLen = buffer.length)
    (hread : readCfh buffer src srcLen offset = .ok (some cfh)) :
    0 ≤ src + offset ∧ cfhIn buffer src srcLen offset = some cfh := by
  by_cases hlow : 0 ≤ src + (offset : ℤ)
  · rw [readCfh_of_inside hlow hend] at hread
    exact ⟨hlow, Except.ok.inj hread⟩
  · by_cases hfits : FitsWindow srcLen offset cfhBaseSz
    · rw [readCfh_of_outside (not_le.mp hlow) hfits] at hread
      cases hread
    · rw [readCfh_of_not_fits hfits] at hread
      cases hread

/-- A local header read through the window lies in the buffer, and it is the pure one. -/
theorem readLfh_eq_some {buffer : List UInt8} {src : ℤ} {srcLen offset : ℕ} {lfh : Lfh}
    (hend : src + srcLen = buffer.length)
    (hread : readLfh buffer src srcLen offset = .ok (some lfh)) :
    0 ≤ src + offset ∧ lfhIn buffer src srcLen offset = some lfh := by
  by_cases hlow : 0 ≤ src + (offset : ℤ)
  · rw [readLfh_of_inside hlow hend] at hread
    exact ⟨hlow, Except.ok.inj hread⟩
  · by_cases hfits : FitsWindow srcLen offset lfhBaseSz
    · rw [readLfh_of_outside (not_le.mp hlow) hfits] at hread
      cases hread
    · rw [readLfh_of_not_fits hfits] at hread
      cases hread

/-! ### The backward scan -/

/-- A record matches at comment length `commentLen`: it fits in the buffer, carries the
signature, and stores that comment length. -/
def EocdrAt (src : List UInt8) (commentLen : ℕ) : Prop :=
  eocdrBaseSz + commentLen ≤ src.length ∧
    word32 src ((src.length - eocdrBaseSz - commentLen : ℕ) : ℤ) = eocdrSignature ∧
    (word16 src ((src.length - eocdrBaseSz - commentLen : ℕ) + 20 : ℤ)).toNat = commentLen

instance (src : List UInt8) (commentLen : ℕ) : Decidable (EocdrAt src commentLen) :=
  inferInstanceAs (Decidable (_ ∧ _))

/-- One try of the scan inside the buffer: the record that matches is stored and its offset
reported, and otherwise no offset is. -/
theorem findEocdrTry_eq {src : List UInt8} {r : Eocdr} {commentLen : ℕ}
    (hroom : eocdrBaseSz + commentLen ≤ src.length) :
    ∃ r', findEocdrTry src r commentLen =
      .ok (r', if EocdrAt src commentLen then some (src.length - eocdrBaseSz - commentLen)
        else none) ∧
      (EocdrAt src commentLen →
        r' = eocdrAt src ((src.length - eocdrBaseSz - commentLen : ℕ) : ℤ)) := by
  obtain ⟨offset, hoffset⟩ : ∃ offset, offset = src.length - eocdrBaseSz - commentLen := ⟨_, rfl⟩
  have hspace : (offset : ℤ) + 22 + commentLen = src.length := by
    simp only [eocdrBaseSz] at hroom hoffset
    omega
  have hlow : (0 : ℤ) ≤ offset := Int.natCast_nonneg _
  simp only [findEocdrTry, ← hoffset]
  simp (disch := omega) only [read16_of_inside, read32_of_inside, ok_bind, add_assoc,
    Int.reduceAdd]
  by_cases hsignature : word32 src (offset : ℤ) = eocdrSignature
  · rw [if_pos hsignature, assert_of_true (by omega), ok_bind]
    refine ⟨eocdrAt src offset, ?_, fun _ ↦ rfl⟩
    by_cases hstored : (word16 src ((offset : ℤ) + 20)).toNat = commentLen
    · have hmatch : EocdrAt src commentLen := ⟨hroom, by rwa [← hoffset], by rwa [← hoffset]⟩
      rw [if_pos hstored, if_pos hmatch]
      rfl
    · have hmismatch : ¬ EocdrAt src commentLen := fun h ↦
        hstored (by simpa [← hoffset] using h.2.2)
      rw [if_neg hstored, if_neg hmismatch]
      rfl
  · have hmismatch : ¬ EocdrAt src commentLen := fun h ↦
      hsignature (by simpa [← hoffset] using h.2.1)
    rw [if_neg hsignature, if_neg hmismatch]
    exact ⟨r, rfl, fun h ↦ absurd h hmismatch⟩

/-- The scan stops at the first comment length still to try at which a record matches. -/
theorem findEocdrScan_of_first {src : List UInt8} {commentLen : ℕ}
    (hmatch : EocdrAt src commentLen) (hbound : commentLen ≤ uint16Max) (remaining : ℕ) :
    ∀ r, remaining ≤ uint16Max + 1 → uint16Max + 1 ≤ commentLen + remaining →
      (∀ shorter < commentLen, uint16Max + 1 ≤ shorter + remaining → ¬ EocdrAt src shorter) →
      findEocdrScan src r remaining =
        .ok (eocdrAt src ((src.length - eocdrBaseSz - commentLen : ℕ) : ℤ),
          src.length - eocdrBaseSz - commentLen) := by
  induction remaining with
  | zero => intro r _ hreach; omega
  | succ remaining ih =>
    intro r hrange hreach hfirst
    obtain ⟨tried, htried⟩ : ∃ tried, tried = uint16Max - remaining := ⟨_, rfl⟩
    have hlonger : tried ≤ commentLen := by omega
    have hroom : eocdrBaseSz + tried ≤ src.length := le_trans (by omega) hmatch.1
    obtain ⟨r', htry, hrecord⟩ := findEocdrTry_eq (r := r) hroom
    simp only [findEocdrScan, ← htried]
    rw [if_neg (not_lt.mpr hroom), htry, ok_bind]
    by_cases hequal : tried = commentLen
    · subst hequal
      simp only [if_pos hmatch, hrecord hmatch, pure_eq_ok]
    · have hmismatch : ¬ EocdrAt src tried := hfirst tried (by omega) (by omega)
      simp only [if_neg hmismatch]
      exact ih r' (by omega) (by omega) fun shorter hshorter hstart ↦
        hfirst shorter hshorter (by omega)

/-- The scan returns the failure value when no record matches. -/
theorem findEocdrScan_of_none {src : List UInt8}
    (hnone : ∀ commentLen ≤ uint16Max, ¬ EocdrAt src commentLen) (remaining : ℕ) :
    ∀ r, ∃ r', findEocdrScan src r remaining = .ok (r', 0) := by
  induction remaining with
  | zero => exact fun r ↦ ⟨r, rfl⟩
  | succ remaining ih =>
    intro r
    simp only [findEocdrScan]
    by_cases hroom : eocdrBaseSz + (uint16Max - remaining) ≤ src.length
    · obtain ⟨r', htry, -⟩ := findEocdrTry_eq (r := r) hroom
      have hmismatch := hnone (uint16Max - remaining) (Nat.sub_le _ _)
      simp only [if_neg (not_lt.mpr hroom), htry, ok_bind, if_neg hmismatch]
      exact ih r'
    · exact ⟨r, by rw [if_pos (not_le.mp hroom), pure_eq_ok]⟩

/-- A record matches at `commentLen` and at no shorter comment length: it is the one `find_eocdr`
reports. -/
def EocdrFirst (src : List UInt8) (commentLen : ℕ) : Prop :=
  EocdrAt src commentLen ∧ commentLen ≤ uint16Max ∧
    ∀ shorter < commentLen, ¬ EocdrAt src shorter

theorem findEocdr_of_first {src : List UInt8} {commentLen : ℕ} (hfirst : EocdrFirst src commentLen)
    (r : Eocdr) :
    findEocdr src r = .ok (eocdrAt src ((src.length - eocdrBaseSz - commentLen : ℕ) : ℤ),
      src.length - eocdrBaseSz - commentLen) :=
  findEocdrScan_of_first hfirst.1 hfirst.2.1 _ r le_rfl (by omega)
    fun shorter hshorter _ ↦ hfirst.2.2 shorter hshorter

theorem findEocdr_of_none {src : List UInt8}
    (hnone : ∀ commentLen, ¬ EocdrFirst src commentLen) (r : Eocdr) :
    ∃ r', findEocdr src r = .ok (r', 0) := by
  refine findEocdrScan_of_none (fun commentLen hbound hmatch ↦ ?_) _ r
  have hexists : ∃ length, EocdrAt src length := ⟨commentLen, hmatch⟩
  exact hnone (Nat.find hexists) ⟨Nat.find_spec hexists,
    le_trans (Nat.find_min' hexists hmatch) hbound, fun _ hshorter ↦ Nat.find_min hexists hshorter⟩

/-! ### Bytes in front of the buffer -/

/-- An end of central directory record whose pointer is moved forward by `shift`. -/
def Eocdr.moved (eocdr : Eocdr) (shift : ℤ) : Eocdr :=
  { eocdr with comment := shift + eocdr.comment }

/-- A central header whose pointers are moved forward by `shift`. -/
def Cfh.moved (cfh : Cfh) (shift : ℤ) : Cfh :=
  { cfh with
    name := shift + cfh.name
    extra := shift + cfh.extra
    comment := shift + cfh.comment }

/-- A local header whose pointers are moved forward by `shift`. -/
def Lfh.moved (lfh : Lfh) (shift : ℤ) : Lfh :=
  { lfh with
    name := shift + lfh.name
    extra := shift + lfh.extra }

theorem eocdrAt_append (front buffer : List UInt8) {p : ℤ} (hlow : 0 ≤ p) :
    eocdrAt (front ++ buffer) (front.length + p) = (eocdrAt buffer p).moved front.length := by
  simp (disch := omega) only [eocdrAt, Eocdr.moved, add_assoc, word16_append, word32_append]

theorem cfhAt_append (front buffer : List UInt8) {p : ℤ} (hlow : 0 ≤ p) :
    cfhAt (front ++ buffer) (front.length + p) = (cfhAt buffer p).moved front.length := by
  simp (disch := omega) only [cfhAt, Cfh.moved, add_assoc, word16_append, word32_append]

theorem lfhAt_append (front buffer : List UInt8) {p : ℤ} (hlow : 0 ≤ p) :
    lfhAt (front ++ buffer) (front.length + p) = (lfhAt buffer p).moved front.length := by
  simp (disch := omega) only [lfhAt, Lfh.moved, add_assoc, word16_append, word32_append]

theorem cfhIn_append (front buffer : List UInt8) {src : ℤ} (srcLen : ℕ) {offset : ℕ}
    (hlow : 0 ≤ src + offset) :
    cfhIn (front ++ buffer) (front.length + src) srcLen offset =
      (cfhIn buffer src srcLen offset).map fun cfh ↦ cfh.moved front.length := by
  simp only [cfhIn, add_assoc, cfhAt_append front buffer hlow, word32_append front buffer hlow]
  split_ifs with hmoved horiginal horiginal
  · rfl
  · exact absurd hmoved horiginal
  · exact absurd horiginal hmoved
  · rfl

theorem lfhIn_append (front buffer : List UInt8) {src : ℤ} (srcLen : ℕ) {offset : ℕ}
    (hlow : 0 ≤ src + offset) :
    lfhIn (front ++ buffer) (front.length + src) srcLen offset =
      (lfhIn buffer src srcLen offset).map fun lfh ↦ lfh.moved front.length := by
  simp only [lfhIn, add_assoc, lfhAt_append front buffer hlow, word32_append front buffer hlow]
  split_ifs with hmoved horiginal horiginal
  · rfl
  · exact absurd hmoved horiginal
  · exact absurd horiginal hmoved
  · rfl

/-- The same record is the first match when bytes are put in front of the buffer. -/
theorem eocdrFirst_append (front : List UInt8) {buffer : List UInt8} {commentLen : ℕ}
    (hfirst : EocdrFirst buffer commentLen) : EocdrFirst (front ++ buffer) commentLen := by
  have hsame (length : ℕ) (hroom : eocdrBaseSz + length ≤ buffer.length) :
      EocdrAt (front ++ buffer) length ↔ EocdrAt buffer length := by
    have hoffset : (((front ++ buffer).length - eocdrBaseSz - length : ℕ) : ℤ) =
        front.length + ((buffer.length - eocdrBaseSz - length : ℕ) : ℤ) := by
      rw [List.length_append]
      omega
    have hroom' : eocdrBaseSz + length ≤ (front ++ buffer).length := by
      rw [List.length_append]
      omega
    simp (disch := omega) only [EocdrAt, hoffset, add_assoc, word16_append, word32_append, hroom,
      hroom', true_and]
  refine ⟨(hsame commentLen hfirst.1.1).mpr hfirst.1, hfirst.2.1, fun shorter hshorter hmatch ↦ ?_⟩
  have hroom : eocdrBaseSz + shorter ≤ buffer.length := le_trans (by omega) hfirst.1.1
  exact hfirst.2.2 shorter hshorter ((hsame shorter hroom).mp hmatch)

end Homework.Zip
