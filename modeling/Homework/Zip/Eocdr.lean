import Homework.Zip.Iteration
import Mathlib.Order.Bounds.Basic

/-!
# The search for the end of central directory record

The scan of `find_eocdr` tries the comment lengths in increasing order, which is the offsets in
decreasing order, and returns the first offset at which a record matches. Offset 0 is also the value
that stands for failure. `findEocdr_of_isRecord` says what the scan returns when a record matches
somewhere, and `searchExact_iff` that the search is exact unless the only matching record starts at
offset 0, as that of an archive without members does.
-/

set_option autoImplicit false
set_option relaxedAutoImplicit false

namespace Homework.Zip

open Library.ByteBuffer

/-! ### Records -/

/-- The bytes of `EOCDR_SIGNATURE` lie at an offset. -/
def SignedAt (src : List UInt8) (offset : ℕ) : Prop :=
  byte src offset = 0x50 ∧ byte src (offset + 1) = 0x4b ∧ byte src (offset + 2) = 5 ∧
    byte src (offset + 3) = 6

/-- A record matches at an offset: behind its 22 bytes lies a comment that ends with the buffer, the
record carries the signature, and its comment length is that of the comment. -/
def IsRecord (src : List UInt8) (offset : ℕ) : Prop :=
  ∃ commentLen ≤ uint16Max, offset + eocdrBaseSz + commentLen = src.length ∧
    SignedAt src offset ∧ (word16 src (offset + 20 : ℤ)).toNat = commentLen

/-- The signature as a word and as four bytes. -/
theorem word32_eq_eocdrSignature_iff (src : List UInt8) (offset : ℕ) :
    word32 src offset = eocdrSignature ↔ SignedAt src offset := by
  rw [← UInt32.toNat_inj, word32, toNat_or_bytes32, SignedAt]
  simp only [← UInt8.toNat_inj]
  have hb0 := (byte src offset).toNat_lt
  have hb1 := (byte src (offset + 1)).toNat_lt
  have hb2 := (byte src (offset + 2)).toNat_lt
  have hsignature : eocdrSignature.toNat = 0x50 + 0x4b * 2 ^ 8 + 5 * 2 ^ 16 + 6 * 2 ^ 24 := rfl
  rw [hsignature]
  simp only [UInt8.reduceToNat]
  omega

/-- A record matches at an offset when the scan finds it there. -/
theorem isRecord_iff (src : List UInt8) (offset : ℕ) :
    IsRecord src offset ↔
      ∃ commentLen ≤ uint16Max, EocdrAt src commentLen ∧ eocdrOffsetOf src commentLen = offset := by
  unfold IsRecord EocdrAt eocdrOffsetOf
  refine exists_congr fun commentLen ↦ and_congr_right fun _ ↦ ?_
  constructor
  · rintro ⟨hlength, hsigned, hstored⟩
    have hoffset : src.length - eocdrBaseSz - commentLen = offset := by omega
    rw [hoffset]
    exact ⟨⟨by omega, (word32_eq_eocdrSignature_iff src offset).mpr hsigned, hstored⟩, rfl⟩
  · rintro ⟨⟨hroom, hsignature, hstored⟩, rfl⟩
    exact ⟨by omega, (word32_eq_eocdrSignature_iff src _).mp hsignature, hstored⟩

/-! ### The scan -/

/-- When a record matches somewhere, the scan returns the largest offset at which one does, and the
record there. -/
theorem findEocdr_of_isRecord {src : List UInt8} (hrecord : ∃ o, IsRecord src o) (r : Eocdr) :
    ∃ offset : ℕ, IsGreatest {o | IsRecord src o} offset ∧
      findEocdr src r = .ok (eocdrAt src offset, offset) := by
  have hmatch : ∃ commentLen, EocdrAt src commentLen := by
    obtain ⟨o, ho⟩ := hrecord
    obtain ⟨commentLen, -, hat, -⟩ := (isRecord_iff src o).mp ho
    exact ⟨commentLen, hat⟩
  obtain ⟨o, ho⟩ := hrecord
  obtain ⟨commentLen, hbound, hat, -⟩ := (isRecord_iff src o).mp ho
  have hleast := Nat.find_min' hmatch hat
  have hfirst : EocdrFirst src (Nat.find hmatch) :=
    ⟨Nat.find_spec hmatch, hleast.trans hbound, fun _ ↦ Nat.find_min hmatch⟩
  refine ⟨_, ⟨?_, ?_⟩, findEocdr_of_first hfirst r⟩
  · exact (isRecord_iff src _).mpr ⟨_, hfirst.2.1, hfirst.1, rfl⟩
  · intro other hother
    obtain ⟨length, -, hlength, rfl⟩ := (isRecord_iff src other).mp hother
    have hshortest : Nat.find hmatch ≤ length := Nat.find_min' hmatch hlength
    exact Nat.sub_le_sub_left hshortest _

/-- When no record matches, the scan returns 0. -/
theorem findEocdr_of_not_isRecord {src : List UInt8} (hrecord : ¬ ∃ o, IsRecord src o)
    (r : Eocdr) : ∃ r', findEocdr src r = .ok (r', 0) := by
  refine findEocdr_of_none (fun commentLen hfirst ↦ hrecord ?_) r
  exact ⟨_, (isRecord_iff src _).mpr ⟨commentLen, hfirst.2.1, hfirst.1, rfl⟩⟩

/-- The search is exact: it inspects no byte outside the buffer, it returns an offset that
`zip_read` does not take for failure exactly when a record matches somewhere, and then this is the
largest offset at which one does, and `r` holds the record there. -/
def SearchExact (src : List UInt8) (r : Eocdr) : Prop :=
  ∃ record offset, findEocdr src r = .ok (record, offset) ∧
    (offset ≠ 0 ↔ ∃ o, IsRecord src o) ∧
    ((∃ o, IsRecord src o) → IsGreatest {o | IsRecord src o} offset ∧
      record = eocdrAt src offset)

/-- The search is exact exactly when the record at offset 0, if one matches there, is not the only
one. -/
theorem searchExact_iff (src : List UInt8) (r : Eocdr) :
    SearchExact src r ↔ (IsRecord src 0 → ∃ o, o ≠ 0 ∧ IsRecord src o) := by
  constructor
  · rintro ⟨record, offset, -, hsuccess, hlargest⟩ hzero
    have hrecord : ∃ o, IsRecord src o := ⟨0, hzero⟩
    exact ⟨offset, hsuccess.mpr hrecord, (hlargest hrecord).1.1⟩
  · intro hother
    by_cases hrecord : ∃ o, IsRecord src o
    · obtain ⟨offset, hlargest, hfind⟩ := findEocdr_of_isRecord hrecord r
      refine ⟨_, _, hfind, iff_of_true ?_ hrecord, fun _ ↦ ⟨hlargest, rfl⟩⟩
      rintro rfl
      obtain ⟨o, hne, ho⟩ := hother hlargest.1
      exact hne (Nat.le_zero.mp (hlargest.2 ho))
    · obtain ⟨record, hfind⟩ := findEocdr_of_not_isRecord hrecord r
      exact ⟨record, 0, hfind, iff_of_false (not_not.mpr rfl) hrecord,
        fun hsome ↦ absurd hsome hrecord⟩

/-- An archive without members and without a comment. -/
def emptyArchive : List UInt8 :=
  [0x50, 0x4b, 5, 6, 0, 0, 0, 0, 0, 0, 0, 0, 0, 0, 0, 0, 0, 0, 0, 0, 0, 0]

/-- The record of `emptyArchive` starts at offset 0, so the search reports failure. -/
theorem not_searchExact_emptyArchive : ¬ SearchExact emptyArchive default := by
  rintro ⟨record, offset, hfind, hsuccess, -⟩
  have hrecord : IsRecord emptyArchive 0 := by
    refine ⟨0, Nat.zero_le _, rfl, ?_, ?_⟩
    · unfold SignedAt
      decide
    · decide
  have hzero : (findEocdr emptyArchive default).map Prod.snd = .ok 0 := by decide +kernel
  rw [hfind] at hzero
  exact hsuccess.mpr ⟨0, hrecord⟩ (Except.ok.inj hzero)

end Homework.Zip
