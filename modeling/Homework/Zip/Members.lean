import Homework.Zip.Iteration

/-!
# The members of an accepted archive

`zip_member` reads the two headers of a member again and repeats no check of `zip_read` on what they
say. What it hands out is sound all the same: an entry of the directory that the validation walked
is `Entry.Valid`, and the pointers and sizes of its member are those of the entry. The three ranges
that a user of the reader touches lie in the buffer, the name has no zero byte, and the sizes of a
stored member agree (`ZipMemb.Valid`).
-/

set_option autoImplicit false
set_option relaxedAutoImplicit false

namespace Homework.Zip

open Library.ByteBuffer

/-- The `length` bytes from `p` on lie in the buffer. -/
def InBuffer (buffer : List UInt8) (p : ℤ) (length : ℕ) : Prop :=
  0 ≤ p ∧ p + length ≤ buffer.length

/-- What a user of the reader may rely on in a member. -/
structure ZipMemb.Valid (m : ZipMemb) (buffer : List UInt8) : Prop where
  name_inside : InBuffer buffer m.name m.nameLen.toNat
  comment_inside : InBuffer buffer m.comment m.commentLen.toNat
  compData_inside : InBuffer buffer m.compData m.compSize.toNat
  name_clean : 0 ∉ slice buffer m.name m.nameLen.toNat
  method_eq : m.method = zipStored ∨ m.method = zipDeflated
  sizes_eq : m.method = zipStored → m.compSize = m.uncompSize

section Window

variable {buffer : List UInt8} {src : ℤ} {srcLen : ℕ} (hend : src + srcLen = buffer.length)
include hend

/-- The comment of a central header that lies in the buffer lies in the buffer. -/
theorem cfh_comment_inside {offset : ℕ} {cfh : Cfh} (hlow : 0 ≤ src + (offset : ℤ))
    (hcfh : cfhIn buffer src srcLen offset = some cfh) :
    InBuffer buffer cfh.comment cfh.commentLen.toNat := by
  obtain ⟨heq, hroom⟩ := cfhIn_eq_some hcfh
  have hcomment : cfh.comment =
      src + offset + (46 + (cfh.nameLen.toNat + cfh.extraLen.toNat)) := by
    rw [heq]
    rfl
  simp only [cfhBaseSz, Cfh.tailLen] at hroom
  constructor
  · omega
  · omega

/-- The data of a valid entry starts in the window, behind its local header. -/
theorem Entry.Valid.compData_window {entry : Entry} (hvalid : entry.Valid buffer src srcLen) :
    0 ≤ entry.compData ∧ src ≤ entry.compData ∧ entry.compData ≤ src + srcLen := by
  obtain ⟨heq, hroom⟩ := lfhIn_eq_some hvalid.lfh_eq
  have hlow := hvalid.lfh_inside
  have hextra : entry.lfh.extra =
      src + entry.cfh.lfhOffset.toNat + (30 + entry.lfh.nameLen.toNat) := by
    rw [heq]
    rfl
  simp only [lfhBaseSz, Lfh.tailLen] at hroom
  rw [Entry.compData, hextra]
  refine ⟨?_, ?_, ?_⟩
  · omega
  · omega
  · omega

/-- The data of a valid entry lies in the buffer. The check of `zip_read` subtracts the start of the
data from the length of the window, and the data starts in the window. -/
theorem Entry.Valid.compData_inside {entry : Entry} (hvalid : entry.Valid buffer src srcLen) :
    InBuffer buffer entry.compData entry.cfh.compSize.toNat := by
  obtain ⟨hlow, hstart, hstop⟩ := hvalid.compData_window hend
  have hfits := hvalid.data_fits
  have hlength : (((entry.compData - src).toNat : ℕ) : ℤ) = entry.compData - src :=
    Int.toNat_of_nonneg (sub_nonneg.mpr hstart)
  refine ⟨hlow, ?_⟩
  omega

/-- The member of a valid entry is valid. -/
theorem Entry.Valid.member (mktime : Tm → ℤ) {entry : Entry}
    (hvalid : entry.Valid buffer src srcLen) : (entry.member mktime).Valid buffer where
  name_inside := cfh_name_inside hend hvalid.cfh_inside hvalid.central.cfh_eq
  comment_inside := cfh_comment_inside hend hvalid.cfh_inside hvalid.central.cfh_eq
  compData_inside := hvalid.compData_inside hend
  name_clean := hvalid.central.name_clean
  method_eq := hvalid.central.accepted.2.1
  sizes_eq hstored := (hvalid.central.accepted.2.2.1 hstored).symm

end Window

/-- Every entry of a directory is valid and lies between its ends. -/
theorem Directory.of_mem {buffer : List UInt8} {src : ℤ} {srcLen : ℕ} {entries : List Entry} :
    ∀ {first last : ℕ}, Directory buffer src srcLen first last entries → ∀ entry ∈ entries,
      entry.Valid buffer src srcLen ∧ first ≤ entry.offset ∧ entry.next ≤ last := by
  induction entries with
  | nil => exact fun _ entry hentry ↦ absurd hentry List.not_mem_nil
  | cons head rest ih =>
    intro first last hdirectory entry hentry
    obtain ⟨hfirst, hvalid, hrest⟩ := hdirectory
    have hstep := head.offset_lt_next
    have hlast := hrest.add_length_le
    rcases List.mem_cons.mp hentry with rfl | hmem
    · exact ⟨hvalid, hfirst.ge, by omega⟩
    · obtain ⟨hentry, hlow, hhigh⟩ := ih hrest entry hmem
      exact ⟨hentry, by omega, hhigh⟩

/-- The reader hands out valid members only. When `zip_read` returns 1, with every byte it read
inside the buffer, the iteration from `members_begin` to `members_end` stops after `num_members`
calls of `zip_member`, no assertion fails in them, and every member they return is valid. -/
theorem zipMember_valid (mktime : Tm → ℤ) {buffer : List UInt8} {zip : ZipT}
    (hread : zipRead buffer = .ok (some zip)) :
    ∃ visited : List (ℕ × ZipMemb), visited.length = zip.numMembers.toNat ∧
      (∀ fuel > zip.numMembers.toNat,
        listZipLoop mktime buffer zip fuel zip.membersBegin = .ok (some visited)) ∧
      ∀ visit ∈ visited, zipMember mktime buffer zip visit.1 = .ok visit.2 ∧
        visit.2.Valid buffer := by
  obtain ⟨hend, entries, hlength, hdirectory⟩ := zipRead_directory hread
  refine ⟨entries.map fun entry ↦ (entry.offset, entry.member mktime), ?_, ?_, ?_⟩
  · rw [List.length_map, hlength]
  · intro fuel hfuel
    exact listZipLoop_of_directory hend mktime entries (hlength ▸ hfuel) le_rfl hdirectory
  · intro visit hvisit
    obtain ⟨entry, hentry, rfl⟩ := List.mem_map.mp hvisit
    obtain ⟨hvalid, hbegin, hnext⟩ := hdirectory.of_mem entry hentry
    exact ⟨zipMember_of_valid hend mktime hvalid hbegin hnext, hvalid.member hend mktime⟩

/-- The only member of `tinyArchive` is valid. -/
theorem zipMember_valid_tinyArchive :
    ∃ visited : List (ℕ × ZipMemb), visited.length = 1 ∧
      (∀ fuel > 1,
        listZipLoop (fun tm ↦ tm.tmYear) tinyArchive tinyZip fuel 32 = .ok (some visited)) ∧
      ∀ visit ∈ visited, zipMember (fun tm ↦ tm.tmYear) tinyArchive tinyZip visit.1 =
        .ok visit.2 ∧ visit.2.Valid tinyArchive := by
  have hread : zipRead tinyArchive = .ok (some tinyZip) := by decide +kernel
  exact zipMember_valid (fun tm ↦ tm.tmYear) hread

end Homework.Zip
