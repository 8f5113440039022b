import Homework.Zip.Iteration

/-!
# A ZIP archive behind other data

The reader finds an archive from the end of the file, which is what lets a ZIP archive hide behind
a JPEG picture. `zipRead_append` says that an archive accepted on its own is accepted with any bytes
in front of it, and that only its pointers move. The entries of its directory move with it
(`Directory.append`), and `zipRead_prefix_independent` states what a user of the reader sees: the
same number of members and iterators, the same archive comment, and a listing that visits members
with the same contents.
-/

set_option autoImplicit false
set_option relaxedAutoImplicit false

namespace Homework.Zip

open Library.ByteBuffer

/-! ### Moving an archive -/

/-- An entry whose pointers are moved forward by `shift`. -/
def Entry.moved (entry : Entry) (shift : ℤ) : Entry :=
  { entry with cfh := entry.cfh.moved shift, lfh := entry.lfh.moved shift }

/-- An archive whose pointers are moved forward by `shift`. -/
def ZipT.moved (zip : ZipT) (shift : ℤ) : ZipT :=
  { zip with comment := shift + zip.comment, src := shift + zip.src }

@[simp] theorem Entry.compData_moved (entry : Entry) (shift : ℤ) :
    (entry.moved shift).compData = shift + entry.compData :=
  add_assoc _ _ _

section Window

variable {buffer : List UInt8} {src : ℤ} {srcLen : ℕ}

/-- The pointers of a valid entry point into the buffer. -/
theorem Entry.Valid.pointers_nonneg {entry : Entry} (hvalid : entry.Valid buffer src srcLen) :
    0 ≤ entry.cfh.name ∧ 0 ≤ entry.cfh.comment ∧ 0 ≤ entry.compData := by
  have hcfh := (cfhIn_eq_some hvalid.central.cfh_eq).1
  have hlfh := (lfhIn_eq_some hvalid.lfh_eq).1
  have hcfhLow := hvalid.cfh_inside
  have hlfhLow := hvalid.lfh_inside
  rw [Entry.compData, hcfh, hlfh]
  simp only [cfhAt, lfhAt]
  refine ⟨?_, ?_, ?_⟩ <;> positivity

/-- A valid entry stays valid when bytes are put in front of the buffer. -/
theorem Entry.Valid.append (front : List UInt8) {entry : Entry}
    (hvalid : entry.Valid buffer src srcLen) :
    (entry.moved front.length).Valid (front ++ buffer) (front.length + src) srcLen := by
  obtain ⟨hname, -, -⟩ := hvalid.pointers_nonneg
  have hcfhLow := hvalid.cfh_inside
  have hlfhLow := hvalid.lfh_inside
  refine ⟨?_, ⟨?_, hvalid.central.accepted, ?_⟩, ?_, ?_, ?_⟩
  · simp only [Entry.moved]
    omega
  · exact (cfhIn_append front buffer srcLen hcfhLow).trans
      (congrArg (Option.map _) hvalid.central.cfh_eq)
  · have hslice := slice_append front buffer hname entry.cfh.nameLen.toNat
    exact hslice ▸ hvalid.central.name_clean
  · simp only [Entry.moved, Cfh.moved]
    omega
  · exact (lfhIn_append front buffer srcLen hlfhLow).trans
      (congrArg (Option.map _) hvalid.lfh_eq)
  · rw [Entry.compData_moved, add_sub_add_left_eq_sub]
    exact hvalid.data_fits

/-- A directory moves with the buffer when bytes are put in front of it. -/
theorem Directory.append (front : List UInt8) {entries : List Entry} : ∀ {first last : ℕ},
    Directory buffer src srcLen first last entries →
      Directory (front ++ buffer) (front.length + src) srcLen first last
        (entries.map fun entry ↦ entry.moved front.length) := by
  induction entries with
  | nil => exact fun h ↦ h
  | cons entry rest ih =>
    intro first last hdirectory
    obtain ⟨hoffset, hvalid, hrest⟩ := hdirectory
    exact ⟨hoffset, hvalid.append front, ih hrest⟩

end Window

/-- An archive that is accepted on its own is accepted behind any bytes, with its pointers moved
past them. -/
theorem zipRead_append (front : List UInt8) {buffer : List UInt8} {zip : ZipT}
    (hread : zipRead buffer = .ok (some zip)) :
    zipRead (front ++ buffer) = .ok (some (zip.moved front.length)) := by
  obtain ⟨commentLen, last, entries, hfirst, hoffset, hsingle, rfl, hlength, hdirectory⟩ :=
    zipRead_eq_some_iff.mp hread
  have hroom := hfirst.1.1
  have hposition : eocdrOffsetOf (front ++ buffer) commentLen =
      front.length + eocdrOffsetOf buffer commentLen := by
    rw [eocdrOffsetOf, eocdrOffsetOf, List.length_append]
    omega
  have hrecord : eocdrOf (front ++ buffer) commentLen =
      (eocdrOf buffer commentLen).moved front.length := by
    have hmoved := eocdrAt_append front buffer
      (Int.natCast_nonneg (eocdrOffsetOf buffer commentLen))
    rw [← Nat.cast_add, ← hposition] at hmoved
    exact hmoved
  have hwindow : windowLenOf (front ++ buffer) commentLen = windowLenOf buffer commentLen := by
    rw [windowLenOf, windowLenOf, hposition, hrecord, windowLen, windowLen, List.length_append]
    simp only [Eocdr.moved]
    omega
  have hzip : zipOf (front ++ buffer) commentLen last =
      (zipOf buffer commentLen last).moved front.length := by
    simp only [zipOf, hwindow, hrecord, ZipT.moved, Eocdr.moved, List.length_append,
      Nat.cast_add, add_sub_assoc]
  refine zipRead_eq_some_iff.mpr ⟨commentLen, last, entries.map fun entry ↦
    entry.moved front.length, eocdrFirst_append front hfirst, ?_, ?_, hzip.symm, ?_, ?_⟩
  · rw [hposition]
    omega
  · rw [hrecord]
    exact hsingle
  · rw [List.length_map]
    exact hlength
  · exact hdirectory.append front

/-! ### What a listing shows -/

/-- What the reader hands out for a member, with the bytes its pointers point to. -/
structure MemberContent where
  name : List UInt8
  mtime : ℤ
  method : UInt16
  crc32 : UInt32
  compSize : UInt32
  uncompSize : UInt32
  comment : List UInt8
  compData : List UInt8
  isDir : Bool
  deriving DecidableEq, Repr

/-- The content of a member in a buffer. -/
def ZipMemb.content (m : ZipMemb) (buffer : List UInt8) : MemberContent where
  name := slice buffer m.name m.nameLen.toNat
  mtime := m.mtime
  method := m.method
  crc32 := m.crc32
  compSize := m.compSize
  uncompSize := m.uncompSize
  comment := slice buffer m.comment m.commentLen.toNat
  compData := slice buffer m.compData m.compSize.toNat
  isDir := m.isDir

/-- The content of a valid entry does not depend on the bytes in front of the buffer. -/
theorem content_moved (mktime : Tm → ℤ) (front : List UInt8) {buffer : List UInt8} {src : ℤ}
    {srcLen : ℕ} {entry : Entry} (hvalid : entry.Valid buffer src srcLen) :
    ((entry.moved front.length).member mktime).content (front ++ buffer) =
      (entry.member mktime).content buffer := by
  obtain ⟨hname, hcomment, hdata⟩ := hvalid.pointers_nonneg
  simp only [ZipMemb.content, Entry.member, Entry.compData_moved]
  simp only [Entry.moved, Cfh.moved, slice_append front buffer hname,
    slice_append front buffer hcomment, slice_append front buffer hdata]

/-- Every entry of a directory is valid. -/
theorem Directory.valid {buffer : List UInt8} {src : ℤ} {srcLen : ℕ} {entries : List Entry} :
    ∀ {first last : ℕ}, Directory buffer src srcLen first last entries →
      ∀ entry ∈ entries, entry.Valid buffer src srcLen := by
  induction entries with
  | nil => intro first last _ entry hentry; cases hentry
  | cons head rest ih =>
    intro first last hdirectory entry hentry
    obtain ⟨-, hvalid, hrest⟩ := hdirectory
    rcases List.mem_cons.mp hentry with rfl | hmem
    · exact hvalid
    · exact ih hrest entry hmem

/-- Prefix independence. When `zip_read` returns 1 on a buffer, with every byte it read inside the
buffer, it returns 1 on the buffer behind any bytes, with the same number of members, the same
iterators and the same archive comment, and the two listings visit the same iterators and find
members with the same contents there. -/
theorem zipRead_prefix_independent (mktime : Tm → ℤ) (front : List UInt8) {buffer : List UInt8}
    {zip : ZipT} (hread : zipRead buffer = .ok (some zip)) :
    ∃ zip', zipRead (front ++ buffer) = .ok (some zip') ∧
      zip'.numMembers = zip.numMembers ∧
      zip'.membersBegin = zip.membersBegin ∧ zip'.membersEnd = zip.membersEnd ∧
      slice (front ++ buffer) zip'.comment zip'.commentLen.toNat =
        slice buffer zip.comment zip.commentLen.toNat ∧
      zip'.commentLen = zip.commentLen ∧
      ∀ fuel > zip.numMembers.toNat, ∃ members members',
        listZipLoop mktime buffer zip fuel zip.membersBegin = .ok (some members) ∧
        listZipLoop mktime (front ++ buffer) zip' fuel zip'.membersBegin = .ok (some members') ∧
        members'.map (fun visit ↦ (visit.1, visit.2.next, visit.2.content (front ++ buffer))) =
          members.map fun visit ↦ (visit.1, visit.2.next, visit.2.content buffer) := by
  obtain ⟨hend, entries, hlength, hdirectory⟩ := zipRead_directory hread
  have hread' := zipRead_append front hread
  have hend' := (zipRead_directory hread').1
  have hcomment : 0 ≤ zip.comment := by
    obtain ⟨commentLen, last, _, _, _, _, rfl, _⟩ := zipRead_eq_some_iff.mp hread
    simp only [zipOf, eocdrOf, eocdrAt]
    positivity
  refine ⟨_, hread', rfl, rfl, rfl, slice_append front buffer hcomment _, rfl,
    fun fuel hfuel ↦ ?_⟩
  have hmoved := hdirectory.append front
  refine ⟨_, _, listZipLoop_of_directory hend mktime entries (hlength ▸ hfuel) le_rfl hdirectory,
    listZipLoop_of_directory hend' mktime _ (by rwa [List.length_map, hlength]) le_rfl hmoved, ?_⟩
  rw [List.map_map, List.map_map, List.map_map]
  refine List.map_congr_left fun entry hentry ↦ ?_
  have hcontent := content_moved mktime front (hdirectory.valid entry hentry)
  exact congrArg (fun content ↦ (entry.offset, entry.next, content)) hcontent

/-- Behind the first bytes of a picture `tinyArchive` is read as before. -/
theorem zipRead_prefix_tinyArchive :
    ∃ zip', zipRead ([0xff, 0xd8, 0x50, 0x4b, 5, 6] ++ tinyArchive) = .ok (some zip') ∧
      zip'.numMembers = 1 ∧ zip'.membersBegin = 32 ∧ zip'.membersEnd = 79 := by
  have hread : zipRead tinyArchive = .ok (some tinyZip) := by decide +kernel
  obtain ⟨zip', hmoved, hcount, hbegin, hlast, -⟩ :=
    zipRead_prefix_independent (fun tm ↦ tm.tmYear) [0xff, 0xd8, 0x50, 0x4b, 5, 6] hread
  exact ⟨zip', hmoved, hcount, hbegin, hlast⟩

end Homework.Zip
