import Homework.Library.Console
import Homework.Zip.Archive
import Homework.Zip.Members
import Homework.Zip.ReadFile

/-!
# The listing that the program prints

`main` hands its argument to `list_zip`, which reads the file, parses it and prints the archive
comment and the names of the members as it goes. `%.*s` prints the bytes it is given up to a zero
byte. What the program prints and how it ends depends on the content of the file alone, not on how
`fread` cuts it (`main_listing`), and from the file of an archive it prints the names of the members
that were put into it, in their order (`main_archive`).
-/

set_option autoImplicit false
set_option relaxedAutoImplicit false

namespace Homework.Zip

open Homework.Library Homework.Library.ByteBuffer Homework.Library.CString Homework.Library.Cells
open Homework.Library.Console

/-! ### The program -/

/-- What the program asks the C library for: memory, the file it opens, and the time of a member. -/
structure System where
  allocator : Allocator
  opens : Bool
  closes : Bool
  results : ℕ → FreadResult
  mktime : Tm → ℤ

/-- The ways a run ends without returning from `main`. -/
inductive Stop where
  | reading (failure : Failure)
  | cell (fault : CellFault)
  | fault (fault : Fault)
  | rejected
  | nullName
  | endless
deriving DecidableEq, Repr

/-- The bytes that `%.*s` prints: those up to a length, or up to a zero byte if it comes earlier. -/
def precisionString (buffer : List UInt8) (p : ℤ) : ℕ → Except Fault (List UInt8)
  | 0 => return []
  | length + 1 => do
    let current ← readByte buffer p
    if current = 0 then return []
    return current :: (← precisionString buffer (p + 1) length)

section Program

variable (system : System)

/-- The loop of `list_zip` from an iterator on. -/
def printMembers (buffer : List UInt8) (z : ZipT) : ℕ → ℕ → Printer Stop Unit
  | 0, _ => throw .endless
  | fuel + 1, it =>
    if it = z.membersEnd then pure ()
    else do
      let m ← silently .fault (zipMember system.mktime buffer z it)
      let name ← silently .fault (precisionString buffer m.name m.nameLen.toNat)
      print (name ++ ascii "\n")
      printMembers buffer z fuel m.next

/-- The part of `list_zip` behind `read_file`. -/
def listBytes (zipData : List UInt8) (fuel : ℕ) : Printer Stop Unit := do
  match ← silently .fault (zipRead zipData) with
  | none =>
    print (ascii "Failed to parse ZIP file!\n")
    throw .rejected
  | some z =>
    if z.commentLen ≠ 0 then
      let comment ← silently .fault (precisionString zipData z.comment z.commentLen.toNat)
      print (comment ++ ascii "\n\n")
    printMembers system zipData z fuel z.membersBegin
    print (ascii "\n")

/-- `list_zip`, with a bound on the rounds of its loops. -/
def listZip (fuel : ℕ) (filename : List UInt8) : Printer Stop Unit := do
  print (ascii "Listing ZIP archive: " ++ filename ++ ascii "\n\n")
  match ← silently .reading (readFile system.allocator system.opens system.closes system.results
    fuel) with
  | none => throw .endless
  | some (buf, zipSz) =>
    let zipData ← silently .cell (readAll (buf.take zipSz.toNat))
    listBytes system zipData fuel

/-- `main`. It goes on behind the usage message, with a null pointer for the name. -/
def main (fuel : ℕ) (argv : List (List UInt8)) : Printer Stop Unit := do
  if argv.length < 2 then print (ascii "Usage: zipjpeg <path>")
  match argv[1]? with
  | none => throw .nullName
  | some filename => listZip system fuel filename

end Program

/-! ### What is printed -/

/-- The first lines, with the name of the file. -/
def heading (filename : List UInt8) : List UInt8 :=
  ascii "Listing ZIP archive: " ++ filename ++ ascii "\n\n"

/-- The lines for the archive comment, if there is one. -/
def commentText (comment : List UInt8) : List UInt8 :=
  if comment = [] then [] else cString comment ++ ascii "\n\n"

/-- The listing of an archive with a comment and members of some names. -/
def listing (comment : List UInt8) (names : List (List UInt8)) : List UInt8 :=
  commentText comment ++ (names.flatMap (· ++ ascii "\n") ++ ascii "\n")

/-- The name of an entry. -/
def Entry.name (buffer : List UInt8) (entry : Entry) : List UInt8 :=
  slice buffer entry.cfh.name entry.cfh.nameLen.toNat

/-- Inside the buffer `%.*s` prints the C string of the slice. -/
theorem precisionString_of_inside {buffer : List UInt8} (length : ℕ) :
    ∀ {p : ℤ}, InBuffer buffer p length →
      precisionString buffer p length = .ok (cString (slice buffer p length)) := by
  induction length with
  | zero => exact fun _ ↦ rfl
  | succ length ih =>
    rintro p ⟨hlow, hhigh⟩
    have hin : p < buffer.length := by omega
    rw [precisionString, readByte_of_inside hlow hin, ok_bind, slice_succ hlow hin, cString,
      List.takeWhile_cons]
    by_cases hzero : byte buffer p = 0
    · rw [if_pos hzero, if_neg (by simp [hzero])]
      rfl
    · rw [if_neg hzero, if_pos (decide_eq_true hzero), ih ⟨by omega, by omega⟩]
      rfl

section Window

variable {buffer : List UInt8} {zip : ZipT}

/-- The name of a valid entry is printed as it is. -/
theorem Entry.Valid.precisionString_name (hend : zip.src + zip.srcLen = buffer.length)
    {entry : Entry} (hvalid : entry.Valid buffer zip.src zip.srcLen) :
    precisionString buffer entry.cfh.name entry.cfh.nameLen.toNat = .ok (entry.name buffer) := by
  rw [precisionString_of_inside _ (cfh_name_inside hend hvalid.cfh_inside hvalid.central.cfh_eq),
    Entry.name, cString_eq_self hvalid.central.name_clean]

/-- Along a directory the loop of `list_zip` prints the names of the entries. -/
theorem prints_printMembers (system : System) (hend : zip.src + zip.srcLen = buffer.length)
    (entries : List Entry) :
    ∀ {fuel it : ℕ}, entries.length < fuel → zip.membersBegin ≤ it →
      Directory buffer zip.src zip.srcLen it zip.membersEnd entries →
      Prints (printMembers system buffer zip fuel it)
        ((entries.map (Entry.name buffer)).flatMap (· ++ ascii "\n")) (.ok ()) := by
  induction entries with
  | nil =>
    intro fuel it hfuel _ hdirectory
    obtain ⟨fuel, rfl⟩ := Nat.exists_eq_succ_of_ne_zero (Nat.ne_of_gt hfuel)
    rw [printMembers, if_pos (show it = zip.membersEnd from hdirectory)]
    exact prints_pure ()
  | cons entry rest ih =>
    intro fuel it hfuel hbegin hdirectory
    obtain ⟨rfl, hvalid, hrest⟩ := hdirectory
    have hlast := hrest.add_length_le
    have hstep := entry.offset_lt_next
    obtain ⟨fuel, rfl⟩ := Nat.exists_eq_succ_of_ne_zero (Nat.ne_of_gt (Nat.zero_lt_of_lt hfuel))
    rw [printMembers, if_neg (by omega), zipMember_of_valid hend system.mktime hvalid hbegin
      (by omega), List.map_cons, List.flatMap_cons]
    refine (prints_silently_ok _ _).silent_bind ?_
    have hname : precisionString buffer (entry.member system.mktime).name
        (entry.member system.mktime).nameLen.toNat = .ok (entry.name buffer) :=
      hvalid.precisionString_name hend
    rw [hname]
    refine (prints_silently_ok _ _).silent_bind (Prints.print_bind _ ?_)
    have hnext : (entry.member system.mktime).next = entry.next := rfl
    exact ih (Nat.lt_of_succ_lt_succ hfuel) (by omega) hrest

/-- The archive comment that `zip_read` finds lies in the buffer, up to its end. -/
theorem zipRead_comment_inside (hread : zipRead buffer = .ok (some zip)) :
    InBuffer buffer zip.comment zip.commentLen.toNat := by
  obtain ⟨commentLen, last, -, hfirst, -, -, rfl, -, -⟩ := zipRead_eq_some_iff.mp hread
  obtain ⟨⟨hroom, -, hlength⟩, -, -⟩ := hfirst
  have hcomment : (zipOf buffer commentLen last).comment =
      ((buffer.length - eocdrBaseSz - commentLen : ℕ) : ℤ) + 22 := rfl
  have hcommentLen : (zipOf buffer commentLen last).commentLen.toNat = commentLen := hlength
  rw [InBuffer, hcomment, hcommentLen]
  simp only [eocdrBaseSz] at *
  omega

/-- What is printed of a file behind its heading, when `zip_read` accepts it along a directory. -/
theorem prints_listBytes (system : System) {fuel : ℕ} (hfuel : 65535 < fuel)
    (hread : zipRead buffer = .ok (some zip)) {entries : List Entry}
    (hlength : entries.length = zip.numMembers.toNat)
    (hdirectory : Directory buffer zip.src zip.srcLen zip.membersBegin zip.membersEnd entries) :
    Prints (listBytes system buffer fuel)
      (listing (slice buffer zip.comment zip.commentLen.toNat)
        (entries.map (Entry.name buffer))) (.ok ()) := by
  have hend := (zipRead_directory hread).1
  have hcount := zip.numMembers.toNat_lt
  have hmembers : Prints (printMembers system buffer zip fuel zip.membersBegin >>= fun _ ↦
      print (ascii "\n")) ((entries.map (Entry.name buffer)).flatMap (· ++ ascii "\n") ++
        ascii "\n") (.ok ()) :=
    (prints_printMembers system hend entries (by omega) le_rfl hdirectory).bind (prints_print _)
  have hinside := zipRead_comment_inside hread
  have hsize := length_slice hinside.1 hinside.2
  rw [listBytes, hread]
  refine (prints_silently_ok _ _).silent_bind ?_
  dsimp only
  rw [listing, commentText]
  by_cases hnone : zip.commentLen = 0
  · have hempty : slice buffer zip.comment zip.commentLen.toNat = [] :=
      List.length_eq_zero_iff.mp (hsize.trans (congrArg UInt16.toNat hnone))
    rw [if_neg (not_not.mpr hnone), if_pos hempty]
    exact hmembers
  · have hsome : slice buffer zip.comment zip.commentLen.toNat ≠ [] := by
      intro hempty
      rw [hempty, List.length_nil] at hsize
      exact hnone (UInt16.toNat_inj.mp hsize.symm)
    rw [if_pos hnone, if_neg hsome, precisionString_of_inside _ hinside]
    exact (prints_silently_ok _ _).silent_bind (Prints.print_bind _ hmembers)

end Window

/-! ### The whole program -/

/-- The calls of the C library read a file of some content. -/
structure System.Reads (system : System) (content : List UInt8) : Prop where
  opens : system.opens = true
  closes : system.closes = true
  grants : ∀ size ≤ max 4096 (2 * content.length), system.allocator.grants size = true
  results : Consistent system.allocator content system.results

section Main

variable {system : System} {content : List UInt8}

/-- `main` parses the content of the file behind the heading. -/
theorem prints_main (hreads : system.Reads content) {fuel : ℕ} (hfuel : content.length < fuel)
    (program filename : List UInt8) {text : List UInt8} {result : Except Stop Unit}
    (hbytes : Prints (listBytes system content fuel) text result) :
    Prints (main system fuel [program, filename]) (heading filename ++ text) result := by
  obtain ⟨reading, hloop, hholds, heof⟩ := eof_readLoop hreads.grants hreads.results hfuel
  have hsize := hholds.atEnd heof
  have hfile : readFile system.allocator system.opens system.closes system.results fuel =
      .ok (some (reading.buf, reading.fileSz)) := by
    rw [hreads.opens, hreads.closes, readFile, hloop]
    simp only [heof, ok_bind, pure_eq_ok]
    rfl
  have hall : readAll (reading.buf.take reading.fileSz.toNat) = .ok content := by
    rw [hholds.buf, hsize, List.take_length, take_begun, readAll_map_some]
  change Prints (listZip system fuel filename) _ _
  rw [listZip, hfile]
  refine Prints.print_bind _ ((prints_silently_ok _ _).silent_bind ?_)
  dsimp only
  rw [hall]
  exact (prints_silently_ok _ _).silent_bind hbytes

/-- What the program prints and how it ends depends on the content of the file alone. A file that
`zip_read` rejects gets a message and the exit status 1. From any other file the comment and the
names of the members are printed, all of them bytes of the file, in the order of the central
directory, and `main` returns; behind `zip_read` no byte outside the file is looked at and no
assertion fails. A run that leaves the file does so in `zip_read`, and prints the heading only. -/
theorem main_listing (hreads : system.Reads content) (program filename : List UInt8) {fuel : ℕ}
    (hfuel : content.length + 65535 < fuel) :
    match zipRead content with
    | .error fault =>
      Prints (main system fuel [program, filename]) (heading filename) (.error (.fault fault))
    | .ok none =>
      Prints (main system fuel [program, filename])
        (heading filename ++ ascii "Failed to parse ZIP file!\n") (.error .rejected)
    | .ok (some z) =>
      ∃ entries, entries.length = z.numMembers.toNat ∧
        Directory content z.src z.srcLen z.membersBegin z.membersEnd entries ∧
        Prints (main system fuel [program, filename])
          (heading filename ++ listing (slice content z.comment z.commentLen.toNat)
            (entries.map (Entry.name content))) (.ok ()) := by
  have hlength : content.length < fuel := by omega
  rcases hread : zipRead content with fault | _ | z
  · have hbytes : Prints (listBytes system content fuel) [] (.error (.fault fault)) := by
      rw [listBytes, hread]
      exact (prints_silently_error Stop.fault fault).bind_stop _
    have hmain := prints_main hreads hlength program filename hbytes
    rwa [List.append_nil] at hmain
  · refine prints_main hreads hlength program filename ?_
    rw [listBytes, hread]
    refine (prints_silently_ok _ _).silent_bind ?_
    exact prints_print_throw _ _
  · obtain ⟨-, entries, hcount, hdirectory⟩ := zipRead_directory hread
    have hbytes := prints_listBytes system (show 65535 < fuel by omega) hread hcount hdirectory
    exact ⟨entries, hcount, hdirectory, prints_main hreads hlength program filename hbytes⟩

/-! ### Small files -/

/-- The system with a file that a single call of `fread` reads. -/
def wholeSystem (content : List UInt8) : System where
  allocator := generous
  opens := true
  closes := true
  results := wholeResults content
  mktime := fun tm ↦ tm.tmYear

theorem reads_whole {content : List UInt8} (hsmall : content.length < 4096) :
    (wholeSystem content).Reads content :=
  ⟨rfl, rfl, grants_whole hsmall, consistent_whole hsmall⟩

/-- A file of three bytes is rejected. -/
theorem main_rejected : Prints (main (wholeSystem [80, 75, 5]) 70000 [ascii "zipjpeg", ascii "a"])
    (ascii "Listing ZIP archive: a\n\nFailed to parse ZIP file!\n") (.error .rejected) := by
  have hread : zipRead [80, 75, 5] = .ok none := by decide +kernel
  have hlisting := main_listing (reads_whole (show ([80, 75, 5] : List UInt8).length < 4096 by
    decide)) (ascii "zipjpeg") (ascii "a") (show 3 + 65535 < 70000 by decide)
  rw [hread] at hlisting
  exact hlisting

/-! ### Archives -/

/-- From the file of an archive, behind any other data, the program prints the archive comment, up
to a zero byte, and the names of the members, in their order. Assumes: no later end of central
directory record. -/
theorem main_archive (archive : Archive) (hlast : archive.NoLaterRecord)
    (hreads : system.Reads archive.bytes) (program filename : List UInt8) {fuel : ℕ}
    (hfuel : archive.bytes.length + 65535 < fuel) :
    Prints (main system fuel [program, filename])
      (heading filename ++ listing archive.comment (archive.members.map Member.name))
      (.ok ()) := by
  obtain ⟨z, entries, hread, hcount, -, hdirectory, hcomment, hcontents⟩ :=
    archive.directory system.mktime hlast
  have hnames : entries.map (Entry.name archive.bytes) = archive.members.map Member.name := by
    have hmapped := congrArg (List.map MemberContent.name) hcontents
    rwa [List.map_map, List.map_map] at hmapped
  have hbytes := prints_listBytes system (show 65535 < fuel by omega) hread hcount hdirectory
  rw [hcomment, hnames] at hbytes
  exact prints_main hreads (show archive.bytes.length < fuel by omega) program filename hbytes

/-- The members of `folderArchive` are listed, behind the comment of the archive. -/
theorem main_folderArchive :
    Prints (main (wholeSystem folderArchive.bytes) 70000 [ascii "zipjpeg", ascii "a.jpg"])
      (ascii "Listing ZIP archive: a.jpg\n\n?\n\nd/\nd/a\n\n") (.ok ()) := by
  have hlength := length_folderArchive
  exact main_archive folderArchive folderArchive_noLaterRecord
    (reads_whole (hlength.trans_lt (by decide))) (ascii "zipjpeg") (ascii "a.jpg")
    (by rw [hlength]; decide)

end Main

end Homework.Zip
