import Homework.Zip.Reader

/-!
# The validating and the iterating pass agree

`zip_read` walks the members once, to validate them, and `list_zip` walks them a second time with
`zip_member`, up to exact equality of the iterator with `members_end`. Both walk the same
`Directory`: `listZip_visits_validated` says that the listing makes `num_members` iterations,
through no failing assertion, and that its iterations visit the offsets of the validation rounds.

`tinyArchive` is a file with one stored member, on which the statements about accepted archives are
instantiated.
-/

set_option autoImplicit false
set_option relaxedAutoImplicit false

namespace Homework.Zip

open Library.ByteBuffer

section Window

variable {buffer : List UInt8} {src : ℤ} {srcLen : ℕ}

/-- The offset at the start of each round over a directory that ends at `last`. -/
def roundOffset (last : ℕ) : List Entry → ℕ → ℕ
  | [], _ => last
  | entry :: _, 0 => entry.offset
  | _ :: rest, round + 1 => roundOffset last rest round

/-- The rounds over a directory start where the directory starts. -/
theorem roundOffset_zero {first last : ℕ} {entries : List Entry}
    (hdirectory : Directory buffer src srcLen first last entries) :
    roundOffset last entries 0 = first := by
  cases entries with
  | nil => exact hdirectory.symm
  | cons entry rest => exact hdirectory.1

/-- The rounds over a directory end where the directory ends. -/
theorem roundOffset_length (last : ℕ) (entries : List Entry) :
    roundOffset last entries entries.length = last := by
  induction entries with
  | nil => rfl
  | cons entry rest ih => exact ih

/-- The offsets of the entries are the offsets of the rounds. -/
theorem map_offset_eq (last : ℕ) (entries : List Entry) :
    entries.map Entry.offset = (List.range entries.length).map (roundOffset last entries) := by
  induction entries with
  | nil => rfl
  | cons entry rest ih =>
    rw [List.map_cons, ih, List.length_cons, List.range_succ_eq_map, List.map_cons, List.map_map]
    rfl

/-- After any number of rounds over a directory the validation loop stands at the offset of the
next round. -/
theorem zipReadLoop_roundOffset (hend : src + srcLen = buffer.length) {last : ℕ}
    (entries : List Entry) :
    ∀ {first : ℕ}, Directory buffer src srcLen first last entries →
      ∀ round ≤ entries.length,
        zipReadLoop buffer src srcLen round first =
          .ok (some (roundOffset last entries round)) := by
  induction entries with
  | nil =>
    intro first hdirectory round hround
    obtain rfl : round = 0 := Nat.le_zero.mp hround
    rw [roundOffset_zero hdirectory]
    rfl
  | cons entry rest ih =>
    intro first hdirectory round hround
    obtain ⟨rfl, hvalid, hrest⟩ := hdirectory
    cases round with
    | zero => rfl
    | succ round =>
      have hround := (zipReadRound_eq_some_iff hend).mpr ⟨entry, rfl, hvalid, rfl⟩
      rw [zipReadLoop, hround, ok_bind]
      exact ih hrest round (by rw [List.length_cons] at *; omega)

/-- At the offset of every round over a directory that ends at `members_end`, `zip_member` returns
a member that points to the round after it. -/
theorem zipMember_roundOffset {zip : ZipT} (hend : zip.src + zip.srcLen = buffer.length)
    (mktime : Tm → ℤ) (entries : List Entry) :
    ∀ {first : ℕ}, zip.membersBegin ≤ first →
      Directory buffer zip.src zip.srcLen first zip.membersEnd entries →
      ∀ round < entries.length, ∃ m,
        zipMember mktime buffer zip (roundOffset zip.membersEnd entries round) = .ok m ∧
          m.next = roundOffset zip.membersEnd entries (round + 1) := by
  induction entries with
  | nil => intro first _ _ round hround; exact absurd hround (Nat.not_lt_zero _)
  | cons entry rest ih =>
    intro first hbegin hdirectory round hround
    obtain ⟨rfl, hvalid, hrest⟩ := hdirectory
    have hlast := hrest.add_length_le
    have hstep := entry.offset_lt_next
    cases round with
    | zero =>
      exact ⟨entry.member mktime, zipMember_of_valid hend mktime hvalid hbegin (by omega),
        (roundOffset_zero hrest).symm⟩
    | succ round => exact ih (by omega) hrest round (Nat.lt_of_succ_lt_succ hround)

end Window

/-- The archive of an accepted buffer: its directory, and a window that ends where the buffer
ends. -/
theorem zipRead_directory {buffer : List UInt8} {zip : ZipT}
    (hread : zipRead buffer = .ok (some zip)) :
    zip.src + zip.srcLen = buffer.length ∧
      ∃ entries : List Entry, entries.length = zip.numMembers.toNat ∧
        Directory buffer zip.src zip.srcLen zip.membersBegin zip.membersEnd entries := by
  obtain ⟨commentLen, last, entries, -, -, -, rfl, hlength, hdirectory⟩ :=
    zipRead_eq_some_iff.mp hread
  exact ⟨window_end buffer _, entries, hlength, hdirectory⟩

/-- A file with one stored member, named `a` and holding the byte `x`, and the archive comment
`!`. -/
def tinyArchive : List UInt8 :=
  [0x50, 0x4b, 3, 4, 10, 0, 0, 0, 0, 0, 0, 0, 0x21, 0, 0x83, 0x16, 0xdc, 0x8c, 1, 0, 0, 0, 1, 0, 0,
    0, 1, 0, 0, 0, 0x61, 0x78,
    0x50, 0x4b, 1, 2, 10, 0, 10, 0, 0, 0, 0, 0, 0, 0, 0x21, 0, 0x83, 0x16, 0xdc, 0x8c, 1, 0, 0, 0,
    1, 0, 0, 0, 1, 0, 0, 0, 0, 0, 0, 0, 0, 0, 0, 0, 0, 0, 0, 0, 0, 0, 0x61,
    0x50, 0x4b, 5, 6, 0, 0, 0, 0, 1, 0, 1, 0, 47, 0, 0, 0, 32, 0, 0, 0, 1, 0, 0x21]

/-- The archive that `zip_read` fills in for `tinyArchive`. -/
def tinyZip : ZipT :=
  ⟨1, 101, 1, 32, 79, 0, 102⟩

/-- The validating and the iterating pass agree. When `zip_read` returns 1, with every byte it read
inside the buffer, there are offsets such that the validation loop stands at `offset round` after
`round` rounds, the last of them is `members_end`, and `zip_member` returns at each earlier one a
member whose `next` is the offset of the round after it, so that no assertion fails. The loop of
`list_zip` makes exactly `num_members` iterations, at these offsets, and stops. -/
theorem listZip_visits_validated (mktime : Tm → ℤ) {buffer : List UInt8} {zip : ZipT}
    (hread : zipRead buffer = .ok (some zip)) :
    ∃ offset : ℕ → ℕ,
      offset 0 = zip.membersBegin ∧ offset zip.numMembers.toNat = zip.membersEnd ∧
      (∀ round ≤ zip.numMembers.toNat,
        zipReadLoop buffer zip.src zip.srcLen round zip.membersBegin =
          .ok (some (offset round))) ∧
      (∀ round < zip.numMembers.toNat, ∃ m, zipMember mktime buffer zip (offset round) = .ok m ∧
        m.next = offset (round + 1)) ∧
      ∀ fuel > zip.numMembers.toNat, ∃ members,
        listZipLoop mktime buffer zip fuel zip.membersBegin = .ok (some members) ∧
        members.map Prod.fst = (List.range zip.numMembers.toNat).map offset := by
  obtain ⟨hend, entries, hlength, hdirectory⟩ := zipRead_directory hread
  have hloop := zipReadLoop_roundOffset hend entries hdirectory
  refine ⟨roundOffset zip.membersEnd entries, roundOffset_zero hdirectory, ?_, ?_, ?_, ?_⟩
  · rw [← hlength]
    exact roundOffset_length _ entries
  · exact fun round hround ↦ hloop round (hlength ▸ hround)
  · exact fun round hround ↦ zipMember_roundOffset hend mktime entries le_rfl hdirectory round
      (hlength ▸ hround)
  · intro fuel hfuel
    refine ⟨_, listZipLoop_of_directory hend mktime entries (hlength ▸ hfuel) le_rfl hdirectory, ?_⟩
    rw [List.map_map, ← hlength, ← map_offset_eq]
    rfl

/-- On `tinyArchive` the only round stands at offset 32 and the listing stops at offset 79. -/
theorem listZip_visits_tinyArchive :
    ∃ offset : ℕ → ℕ, offset 0 = 32 ∧ offset 1 = 79 ∧
      ∀ fuel > 1, ∃ members,
        listZipLoop (fun tm ↦ tm.tmYear) tinyArchive tinyZip fuel 32 = .ok (some members) ∧
        members.map Prod.fst = [offset 0] := by
  have hread : zipRead tinyArchive = .ok (some tinyZip) := by decide +kernel
  obtain ⟨offset, hfirst, hlast, -, -, hloop⟩ :=
    listZip_visits_validated (fun tm ↦ tm.tmYear) hread
  exact ⟨offset, hfirst, hlast, hloop⟩

end Homework.Zip
