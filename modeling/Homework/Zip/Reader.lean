import Homework.Zip.Headers

/-!
# The ZIP reader

`zip_read`, `zip_member` and the loop of `list_zip`. `zip_read` finds the end of central directory
record, computes from it the window `zip->src`, `zip->src_len`, and validates one member after the
other; `zip_member` reads a member again at an iterator, under assertions, and `list_zip` moves the
iterator from `members_begin` to `members_end`.

A validated member is an `Entry`: its offset and the two headers read for it. `Directory` is the
chain of entries that a successful validation walks, and it is what the three functions share:
`zipReadRound_eq_some_iff` and `zipReadLoop_eq_some_iff` say that validation succeeds exactly along
a directory, `zipRead_eq_some_iff` does so for `zip_read` as a whole, and `listZipLoop_of_directory`
that the listing loop visits the entries of a directory in their order, through no failing
assertion.
-/

set_option autoImplicit false
set_option relaxedAutoImplicit false

namespace Homework.Zip

open Library.ByteBuffer

/-! ### The program -/

/-- `ZIP_STORED`. -/
def zipStored : UInt16 := 0

/-- `ZIP_DEFLATED`. -/
def zipDeflated : UInt16 := 8

/-- `EXT_ATTR_DIR`. -/
def extAttrDir : UInt32 := (1 : UInt32) <<< 4

/-- `zip_t`. The pointers are indices into the buffer handed to `zip_read`. -/
structure ZipT where
  numMembers : UInt16
  comment : ℤ
  commentLen : UInt16
  membersBegin : ℕ
  membersEnd : ℕ
  src : ℤ
  srcLen : ℕ
  deriving DecidableEq, Repr

/-- `zipmemb_t`. -/
structure ZipMemb where
  name : ℤ
  nameLen : UInt16
  mtime : ℤ
  compSize : UInt32
  compData : ℤ
  method : UInt16
  uncompSize : UInt32
  crc32 : UInt32
  comment : ℤ
  commentLen : UInt16
  isDir : Bool
  next : ℕ
  deriving DecidableEq, Repr

/-- `memchr`: the bytes from `p` on are inspected in order, up to the first one equal to `value`. -/
def memchr (buffer : List UInt8) (p : ℤ) (value : UInt8) : ℕ → Except Fault (Option ℤ)
  | 0 => return none
  | length + 1 => do
    let current ← readByte buffer p
    if current = value then return some p else memchr buffer (p + 1) value length

/-- One round of the validation loop of `zip_read`: the offset of the next round, or nothing when
the archive is rejected. -/
def zipReadRound (buffer : List UInt8) (src : ℤ) (srcLen offset : ℕ) :
    Except Fault (Option ℕ) := do
  let some cfh ← readCfh buffer src srcLen offset | return none
  if cfh.gpFlag &&& 1 ≠ 0 then return none
  if cfh.method ≠ zipStored ∧ cfh.method ≠ zipDeflated then return none
  if cfh.method = zipStored ∧ cfh.uncompSize ≠ cfh.compSize then return none
  if cfh.diskNbrStart ≠ 0 then return none
  if (← memchr buffer cfh.name 0 cfh.nameLen.toNat).isSome then return none
  let some lfh ← readLfh buffer src srcLen cfh.lfhOffset.toNat | return none
  let compData := lfh.extra + lfh.extraLen.toNat
  if cfh.compSize.toNat > srcLen - (compData - src).toNat then return none
  return some (offset + cfhBaseSz + cfh.tailLen)

/-- The validation loop of `zip_read` with `remaining` entries to go. -/
def zipReadLoop (buffer : List UInt8) (src : ℤ) (srcLen : ℕ) : ℕ → ℕ → Except Fault (Option ℕ)
  | 0, offset => return some offset
  | remaining + 1, offset => do
    let some next ← zipReadRound buffer src srcLen offset | return none
    zipReadLoop buffer src srcLen remaining next

/-- `zip->src_len`: the two 32-bit fields are added modulo `2 ^ 32`, the rest is `size_t`
arithmetic, which does not wrap because the record lies in the buffer. -/
def windowLen (eocdr : Eocdr) (srcLen eocdrOffset : ℕ) : ℕ :=
  (eocdr.cdOffset + eocdr.cdSize).toNat + srcLen - eocdrOffset

/-- The archive is not split over several disks. -/
def Eocdr.SingleVolume (eocdr : Eocdr) : Prop :=
  ¬ (eocdr.diskNbr ≠ 0 ∨ eocdr.cdStartDisk ≠ 0 ∨ eocdr.diskCdEntries ≠ eocdr.cdEntries)

instance (eocdr : Eocdr) : Decidable eocdr.SingleVolume :=
  inferInstanceAs (Decidable (¬ _))

/-- `zip_read`. -/
def zipRead (src : List UInt8) : Except Fault (Option ZipT) := do
  let (eocdr, eocdrOffset) ← findEocdr src default
  if eocdrOffset = 0 then return none
  let srcLen := windowLen eocdr src.length eocdrOffset
  let zipSrc := (src.length : ℤ) - srcLen
  if ¬ eocdr.SingleVolume then return none
  let some offset ← zipReadLoop src zipSrc srcLen eocdr.cdEntries.toNat eocdr.cdOffset.toNat
    | return none
  return some {
    numMembers := eocdr.cdEntries
    comment := eocdr.comment
    commentLen := eocdr.commentLen
    membersBegin := eocdr.cdOffset.toNat
    membersEnd := offset
    src := zipSrc
    srcLen := srcLen }

/-- `zip_member`. The buffer is the one `zip->src` points into. -/
def zipMember (mktime : Tm → ℤ) (buffer : List UInt8) (zip : ZipT) (it : ℕ) :
    Except Fault ZipMemb := do
  assert (it ≥ zip.membersBegin ∧ it < zip.membersEnd)
  let some cfh ← readCfh buffer zip.src zip.srcLen it | .error .assertion
  let some lfh ← readLfh buffer zip.src zip.srcLen cfh.lfhOffset.toNat | .error .assertion
  let next := it + cfhBaseSz + cfh.tailLen
  assert (next ≤ zip.membersEnd)
  return {
    name := cfh.name
    nameLen := cfh.nameLen
    mtime := dos2ctime mktime cfh.modDate cfh.modTime
    compSize := cfh.compSize
    compData := lfh.extra + lfh.extraLen.toNat
    method := cfh.method
    uncompSize := cfh.uncompSize
    crc32 := cfh.crc32
    comment := cfh.comment
    commentLen := cfh.commentLen
    isDir := (cfh.extAttrs &&& extAttrDir) != 0
    next := next }

/-- The loop of `list_zip` from an iterator on: the iterators it visits with the members found
there, or nothing when it has not stopped after fewer than `fuel` iterations. -/
def listZipLoop (mktime : Tm → ℤ) (buffer : List UInt8) (zip : ZipT) :
    ℕ → ℕ → Except Fault (Option (List (ℕ × ZipMemb)))
  | 0, _ => return none
  | fuel + 1, it => do
    if it = zip.membersEnd then return some []
    let m ← zipMember mktime buffer zip it
    let some rest ← listZipLoop mktime buffer zip fuel m.next | return none
    return some ((it, m) :: rest)

/-! ### Directories -/

/-- The checks of the validation loop on the fields of a central header. -/
def Cfh.Accepted (cfh : Cfh) : Prop :=
  cfh.gpFlag &&& 1 = 0 ∧ (cfh.method = zipStored ∨ cfh.method = zipDeflated) ∧
    (cfh.method = zipStored → cfh.uncompSize = cfh.compSize) ∧ cfh.diskNbrStart = 0

/-- A member of an archive as the reader sees it: the offset of its central header in the window,
and its two headers. -/
structure Entry where
  offset : ℕ
  cfh : Cfh
  lfh : Lfh

/-- The offset of the central header after this one. -/
def Entry.next (entry : Entry) : ℕ :=
  entry.offset + cfhBaseSz + entry.cfh.tailLen

/-- The index of the member's data. -/
def Entry.compData (entry : Entry) : ℤ :=
  entry.lfh.extra + entry.lfh.extraLen.toNat

/-- A round gets past the central header at an offset: the header can be read, its fields are
accepted and its name has no zero byte. -/
structure CentralOk (buffer : List UInt8) (src : ℤ) (srcLen offset : ℕ) (cfh : Cfh) : Prop where
  cfh_eq : cfhIn buffer src srcLen offset = some cfh
  accepted : cfh.Accepted
  name_clean : 0 ∉ slice buffer cfh.name cfh.nameLen.toNat

/-- The entry lies in the buffer and passes every check of the validation loop. -/
structure Entry.Valid (entry : Entry) (buffer : List UInt8) (src : ℤ) (srcLen : ℕ) : Prop where
  cfh_inside : 0 ≤ src + entry.offset
  central : CentralOk buffer src srcLen entry.offset entry.cfh
  lfh_inside : 0 ≤ src + entry.cfh.lfhOffset.toNat
  lfh_eq : lfhIn buffer src srcLen entry.cfh.lfhOffset.toNat = some entry.lfh
  data_fits : entry.cfh.compSize.toNat ≤ srcLen - (entry.compData - src).toNat

/-- The entries lie one after the other from the offset `first` up to the offset `last`, and all
of them are valid. -/
def Directory (buffer : List UInt8) (src : ℤ) (srcLen : ℕ) : ℕ → ℕ → List Entry → Prop
  | first, last, [] => first = last
  | first, last, entry :: rest =>
    entry.offset = first ∧ entry.Valid buffer src srcLen ∧
      Directory buffer src srcLen entry.next last rest

theorem Entry.offset_lt_next (entry : Entry) : entry.offset < entry.next := by
  simp only [Entry.next, cfhBaseSz]
  omega

/-- A directory ends at or after its start, by at least one byte for each entry. -/
theorem Directory.add_length_le {buffer : List UInt8} {src : ℤ} {srcLen : ℕ}
    {entries : List Entry} : ∀ {first last : ℕ},
      Directory buffer src srcLen first last entries → first + entries.length ≤ last := by
  induction entries with
  | nil => intro first last h; exact le_of_eq h
  | cons entry rest ih =>
    intro first last h
    obtain ⟨hoffset, -, hrest⟩ := h
    have hstep := entry.offset_lt_next
    have htail := ih hrest
    rw [List.length_cons]
    omega

/-- Where the fixed and variable parts of a central header that was read lie. -/
theorem cfhIn_eq_some {buffer : List UInt8} {src : ℤ} {srcLen offset : ℕ} {cfh : Cfh}
    (h : cfhIn buffer src srcLen offset = some cfh) :
    cfh = cfhAt buffer (src + offset) ∧ offset + cfhBaseSz + cfh.tailLen ≤ srcLen := by
  unfold cfhIn at h
  split_ifs at h with hcheck
  obtain ⟨⟨hoffset, hroom⟩, -, htail⟩ := hcheck
  have heq := Option.some.inj h
  rw [heq] at htail
  exact ⟨heq.symm, by omega⟩

/-- Where the fixed and variable parts of a local header that was read lie. -/
theorem lfhIn_eq_some {buffer : List UInt8} {src : ℤ} {srcLen offset : ℕ} {lfh : Lfh}
    (h : lfhIn buffer src srcLen offset = some lfh) :
    lfh = lfhAt buffer (src + offset) ∧ offset + lfhBaseSz + lfh.tailLen ≤ srcLen := by
  unfold lfhIn at h
  split_ifs at h with hcheck
  obtain ⟨⟨hoffset, hroom⟩, -, htail⟩ := hcheck
  have heq := Option.some.inj h
  rw [heq] at htail
  exact ⟨heq.symm, by omega⟩

/-- The name of a central header that lies in the buffer lies in the buffer. -/
theorem cfh_name_inside {buffer : List UInt8} {src : ℤ} {srcLen offset : ℕ} {cfh : Cfh}
    (hend : src + srcLen = buffer.length) (hlow : 0 ≤ src + offset)
    (h : cfhIn buffer src srcLen offset = some cfh) :
    0 ≤ cfh.name ∧ cfh.name + cfh.nameLen.toNat ≤ buffer.length := by
  obtain ⟨heq, hroom⟩ := cfhIn_eq_some h
  have hname : cfh.name = src + offset + 46 := by rw [heq]; rfl
  simp only [cfhBaseSz, Cfh.tailLen] at hroom
  omega

/-! ### The validation loop -/

/-- `memchr` over bytes that lie in the buffer finds nothing exactly when the value is not among
them. -/
theorem memchr_of_inside {buffer : List UInt8} (value : UInt8) (length : ℕ) :
    ∀ {p : ℤ}, 0 ≤ p → p + length ≤ buffer.length →
      ∃ found, memchr buffer p value length = .ok found ∧
        (found.isSome ↔ value ∈ slice buffer p length) := by
  induction length with
  | zero => intro p _ _; exact ⟨none, rfl, by simp [slice]⟩
  | succ length ih =>
    intro p hlow hhigh
    have hbyte : readByte buffer p = .ok (byte buffer p) :=
      readByte_of_inside hlow (by omega)
    rw [memchr, hbyte, ok_bind, mem_slice_succ_iff hlow hhigh]
    by_cases hvalue : byte buffer p = value
    · exact ⟨some p, by rw [if_pos hvalue, pure_eq_ok], by simp [hvalue]⟩
    · obtain ⟨found, hfound, hiff⟩ := ih (p := p + 1) (by omega) (by omega)
      exact ⟨found, by rw [if_neg hvalue, hfound], by simp [hvalue, hiff]⟩

section Window

variable {buffer : List UInt8} {src : ℤ} {srcLen : ℕ}

/-- The second half of a round, after the checks on the central header. -/
def zipReadRoundLocal (buffer : List UInt8) (src : ℤ) (srcLen offset : ℕ) (cfh : Cfh) :
    Except Fault (Option ℕ) := do
  let some lfh ← readLfh buffer src srcLen cfh.lfhOffset.toNat | return none
  let compData := lfh.extra + lfh.extraLen.toNat
  if cfh.compSize.toNat > srcLen - (compData - src).toNat then return none
  return some (offset + cfhBaseSz + cfh.tailLen)

/-- Assumes: the central header lies in the buffer. A round that gets past it goes on with the
local header. -/
theorem zipReadRound_of_centralOk (hend : src + srcLen = buffer.length) {offset : ℕ} {cfh : Cfh}
    (hlow : 0 ≤ src + (offset : ℤ)) (hcentral : CentralOk buffer src srcLen offset cfh) :
    zipReadRound buffer src srcLen offset = zipReadRoundLocal buffer src srcLen offset cfh := by
  obtain ⟨hflag, hmethod, hsizes, hdisk⟩ := hcentral.accepted
  obtain ⟨hname, hnameEnd⟩ := cfh_name_inside hend hlow hcentral.cfh_eq
  obtain ⟨found, hfound, hiff⟩ := memchr_of_inside 0 _ hname hnameEnd
  have hclean : ¬ found.isSome := fun h ↦ hcentral.name_clean (hiff.mp h)
  rw [zipReadRound, readCfh_of_inside hlow hend, hcentral.cfh_eq, ok_bind]
  simp only []
  rw [if_neg (not_not.mpr hflag), if_neg (by tauto), if_neg (by tauto), if_neg (not_not.mpr hdisk),
    hfound, ok_bind, if_neg hclean]
  rfl

/-- Assumes: the central header lies in the buffer. A round that does not get past it rejects the
archive. -/
theorem zipReadRound_of_not_centralOk (hend : src + srcLen = buffer.length) {offset : ℕ}
    (hlow : 0 ≤ src + (offset : ℤ)) (hcentral : ∀ cfh, ¬ CentralOk buffer src srcLen offset cfh) :
    zipReadRound buffer src srcLen offset = .ok none := by
  rw [zipReadRound, readCfh_of_inside hlow hend, ok_bind]
  cases hread : cfhIn buffer src srcLen offset with
  | none => rfl
  | some cfh =>
    obtain ⟨hname, hnameEnd⟩ := cfh_name_inside hend hlow hread
    obtain ⟨found, hfound, hiff⟩ := memchr_of_inside 0 _ hname hnameEnd
    simp only []
    split_ifs with hflag hmethod hsizes hdisk
    · rfl
    · rfl
    · rfl
    · rfl
    · have haccepted : cfh.Accepted := ⟨by tauto, by tauto, by tauto, by tauto⟩
      have hdirty : found.isSome := by
        by_contra hclean
        exact hcentral cfh ⟨hread, haccepted, fun h ↦ hclean (hiff.mpr h)⟩
      rw [hfound, ok_bind, if_pos hdirty, pure_eq_ok]

/-- A round succeeds exactly on a valid entry, and the next round starts where the entry ends. -/
theorem zipReadRound_eq_some_iff (hend : src + srcLen = buffer.length) {offset next : ℕ} :
    zipReadRound buffer src srcLen offset = .ok (some next) ↔
      ∃ entry : Entry, entry.offset = offset ∧ entry.Valid buffer src srcLen ∧
        entry.next = next := by
  constructor
  · intro hround
    obtain ⟨found, hread, hrest⟩ := bind_eq_ok hround
    cases found with
    | none => cases hrest
    | some cfh =>
      obtain ⟨hlow, -⟩ := readCfh_eq_some hend hread
      by_cases hcentral : ∃ cfh, CentralOk buffer src srcLen offset cfh
      · obtain ⟨cfh, hcentral⟩ := hcentral
        rw [zipReadRound_of_centralOk hend hlow hcentral] at hround
        obtain ⟨found, hlocal, hrest⟩ := bind_eq_ok hround
        cases found with
        | none => cases hrest
        | some lfh =>
          obtain ⟨hlfhLow, hlfh⟩ := readLfh_eq_some hend hlocal
          simp only [pure_eq_ok] at hrest
          split_ifs at hrest with hfits
          · cases hrest
          · exact ⟨⟨offset, cfh, lfh⟩, rfl, ⟨hlow, hcentral, hlfhLow, hlfh, not_lt.mp hfits⟩,
              Option.some.inj (Except.ok.inj hrest)⟩
      · rw [zipReadRound_of_not_centralOk hend hlow (not_exists.mp hcentral)] at hround
        cases hround
  · rintro ⟨entry, rfl, hvalid, rfl⟩
    rw [zipReadRound_of_centralOk hend hvalid.cfh_inside hvalid.central, zipReadRoundLocal,
      readLfh_of_inside hvalid.lfh_inside hend, hvalid.lfh_eq, ok_bind]
    exact if_neg (not_lt.mpr hvalid.data_fits)

/-- The validation loop succeeds exactly along a directory with as many entries as it has
rounds. -/
theorem zipReadLoop_eq_some_iff (hend : src + srcLen = buffer.length) (remaining : ℕ) :
    ∀ {first last : ℕ}, zipReadLoop buffer src srcLen remaining first = .ok (some last) ↔
      ∃ entries : List Entry, entries.length = remaining ∧
        Directory buffer src srcLen first last entries := by
  induction remaining with
  | zero =>
    intro first last
    constructor
    · intro hloop
      exact ⟨[], rfl, Option.some.inj (Except.ok.inj hloop)⟩
    · rintro ⟨entries, hlength, hdirectory⟩
      rw [List.length_eq_zero_iff.mp hlength] at hdirectory
      rw [zipReadLoop, pure_eq_ok, show first = last from hdirectory]
  | succ remaining ih =>
    intro first last
    constructor
    · intro hloop
      obtain ⟨found, hround, hrest⟩ := bind_eq_ok hloop
      cases found with
      | none => cases hrest
      | some next =>
        obtain ⟨entry, hoffset, hvalid, rfl⟩ := (zipReadRound_eq_some_iff hend).mp hround
        obtain ⟨entries, hlength, hdirectory⟩ := ih.mp hrest
        exact ⟨entry :: entries, by rw [List.length_cons, hlength], hoffset, hvalid, hdirectory⟩
    · rintro ⟨entries, hlength, hdirectory⟩
      obtain ⟨entry, rest, rfl⟩ := List.exists_cons_of_length_eq_add_one hlength
      obtain ⟨hoffset, hvalid, hrest⟩ := hdirectory
      have hround := (zipReadRound_eq_some_iff hend).mpr ⟨entry, hoffset, hvalid, rfl⟩
      rw [zipReadLoop, hround, ok_bind]
      exact ih.mpr ⟨rest, Nat.succ.inj hlength, hrest⟩

/-! ### The window and the archive -/

/-- The window ends where the buffer ends, whatever the fields it is computed from. -/
theorem window_end (buffer : List UInt8) (srcLen : ℕ) :
    ((buffer.length : ℤ) - srcLen) + srcLen = buffer.length :=
  sub_add_cancel _ _

/-- The record that `find_eocdr` reports for a first match at `commentLen`. -/
def eocdrOf (buffer : List UInt8) (commentLen : ℕ) : Eocdr :=
  eocdrAt buffer ((buffer.length - eocdrBaseSz - commentLen : ℕ) : ℤ)

/-- The offset that `find_eocdr` returns for a first match at `commentLen`. -/
def eocdrOffsetOf (buffer : List UInt8) (commentLen : ℕ) : ℕ :=
  buffer.length - eocdrBaseSz - commentLen

/-- The length of the window for a first match at `commentLen`. -/
def windowLenOf (buffer : List UInt8) (commentLen : ℕ) : ℕ :=
  windowLen (eocdrOf buffer commentLen) buffer.length (eocdrOffsetOf buffer commentLen)

/-- The archive that `zip_read` fills in for a first match at `commentLen` and a directory that
ends at `last`. -/
def zipOf (buffer : List UInt8) (commentLen last : ℕ) : ZipT where
  numMembers := (eocdrOf buffer commentLen).cdEntries
  comment := (eocdrOf buffer commentLen).comment
  commentLen := (eocdrOf buffer commentLen).commentLen
  membersBegin := (eocdrOf buffer commentLen).cdOffset.toNat
  membersEnd := last
  src := (buffer.length : ℤ) - windowLenOf buffer commentLen
  srcLen := windowLenOf buffer commentLen

/-- After a first match, `zip_read` runs the validation loop on the window. -/
theorem zipRead_of_first {commentLen : ℕ} (hfirst : EocdrFirst buffer commentLen)
    (hoffset : eocdrOffsetOf buffer commentLen ≠ 0)
    (hsingle : (eocdrOf buffer commentLen).SingleVolume) :
    zipRead buffer =
      (zipReadLoop buffer ((buffer.length : ℤ) - windowLenOf buffer commentLen)
        (windowLenOf buffer commentLen) (eocdrOf buffer commentLen).cdEntries.toNat
        (eocdrOf buffer commentLen).cdOffset.toNat >>= fun found ↦
          .ok (found.map (zipOf buffer commentLen))) := by
  rw [zipRead, findEocdr_of_first hfirst, ok_bind]
  change (if eocdrOffsetOf buffer commentLen = 0 then _
    else if ¬ (eocdrOf buffer commentLen).SingleVolume then _ else _) = _
  rw [if_neg hoffset, if_neg (not_not.mpr hsingle)]
  congr 1
  funext found
  cases found <;> rfl

/-- `zip_read` rejects the archive, before it looks at a member, when no record matches, when the
record lies at offset 0 and when the archive has several volumes. -/
theorem zipRead_of_no_members
    (hnone : ¬ ∃ commentLen, EocdrFirst buffer commentLen ∧
      eocdrOffsetOf buffer commentLen ≠ 0 ∧ (eocdrOf buffer commentLen).SingleVolume) :
    zipRead buffer = .ok none := by
  by_cases hexists : ∃ commentLen, EocdrFirst buffer commentLen
  · obtain ⟨commentLen, hfirst⟩ := hexists
    rw [zipRead, findEocdr_of_first hfirst, ok_bind]
    by_cases hoffset : eocdrOffsetOf buffer commentLen = 0
    · exact if_pos hoffset
    · have hvolumes : ¬ (eocdrOf buffer commentLen).SingleVolume := fun hsingle ↦
        hnone ⟨commentLen, hfirst, hoffset, hsingle⟩
      change (if eocdrOffsetOf buffer commentLen = 0 then _
        else if ¬ (eocdrOf buffer commentLen).SingleVolume then _ else _) = _
      rw [if_neg hoffset, if_pos hvolumes]
      rfl
  · obtain ⟨r, hfind⟩ := findEocdr_of_none (not_exists.mp hexists) default
    rw [zipRead, hfind]
    rfl

/-- `zip_read` returns 1 exactly when a record is found at a nonzero offset, the archive has one
volume, and a directory with as many entries as the record says lies behind it in the window. -/
theorem zipRead_eq_some_iff {zip : ZipT} :
    zipRead buffer = .ok (some zip) ↔
      ∃ commentLen last, ∃ entries : List Entry, EocdrFirst buffer commentLen ∧
        eocdrOffsetOf buffer commentLen ≠ 0 ∧ (eocdrOf buffer commentLen).SingleVolume ∧
        zip = zipOf buffer commentLen last ∧ entries.length = zip.numMembers.toNat ∧
        Directory buffer zip.src zip.srcLen zip.membersBegin zip.membersEnd entries := by
  constructor
  · intro hread
    have hsome : ∃ commentLen, EocdrFirst buffer commentLen ∧
        eocdrOffsetOf buffer commentLen ≠ 0 ∧ (eocdrOf buffer commentLen).SingleVolume := by
      by_contra hnone
      rw [zipRead_of_no_members hnone] at hread
      cases hread
    obtain ⟨commentLen, hfirst, hoffset, hsingle⟩ := hsome
    rw [zipRead_of_first hfirst hoffset hsingle] at hread
    obtain ⟨found, hloop, hrest⟩ := bind_eq_ok hread
    cases found with
    | none => cases hrest
    | some last =>
      obtain ⟨entries, hlength, hdirectory⟩ :=
        (zipReadLoop_eq_some_iff (window_end buffer _) _).mp hloop
      obtain rfl : zipOf buffer commentLen last = zip := Option.some.inj (Except.ok.inj hrest)
      exact ⟨commentLen, last, entries, hfirst, hoffset, hsingle, rfl, hlength, hdirectory⟩
  · rintro ⟨commentLen, last, entries, hfirst, hoffset, hsingle, rfl, hlength, hdirectory⟩
    have hloop := (zipReadLoop_eq_some_iff (window_end buffer _) _).mpr
      ⟨entries, hlength, hdirectory⟩
    rw [zipRead_of_first hfirst hoffset hsingle]
    exact congrArg (· >>= _) hloop

/-! ### The listing loop -/

/-- The member that `zip_member` builds from an entry. -/
def Entry.member (mktime : Tm → ℤ) (entry : Entry) : ZipMemb where
  name := entry.cfh.name
  nameLen := entry.cfh.nameLen
  mtime := dos2ctime mktime entry.cfh.modDate entry.cfh.modTime
  compSize := entry.cfh.compSize
  compData := entry.compData
  method := entry.cfh.method
  uncompSize := entry.cfh.uncompSize
  crc32 := entry.cfh.crc32
  comment := entry.cfh.comment
  commentLen := entry.cfh.commentLen
  isDir := (entry.cfh.extAttrs &&& extAttrDir) != 0
  next := entry.next

/-- At an entry that lies between the two iterators of the archive, `zip_member` returns the
member of the entry and no assertion fails. -/
theorem zipMember_of_valid {zip : ZipT} (hend : zip.src + zip.srcLen = buffer.length)
    (mktime : Tm → ℤ) {entry : Entry} (hvalid : entry.Valid buffer zip.src zip.srcLen)
    (hbegin : zip.membersBegin ≤ entry.offset) (hnext : entry.next ≤ zip.membersEnd) :
    zipMember mktime buffer zip entry.offset = .ok (entry.member mktime) := by
  have hrange : entry.offset ≥ zip.membersBegin ∧ entry.offset < zip.membersEnd :=
    ⟨hbegin, lt_of_lt_of_le entry.offset_lt_next hnext⟩
  rw [zipMember, assert_of_true hrange, ok_bind, readCfh_of_inside hvalid.cfh_inside hend,
    hvalid.central.cfh_eq, ok_bind]
  simp only []
  rw [readLfh_of_inside hvalid.lfh_inside hend, hvalid.lfh_eq, ok_bind]
  simp only []
  rw [assert_of_true
    (show entry.offset + cfhBaseSz + entry.cfh.tailLen ≤ zip.membersEnd from hnext)]
  rfl

/-- Along a directory that ends at `members_end` the listing loop visits exactly the entries of the
directory and then stops. -/
theorem listZipLoop_of_directory {zip : ZipT} (hend : zip.src + zip.srcLen = buffer.length)
    (mktime : Tm → ℤ) (entries : List Entry) :
    ∀ {fuel it : ℕ}, entries.length < fuel → zip.membersBegin ≤ it →
      Directory buffer zip.src zip.srcLen it zip.membersEnd entries →
      listZipLoop mktime buffer zip fuel it =
        .ok (some (entries.map fun entry ↦ (entry.offset, entry.member mktime))) := by
  induction entries with
  | nil =>
    intro fuel it hfuel _ hdirectory
    obtain ⟨fuel, rfl⟩ := Nat.exists_eq_succ_of_ne_zero (Nat.ne_of_gt hfuel)
    rw [listZipLoop, if_pos (show it = zip.membersEnd from hdirectory)]
    rfl
  | cons entry rest ih =>
    intro fuel it hfuel hbegin hdirectory
    obtain ⟨rfl, hvalid, hrest⟩ := hdirectory
    have hlast := hrest.add_length_le
    have hstep := entry.offset_lt_next
    obtain ⟨fuel, rfl⟩ := Nat.exists_eq_succ_of_ne_zero (Nat.ne_of_gt (Nat.zero_lt_of_lt hfuel))
    have hmember := zipMember_of_valid hend mktime hvalid hbegin (by omega)
    have hloop := ih (Nat.lt_of_succ_lt_succ hfuel) (by omega) hrest
    rw [listZipLoop, if_neg (by omega), hmember, ok_bind]
    change (listZipLoop mktime buffer zip fuel entry.next >>= _) = _
    rw [hloop]
    rfl

end Window

end Homework.Zip
