import Homework.Zip.WindowSafety

/-!
# Reading back a written archive

An `Archive` is what a ZIP writer lays out behind any other data: the local records of its members,
the central directory, the end of central directory record and the archive comment, with offsets
counted from the start of the first local record. The structures `Member` and `Archive` carry the
bounds of the format as fields.

`cfhAt_centralFixed`, `lfhAt_localFixed` and `eocdrAt_eocdrFixed` decode the three records,
`directory_of_members` lays the members of an archive out as a directory of the window, by induction
over the members, and `zipRead_archive` reads the whole archive back: `zip_read` accepts it and the
listing finds its members, in their order, with their contents.
-/

set_option autoImplicit false
set_option relaxedAutoImplicit false

namespace Homework.Zip

open Library.ByteBuffer

/-! ### Archives -/

/-- The fields that a local header stores besides its lengths. The reader does not use them. -/
structure LocalFields where
  extractVer : UInt16
  gpFlag : UInt16
  method : UInt16
  modTime : UInt16
  modDate : UInt16
  crc32 : UInt32
  compSize : UInt32
  uncompSize : UInt32

/-- A member of an archive that the reader supports: not encrypted, on the first disk, stored or
deflated, with a name without zero bytes. -/
structure Member where
  madeByVer : UInt16
  extractVer : UInt16
  gpFlag : UInt16
  method : UInt16
  modTime : UInt16
  modDate : UInt16
  crc32 : UInt32
  uncompSize : UInt32
  intAttrs : UInt16
  extAttrs : UInt32
  name : List UInt8
  extra : List UInt8
  comment : List UInt8
  localFields : LocalFields
  localExtra : List UInt8
  data : List UInt8
  name_le : name.length ≤ uint16Max
  extra_le : extra.length ≤ uint16Max
  comment_le : comment.length ≤ uint16Max
  localExtra_le : localExtra.length ≤ uint16Max
  data_lt : data.length < 2 ^ 32
  not_encrypted : gpFlag &&& 1 = 0
  method_supported : method = zipStored ∨ method = zipDeflated
  stored_size : method = zipStored → uncompSize.toNat = data.length
  name_clean : 0 ∉ name

/-- The fixed part of a local header. -/
def Member.localFixed (m : Member) : List UInt8 :=
  le32 lfhSignature ++ (le16 m.localFields.extractVer ++ (le16 m.localFields.gpFlag ++
    (le16 m.localFields.method ++ (le16 m.localFields.modTime ++ (le16 m.localFields.modDate ++
    (le32 m.localFields.crc32 ++ (le32 m.localFields.compSize ++ (le32 m.localFields.uncompSize ++
    (le16 (UInt16.ofNat m.name.length) ++ le16 (UInt16.ofNat m.localExtra.length))))))))))

/-- The local header of a member, with its name and extra field, and its data. -/
def Member.localRecord (m : Member) : List UInt8 :=
  m.localFixed ++ (m.name ++ (m.localExtra ++ m.data))

/-- The fixed part of a central header. -/
def Member.centralFixed (m : Member) (lfhOffset : ℕ) : List UInt8 :=
  le32 cfhSignature ++ (le16 m.madeByVer ++ (le16 m.extractVer ++ (le16 m.gpFlag ++
    (le16 m.method ++ (le16 m.modTime ++ (le16 m.modDate ++ (le32 m.crc32 ++
    (le32 (UInt32.ofNat m.data.length) ++ (le32 m.uncompSize ++
    (le16 (UInt16.ofNat m.name.length) ++ (le16 (UInt16.ofNat m.extra.length) ++
    (le16 (UInt16.ofNat m.comment.length) ++ (le16 0 ++ (le16 m.intAttrs ++ (le32 m.extAttrs ++
    le32 (UInt32.ofNat lfhOffset))))))))))))))))

/-- The central header of a member, with its name, extra field and comment. -/
def Member.centralRecord (m : Member) (lfhOffset : ℕ) : List UInt8 :=
  m.centralFixed lfhOffset ++ (m.name ++ (m.extra ++ m.comment))

/-- The local records of the members. -/
def localRecords : List Member → List UInt8
  | [] => []
  | m :: rest => m.localRecord ++ localRecords rest

/-- The central directory of the members, whose local records start at an offset. -/
def centralRecords : ℕ → List Member → List UInt8
  | _, [] => []
  | lfhOffset, m :: rest =>
    m.centralRecord lfhOffset ++ centralRecords (lfhOffset + m.localRecord.length) rest

/-- The fixed part of the end of central directory record. -/
def eocdrFixed (entries cdSize cdOffset commentLen : ℕ) : List UInt8 :=
  le32 eocdrSignature ++ (le16 0 ++ (le16 0 ++ (le16 (UInt16.ofNat entries) ++
    (le16 (UInt16.ofNat entries) ++ (le32 (UInt32.ofNat cdSize) ++ (le32 (UInt32.ofNat cdOffset) ++
    le16 (UInt16.ofNat commentLen)))))))

/-- A ZIP archive behind other data. -/
structure Archive where
  front : List UInt8
  members : List Member
  comment : List UInt8
  members_pos : 1 ≤ members.length
  members_le : members.length ≤ uint16Max
  comment_le : comment.length ≤ uint16Max
  size_lt : (localRecords members).length + (centralRecords 0 members).length < 2 ^ 32

/-- The file that holds an archive. -/
def Archive.bytes (archive : Archive) : List UInt8 :=
  archive.front ++ (localRecords archive.members ++ (centralRecords 0 archive.members ++
    (eocdrFixed archive.members.length (centralRecords 0 archive.members).length
      (localRecords archive.members).length archive.comment.length ++ archive.comment)))

/-! ### Decoding the records -/

/-- The central header that the reader decodes for a member, at an index of the buffer. -/
def Member.cfh (m : Member) (lfhOffset : ℕ) (p : ℤ) : Cfh :=
  ⟨m.madeByVer, m.extractVer, m.gpFlag, m.method, m.modTime, m.modDate, m.crc32,
    UInt32.ofNat m.data.length, m.uncompSize, UInt16.ofNat m.name.length,
    UInt16.ofNat m.extra.length, UInt16.ofNat m.comment.length, 0, m.intAttrs, m.extAttrs,
    UInt32.ofNat lfhOffset, p + 46, p + (46 + m.name.length),
    p + (46 + (m.name.length + m.extra.length))⟩

/-- The local header that the reader decodes for a member, at an index of the buffer. -/
def Member.lfh (m : Member) (p : ℤ) : Lfh :=
  ⟨m.localFields.extractVer, m.localFields.gpFlag, m.localFields.method, m.localFields.modTime,
    m.localFields.modDate, m.localFields.crc32, m.localFields.compSize, m.localFields.uncompSize,
    UInt16.ofNat m.name.length, UInt16.ofNat m.localExtra.length, p + 30,
    p + (30 + m.name.length)⟩

/-- A length within the bounds of the format is stored exactly. -/
theorem toNat_ofNat_of_le {length : ℕ} (h : length ≤ uint16Max) :
    (UInt16.ofNat length).toNat = length :=
  UInt16.toNat_ofNat_of_lt' (Nat.lt_succ_of_le h)

/-- A data length below `2 ^ 32` and an offset below `2 ^ 32` are stored exactly. -/
theorem toNat_ofNat_of_lt {value : ℕ} (h : value < 2 ^ 32) : (UInt32.ofNat value).toNat = value :=
  UInt32.toNat_ofNat_of_lt' h

/-- The central header that a writer puts behind a front part is decoded there. -/
theorem cfhAt_centralFixed (front : List UInt8) (m : Member) (lfhOffset : ℕ) (back : List UInt8) :
    cfhAt (front ++ (m.centralFixed lfhOffset ++ back)) front.length =
      m.cfh lfhOffset front.length := by
  have hname : word16 (m.centralFixed lfhOffset ++ back) (0 + 28) = UInt16.ofNat m.name.length :=
    le16_roundtrip _
  have hextra : word16 (m.centralFixed lfhOffset ++ back) (0 + 30) = UInt16.ofNat m.extra.length :=
    le16_roundtrip _
  have hstart : cfhAt (m.centralFixed lfhOffset ++ back) 0 = m.cfh lfhOffset 0 := by
    rw [cfhAt, Member.cfh, Cfh.mk.injEq, hname, hextra, toNat_ofNat_of_le m.name_le,
      toNat_ofNat_of_le m.extra_le]
    exact ⟨le16_roundtrip _, le16_roundtrip _, le16_roundtrip _, le16_roundtrip _,
      le16_roundtrip _, le16_roundtrip _, le32_roundtrip _, le32_roundtrip _, le32_roundtrip _,
      rfl, rfl, le16_roundtrip _, le16_roundtrip _, le16_roundtrip _, le32_roundtrip _,
      le32_roundtrip _, rfl, rfl, rfl⟩
  have hmoved := cfhAt_append front (m.centralFixed lfhOffset ++ back) le_rfl
  rw [add_zero, hstart] at hmoved
  simpa only [Cfh.moved, Member.cfh, zero_add] using hmoved

/-- The local header that a writer puts behind a front part is decoded there. -/
theorem lfhAt_localFixed (front : List UInt8) (m : Member) (back : List UInt8) :
    lfhAt (front ++ (m.localFixed ++ back)) front.length = m.lfh front.length := by
  have hname : word16 (m.localFixed ++ back) (0 + 26) = UInt16.ofNat m.name.length :=
    le16_roundtrip _
  have hstart : lfhAt (m.localFixed ++ back) 0 = m.lfh 0 := by
    rw [lfhAt, Member.lfh, Lfh.mk.injEq, hname, toNat_ofNat_of_le m.name_le]
    exact ⟨le16_roundtrip _, le16_roundtrip _, le16_roundtrip _, le16_roundtrip _,
      le16_roundtrip _, le32_roundtrip _, le32_roundtrip _, le32_roundtrip _, rfl,
      le16_roundtrip _, rfl, rfl⟩
  have hmoved := lfhAt_append front (m.localFixed ++ back) le_rfl
  rw [add_zero, hstart] at hmoved
  simpa only [Lfh.moved, Member.lfh, zero_add] using hmoved

/-- The end of central directory record that a writer puts behind a front part is decoded
there. -/
theorem eocdrAt_eocdrFixed (front : List UInt8) (entries cdSize cdOffset commentLen : ℕ)
    (back : List UInt8) :
    eocdrAt (front ++ (eocdrFixed entries cdSize cdOffset commentLen ++ back)) front.length =
      ⟨0, 0, UInt16.ofNat entries, UInt16.ofNat entries, UInt32.ofNat cdSize,
        UInt32.ofNat cdOffset, UInt16.ofNat commentLen, front.length + 22⟩ := by
  have hstart : eocdrAt (eocdrFixed entries cdSize cdOffset commentLen ++ back) 0 =
      ⟨0, 0, UInt16.ofNat entries, UInt16.ofNat entries, UInt32.ofNat cdSize,
        UInt32.ofNat cdOffset, UInt16.ofNat commentLen, 22⟩ := by
    rw [eocdrAt, Eocdr.mk.injEq]
    exact ⟨le16_roundtrip _, le16_roundtrip _, le16_roundtrip _, le16_roundtrip _,
      le32_roundtrip _, le32_roundtrip _, le16_roundtrip _, rfl⟩
  have hmoved := eocdrAt_append front (eocdrFixed entries cdSize cdOffset commentLen ++ back) le_rfl
  rw [add_zero, hstart] at hmoved
  exact hmoved

@[simp] theorem length_centralFixed (m : Member) (lfhOffset : ℕ) :
    (m.centralFixed lfhOffset).length = 46 :=
  rfl

@[simp] theorem length_localFixed (m : Member) : m.localFixed.length = 30 :=
  rfl

@[simp] theorem length_eocdrFixed (entries cdSize cdOffset commentLen : ℕ) :
    (eocdrFixed entries cdSize cdOffset commentLen).length = 22 :=
  rfl

/-- The variable part of the central header of a member. -/
theorem tailLen_cfh (m : Member) (lfhOffset : ℕ) (p : ℤ) :
    (m.cfh lfhOffset p).tailLen = m.name.length + m.extra.length + m.comment.length := by
  simp only [Cfh.tailLen, Member.cfh, toNat_ofNat_of_le m.name_le, toNat_ofNat_of_le m.extra_le,
    toNat_ofNat_of_le m.comment_le]

/-- The variable part of the local header of a member. -/
theorem tailLen_lfh (m : Member) (p : ℤ) :
    (m.lfh p).tailLen = m.name.length + m.localExtra.length := by
  simp only [Lfh.tailLen, Member.lfh, toNat_ofNat_of_le m.name_le,
    toNat_ofNat_of_le m.localExtra_le]

theorem length_centralRecord (m : Member) (lfhOffset : ℕ) :
    (m.centralRecord lfhOffset).length =
      46 + m.name.length + m.extra.length + m.comment.length := by
  simp only [Member.centralRecord, List.length_append, length_centralFixed]
  omega

theorem length_localRecord (m : Member) :
    m.localRecord.length = 30 + m.name.length + m.localExtra.length + m.data.length := by
  simp only [Member.localRecord, List.length_append, length_localFixed]
  omega

/-! ### The directory of an archive -/

/-- The header checks of the validation loop accept the central header of a member. -/
theorem accepted_cfh (m : Member) (lfhOffset : ℕ) (p : ℤ) : (m.cfh lfhOffset p).Accepted := by
  refine ⟨m.not_encrypted, m.method_supported, fun hstored ↦ ?_, rfl⟩
  apply UInt32.toNat_inj.mp
  exact (m.stored_size hstored).trans (toNat_ofNat_of_lt m.data_lt).symm

/-- The entry of a member whose central header lies at the offset `offset` and whose local header
lies at the offset `lfhOffset` of a window that starts at index `start` of the buffer. -/
def Member.entry (m : Member) (start lfhOffset offset : ℕ) : Entry where
  offset := offset
  cfh := m.cfh lfhOffset ((start + offset : ℕ) : ℤ)
  lfh := m.lfh ((start + lfhOffset : ℕ) : ℤ)

/-- The contents of a member as the reader hands them out. -/
def Member.content (m : Member) (mktime : Tm → ℤ) : MemberContent where
  name := m.name
  mtime := dos2ctime mktime m.modDate m.modTime
  method := m.method
  crc32 := m.crc32
  compSize := UInt32.ofNat m.data.length
  uncompSize := m.uncompSize
  comment := m.comment
  compData := m.data
  isDir := (m.extAttrs &&& extAttrDir) != 0

section Records

variable {buffer front middle back between : List UInt8} {start srcLen lfhOffset offset : ℕ}
  {m : Member}

/-- The central header of a member is read through the window where a writer put it. -/
theorem cfhIn_centralRecord (hwindow : start + srcLen = buffer.length)
    (hcentral : buffer = middle ++ (m.centralRecord lfhOffset ++ back))
    (hmiddle : middle.length = start + offset) :
    cfhIn buffer start srcLen offset = some (m.cfh lfhOffset ((start + offset : ℕ) : ℤ)) := by
  have hdecoded : cfhAt buffer ((start : ℤ) + offset) =
      m.cfh lfhOffset ((start + offset : ℕ) : ℤ) := by
    have hat := cfhAt_centralFixed middle m lfhOffset (m.name ++ (m.extra ++ m.comment) ++ back)
    rw [← List.append_assoc (m.centralFixed lfhOffset), ← Member.centralRecord, ← hcentral,
      hmiddle] at hat
    exact_mod_cast hat
  have hsignature : word32 buffer ((start : ℤ) + offset) = cfhSignature := by
    have hmoved := word32_append middle (m.centralRecord lfhOffset ++ back) le_rfl
    rw [add_zero, ← hcentral, hmiddle] at hmoved
    exact_mod_cast hmoved.trans (le32_roundtrip cfhSignature)
  have hlength := congrArg List.length hcentral
  rw [List.length_append, List.length_append, length_centralRecord, hmiddle] at hlength
  rw [cfhIn, hdecoded, tailLen_cfh, if_pos]
  refine ⟨⟨by omega, ?_⟩, hsignature, ?_⟩
  · show 46 ≤ srcLen - offset
    omega
  · show _ ≤ srcLen - offset - 46
    omega

/-- The local header of a member is read through the window where a writer put it. -/
theorem lfhIn_localRecord (hwindow : start + srcLen = buffer.length)
    (hlocal : buffer = front ++ (m.localRecord ++ between))
    (hfront : front.length = start + lfhOffset) :
    lfhIn buffer start srcLen lfhOffset = some (m.lfh ((start + lfhOffset : ℕ) : ℤ)) := by
  have hdecoded : lfhAt buffer ((start : ℤ) + lfhOffset) =
      m.lfh ((start + lfhOffset : ℕ) : ℤ) := by
    have hat := lfhAt_localFixed front m (m.name ++ (m.localExtra ++ m.data) ++ between)
    rw [← List.append_assoc m.localFixed, ← Member.localRecord, ← hlocal, hfront] at hat
    exact_mod_cast hat
  have hsignature : word32 buffer ((start : ℤ) + lfhOffset) = lfhSignature := by
    have hmoved := word32_append front (m.localRecord ++ between) le_rfl
    rw [add_zero, ← hlocal, hfront] at hmoved
    exact_mod_cast hmoved.trans (le32_roundtrip lfhSignature)
  have hlength := congrArg List.length hlocal
  rw [List.length_append, List.length_append, length_localRecord, hfront] at hlength
  rw [lfhIn, hdecoded, tailLen_lfh, if_pos]
  refine ⟨⟨by omega, ?_⟩, hsignature, ?_⟩
  · show 30 ≤ srcLen - lfhOffset
    omega
  · show _ ≤ srcLen - lfhOffset - 30
    omega

/-- The name and the comment of a member lie behind its central header. -/
theorem slices_centralRecord (hcentral : buffer = middle ++ (m.centralRecord lfhOffset ++ back))
    (hmiddle : middle.length = start + offset) :
    slice buffer (m.entry start lfhOffset offset).cfh.name
        (m.entry start lfhOffset offset).cfh.nameLen.toNat = m.name ∧
      slice buffer (m.entry start lfhOffset offset).cfh.comment
        (m.entry start lfhOffset offset).cfh.commentLen.toNat = m.comment := by
  simp only [Member.entry, Member.cfh, toNat_ofNat_of_le m.name_le,
    toNat_ofNat_of_le m.comment_le]
  constructor
  · have hname := slice_middle (middle ++ m.centralFixed lfhOffset) m.name
      (m.extra ++ m.comment ++ back)
    rw [List.length_append, hmiddle, length_centralFixed] at hname
    rw [hcentral, Member.centralRecord]
    simpa only [List.append_assoc, Nat.cast_add, Nat.cast_ofNat] using hname
  · have hcomment := slice_middle (middle ++ (m.centralFixed lfhOffset ++ (m.name ++ m.extra)))
      m.comment back
    simp only [List.length_append, hmiddle, length_centralFixed] at hcomment
    rw [hcentral, Member.centralRecord]
    simpa only [List.append_assoc, Nat.cast_add, Nat.cast_ofNat] using hcomment

/-- The data of a member lie behind its local header. -/
theorem slice_localRecord (hlocal : buffer = front ++ (m.localRecord ++ between))
    (hfront : front.length = start + lfhOffset) :
    slice buffer (m.entry start lfhOffset offset).compData
      (m.entry start lfhOffset offset).cfh.compSize.toNat = m.data := by
  have hdata := slice_middle (front ++ (m.localFixed ++ (m.name ++ m.localExtra))) m.data between
  simp only [List.length_append, hfront, length_localFixed] at hdata
  rw [hlocal, Member.localRecord, Entry.compData]
  simp only [Member.entry, Member.cfh, Member.lfh, toNat_ofNat_of_lt m.data_lt,
    toNat_ofNat_of_le m.localExtra_le]
  simpa only [List.append_assoc, add_assoc, Nat.cast_add, Nat.cast_ofNat] using hdata

/-- Where a buffer has the two records of a member, the entry of the member is valid. -/
theorem entry_valid (hwindow : start + srcLen = buffer.length)
    (hcentral : buffer = middle ++ (m.centralRecord lfhOffset ++ back))
    (hmiddle : middle.length = start + offset)
    (hlocal : buffer = front ++ (m.localRecord ++ between))
    (hfront : front.length = start + lfhOffset) (hbound : lfhOffset < 2 ^ 32) :
    (m.entry start lfhOffset offset).Valid buffer start srcLen := by
  have hlfhOffset : (m.entry start lfhOffset offset).cfh.lfhOffset.toNat = lfhOffset :=
    toNat_ofNat_of_lt hbound
  have hname := (slices_centralRecord hcentral hmiddle).1
  have hlength := congrArg List.length hlocal
  rw [List.length_append, List.length_append, length_localRecord, hfront] at hlength
  refine ⟨by positivity, ⟨cfhIn_centralRecord hwindow hcentral hmiddle, accepted_cfh _ _ _, ?_⟩,
    by positivity, ?_, ?_⟩
  · rw [hname]
    exact m.name_clean
  · rw [hlfhOffset]
    exact lfhIn_localRecord hwindow hlocal hfront
  · simp only [Member.entry, Member.cfh, Member.lfh, Entry.compData, toNat_ofNat_of_lt m.data_lt,
      toNat_ofNat_of_le m.localExtra_le]
    omega

/-- Where a buffer has the two records of a member, the reader hands out the contents of the
member. -/
theorem content_entry (mktime : Tm → ℤ)
    (hcentral : buffer = middle ++ (m.centralRecord lfhOffset ++ back))
    (hmiddle : middle.length = start + offset)
    (hlocal : buffer = front ++ (m.localRecord ++ between))
    (hfront : front.length = start + lfhOffset) :
    ((m.entry start lfhOffset offset).member mktime).content buffer = m.content mktime := by
  obtain ⟨hname, hcomment⟩ := slices_centralRecord hcentral hmiddle
  have hdata : slice buffer (m.entry start lfhOffset offset).compData
      (m.entry start lfhOffset offset).cfh.compSize.toNat = m.data :=
    slice_localRecord hlocal hfront
  simp only [ZipMemb.content, Entry.member, hname, hcomment, hdata]
  rfl

/-- The entries of members whose local records start at the offset `lfhOffset` and whose central
headers start at the offset `offset` of a window that starts at index `start`. -/
def memberEntries (start : ℕ) : ℕ → ℕ → List Member → List Entry
  | _, _, [] => []
  | lfhOffset, offset, m :: rest =>
    m.entry start lfhOffset offset ::
      memberEntries start (lfhOffset + m.localRecord.length)
        (offset + (m.centralRecord lfhOffset).length) rest

/-- Where a buffer has the local records and the central directory of some members, their entries
are a directory, and the reader hands out the contents of the members. -/
theorem directory_of_members (mktime : Tm → ℤ) (hwindow : start + srcLen = buffer.length)
    (members : List Member) :
    ∀ (front middle between back : List UInt8) (lfhOffset offset : ℕ),
      buffer = middle ++ (centralRecords lfhOffset members ++ back) →
      middle.length = start + offset →
      buffer = front ++ (localRecords members ++ between) →
      front.length = start + lfhOffset →
      lfhOffset + (localRecords members).length < 2 ^ 32 →
      Directory buffer start srcLen offset
          (offset + (centralRecords lfhOffset members).length)
          (memberEntries start lfhOffset offset members) ∧
        (memberEntries start lfhOffset offset members).map
          (fun entry ↦ (entry.member mktime).content buffer) =
            members.map fun m ↦ m.content mktime := by
  induction members with
  | nil => exact fun _ _ _ _ _ _ _ _ _ _ _ ↦ ⟨rfl, rfl⟩
  | cons m rest ih =>
    intro front middle between back lfhOffset offset hcentral hmiddle hlocal hfront hbound
    rw [localRecords, List.length_append] at hbound
    rw [centralRecords, List.append_assoc] at hcentral
    rw [localRecords, List.append_assoc] at hlocal
    have hvalid := entry_valid hwindow hcentral hmiddle hlocal hfront (by omega)
    have hcontent := content_entry mktime hcentral hmiddle hlocal hfront
    have hnext : (m.entry start lfhOffset offset).next =
        offset + (m.centralRecord lfhOffset).length := by
      rw [Entry.next, length_centralRecord]
      simp only [Member.entry, tailLen_cfh, cfhBaseSz]
      omega
    obtain ⟨hdirectory, hcontents⟩ := ih (front ++ m.localRecord)
      (middle ++ m.centralRecord lfhOffset) between back (lfhOffset + m.localRecord.length)
      (offset + (m.centralRecord lfhOffset).length)
      (by rw [List.append_assoc]; exact hcentral)
      (by rw [List.length_append]; omega)
      (by rw [List.append_assoc]; exact hlocal)
      (by rw [List.length_append]; omega) (by omega)
    refine ⟨⟨rfl, hvalid, ?_⟩, ?_⟩
    · rw [hnext, centralRecords, List.length_append, ← Nat.add_assoc]
      exact hdirectory
    · rw [memberEntries, List.map_cons, hcontent, hcontents, List.map_cons]

end Records

/-! ### The whole archive -/

/-- The offset of the end of central directory record in the file. -/
def Archive.eocdrOffset (archive : Archive) : ℕ :=
  archive.front.length + (localRecords archive.members).length +
    (centralRecords 0 archive.members).length

/-- No later offset of the file carries the signature of an end of central directory record whose
comment length field equals the number of bytes after that record. -/
def Archive.NoLaterRecord (archive : Archive) : Prop :=
  ∀ offset > archive.eocdrOffset, offset + eocdrBaseSz ≤ archive.bytes.length →
    word32 archive.bytes offset = eocdrSignature →
    offset + eocdrBaseSz + (word16 archive.bytes (offset + 20)).toNat ≠ archive.bytes.length

theorem Archive.length_bytes (archive : Archive) :
    archive.bytes.length = archive.eocdrOffset + 22 + archive.comment.length := by
  simp only [Archive.bytes, Archive.eocdrOffset, List.length_append, length_eocdrFixed]
  omega

/-- The end of central directory record that the reader decodes. -/
def Archive.eocdr (archive : Archive) : Eocdr :=
  ⟨0, 0, UInt16.ofNat archive.members.length, UInt16.ofNat archive.members.length,
    UInt32.ofNat (centralRecords 0 archive.members).length,
    UInt32.ofNat (localRecords archive.members).length,
    UInt16.ofNat archive.comment.length, (archive.eocdrOffset : ℤ) + 22⟩

/-- The file with the part before the end of central directory record taken together. -/
theorem Archive.bytes_eq (archive : Archive) :
    ∃ before : List UInt8, before.length = archive.eocdrOffset ∧
      archive.bytes = before ++
        (eocdrFixed archive.members.length (centralRecords 0 archive.members).length
          (localRecords archive.members).length archive.comment.length ++ archive.comment) := by
  refine ⟨archive.front ++ (localRecords archive.members ++ centralRecords 0 archive.members),
    ?_, ?_⟩
  · simp only [Archive.eocdrOffset, List.length_append]
    omega
  · simp only [Archive.bytes, List.append_assoc]

theorem Archive.eocdrAt_bytes (archive : Archive) :
    eocdrAt archive.bytes archive.eocdrOffset = archive.eocdr := by
  obtain ⟨before, hlength, hbytes⟩ := archive.bytes_eq
  rw [hbytes, ← hlength, eocdrAt_eocdrFixed, Archive.eocdr, hlength]

/-- The record that the reader decodes when it finds the record of the archive. -/
theorem Archive.eocdrOf_bytes (archive : Archive) :
    eocdrOffsetOf archive.bytes archive.comment.length = archive.eocdrOffset ∧
      eocdrOf archive.bytes archive.comment.length = archive.eocdr := by
  have hlength := archive.length_bytes
  have hoffset : eocdrOffsetOf archive.bytes archive.comment.length = archive.eocdrOffset := by
    simp only [eocdrOffsetOf, eocdrBaseSz]
    omega
  refine ⟨hoffset, ?_⟩
  rw [eocdrOf, ← eocdrOffsetOf, hoffset]
  exact archive.eocdrAt_bytes

/-- The record of the archive is the one that the backward scan finds. -/
theorem Archive.eocdrFirst (archive : Archive) (hlast : archive.NoLaterRecord) :
    EocdrFirst archive.bytes archive.comment.length := by
  have hlength := archive.length_bytes
  have hposition : archive.bytes.length - eocdrBaseSz - archive.comment.length =
      archive.eocdrOffset := archive.eocdrOf_bytes.1
  have hsignature : word32 archive.bytes archive.eocdrOffset = eocdrSignature := by
    obtain ⟨before, hbefore, hbytes⟩ := archive.bytes_eq
    have hmoved := word32_append before
      (eocdrFixed archive.members.length (centralRecords 0 archive.members).length
        (localRecords archive.members).length archive.comment.length ++ archive.comment) le_rfl
    rw [add_zero, ← hbytes, hbefore] at hmoved
    exact hmoved.trans (le32_roundtrip eocdrSignature)
  have hstored : word16 archive.bytes ((archive.eocdrOffset : ℤ) + 20) =
      UInt16.ofNat archive.comment.length :=
    congrArg Eocdr.commentLen archive.eocdrAt_bytes
  refine ⟨⟨by simp only [eocdrBaseSz]; omega, ?_, ?_⟩, archive.comment_le, ?_⟩
  · rw [hposition, hsignature]
  · rw [hposition, hstored, toNat_ofNat_of_le archive.comment_le]
  · rintro shorter hshorter ⟨hroom, hsig, hlen⟩
    simp only [eocdrBaseSz] at *
    refine hlast (archive.bytes.length - 22 - shorter) (by omega) ?_ hsig ?_
    · simp only [eocdrBaseSz]
      omega
    · rw [hlen]
      simp only [eocdrBaseSz]
      omega

/-- The central directory of an archive has at least 46 bytes for each member. -/
theorem length_le_centralRecords (members : List Member) :
    ∀ lfhOffset : ℕ, members.length ≤ (centralRecords lfhOffset members).length := by
  induction members with
  | nil => exact fun _ ↦ le_rfl
  | cons m rest ih =>
    intro lfhOffset
    have htail := ih (lfhOffset + m.localRecord.length)
    rw [centralRecords, List.length_append, length_centralRecord, List.length_cons]
    omega

/-- What `zip_read` computes from the record of an archive: the window starts where the archive
does, and holds the rest of the file. -/
theorem Archive.zipOf_bytes (archive : Archive) (last : ℕ) :
    (zipOf archive.bytes archive.comment.length last).src = archive.front.length ∧
      archive.front.length + (zipOf archive.bytes archive.comment.length last).srcLen =
        archive.bytes.length ∧
      (zipOf archive.bytes archive.comment.length last).membersBegin =
        (localRecords archive.members).length ∧
      (zipOf archive.bytes archive.comment.length last).numMembers.toNat =
        archive.members.length := by
  have hlength := archive.length_bytes
  have hsize := archive.size_lt
  obtain ⟨hoffset, hrecord⟩ := archive.eocdrOf_bytes
  have hcdOffset : (UInt32.ofNat (localRecords archive.members).length).toNat =
      (localRecords archive.members).length := toNat_ofNat_of_lt (by omega)
  have hcdSize : (UInt32.ofNat (centralRecords 0 archive.members).length).toNat =
      (centralRecords 0 archive.members).length := toNat_ofNat_of_lt (by omega)
  have hwindow : windowLenOf archive.bytes archive.comment.length + archive.front.length =
      archive.bytes.length := by
    rw [windowLenOf, hoffset, hrecord, windowLen, Archive.eocdr, UInt32.toNat_add, hcdOffset,
      hcdSize, Nat.mod_eq_of_lt hsize]
    simp only [Archive.eocdrOffset] at *
    omega
  refine ⟨?_, ?_, ?_, ?_⟩
  · simp only [zipOf]
    omega
  · simp only [zipOf]
    omega
  · simp only [zipOf, hrecord, Archive.eocdr, hcdOffset]
  · simp only [zipOf, hrecord, Archive.eocdr, toNat_ofNat_of_le archive.members_le]

/-- The comment that the reader hands out is the comment of the archive. -/
theorem Archive.slice_comment (archive : Archive) (last : ℕ) :
    slice archive.bytes (zipOf archive.bytes archive.comment.length last).comment
      (zipOf archive.bytes archive.comment.length last).commentLen.toNat = archive.comment := by
  obtain ⟨before, hbefore, hbytes⟩ := archive.bytes_eq
  have hcomment := slice_middle (before ++ eocdrFixed archive.members.length
    (centralRecords 0 archive.members).length (localRecords archive.members).length
    archive.comment.length) archive.comment []
  rw [List.append_nil, List.append_assoc, ← hbytes, List.length_append, hbefore,
    length_eocdrFixed] at hcomment
  simpa only [zipOf, archive.eocdrOf_bytes.2, Archive.eocdr,
    toNat_ofNat_of_le archive.comment_le, Nat.cast_add, Nat.cast_ofNat] using hcomment

/-- `zip_read` accepts the file of an archive, along the entries of its members. -/
theorem Archive.directory (mktime : Tm → ℤ) (archive : Archive) (hlast : archive.NoLaterRecord) :
    ∃ z entries, zipRead archive.bytes = .ok (some z) ∧ entries.length = z.numMembers.toNat ∧
      z.numMembers.toNat = archive.members.length ∧
      Directory archive.bytes z.src z.srcLen z.membersBegin z.membersEnd entries ∧
      slice archive.bytes z.comment z.commentLen.toNat = archive.comment ∧
      entries.map (fun entry ↦ (entry.member mktime).content archive.bytes) =
        archive.members.map fun m ↦ m.content mktime := by
  obtain ⟨last, hlastEq⟩ : ∃ last, last = (localRecords archive.members).length +
      (centralRecords 0 archive.members).length := ⟨_, rfl⟩
  obtain ⟨z, hz⟩ : ∃ z, z = zipOf archive.bytes archive.comment.length last := ⟨_, rfl⟩
  obtain ⟨hsrc, hwindow, hbegin, hcount⟩ := archive.zipOf_bytes last
  obtain ⟨hoffset, hrecord⟩ := archive.eocdrOf_bytes
  have hcomment := archive.slice_comment last
  have hsize := archive.size_lt
  have hmembers := archive.members_pos
  have hpositive := length_le_centralRecords archive.members 0
  rw [← hz] at hsrc hwindow hbegin hcount hcomment
  obtain ⟨hdirectory, hcontents⟩ := directory_of_members mktime hwindow archive.members
    archive.front (archive.front ++ localRecords archive.members) _ _ 0
    (localRecords archive.members).length
    (by rw [List.append_assoc]; exact rfl) List.length_append rfl (by omega) (by omega)
  generalize memberEntries archive.front.length 0 (localRecords archive.members).length
    archive.members = entries at hdirectory hcontents
  rw [← hlastEq, ← hsrc, ← hbegin, show last = z.membersEnd by rw [hz]; rfl] at hdirectory
  have hentries := congrArg List.length hcontents
  rw [List.length_map, List.length_map, ← hcount] at hentries
  refine ⟨z, entries, ?_, hentries, hcount, hdirectory, hcomment, hcontents⟩
  refine zipRead_eq_some_iff.mpr ⟨archive.comment.length, last, _, archive.eocdrFirst hlast, ?_,
    ?_, hz, hentries, hdirectory⟩
  · rw [hoffset, Archive.eocdrOffset]
    omega
  · rw [hrecord]
    simp [Eocdr.SingleVolume, Archive.eocdr]

/-- Completeness. Assumes: an archive without a later end of central directory record. `zip_read`
accepts its file, wherever the archive starts in it, with the number of members and the comment of
the archive, and the listing finds exactly the members of the archive, in their order, with their
names, comments, methods, checksums, sizes, directory flags and data. -/
theorem zipRead_archive (mktime : Tm → ℤ) (archive : Archive) (hlast : archive.NoLaterRecord) :
    ∃ zip, zipRead archive.bytes = .ok (some zip) ∧
      zip.numMembers.toNat = archive.members.length ∧
      slice archive.bytes zip.comment zip.commentLen.toNat = archive.comment ∧
      ∀ fuel > archive.members.length, ∃ visits,
        listZipLoop mktime archive.bytes zip fuel zip.membersBegin = .ok (some visits) ∧
        visits.map (fun visit ↦ visit.2.content archive.bytes) =
          archive.members.map fun m ↦ m.content mktime := by
  obtain ⟨zip, entries, hread, hcount, hmembers, hdirectory, hcomment, hcontents⟩ :=
    archive.directory mktime hlast
  refine ⟨zip, hread, hmembers, hcomment, fun fuel hfuel ↦ ?_⟩
  have hend := (zipRead_directory hread).1
  have hentries : entries.length < fuel := by omega
  refine ⟨_, listZipLoop_of_directory hend mktime entries hentries le_rfl hdirectory, ?_⟩
  rw [List.map_map, ← hcontents]
  rfl

/-- An archive with an empty directory and a file of three bytes in it, stored behind one byte. -/
def folderArchive : Archive where
  front := [0xff]
  members := [{
    madeByVer := 20, extractVer := 20, gpFlag := 0, method := zipStored, modTime := 0
    modDate := 33, crc32 := 0, uncompSize := 0, intAttrs := 0, extAttrs := 16
    name := [0x64, 0x2f], extra := [], comment := [0x21], localFields := ⟨20, 0, 0, 0, 33, 0, 0, 0⟩
    localExtra := [], data := []
    name_le := by decide, extra_le := by decide, comment_le := by decide
    localExtra_le := by decide, data_lt := by decide, not_encrypted := by decide
    method_supported := by decide, stored_size := by decide, name_clean := by decide }, {
    madeByVer := 20, extractVer := 20, gpFlag := 0, method := zipStored, modTime := 0
    modDate := 33, crc32 := 0x352441c2, uncompSize := 3, intAttrs := 0, extAttrs := 0
    name := [0x64, 0x2f, 0x61], extra := [], comment := []
    localFields := ⟨20, 0, 0, 0, 33, 0x352441c2, 3, 3⟩, localExtra := [], data := [0x61, 0x62, 0x63]
    name_le := by decide, extra_le := by decide, comment_le := by decide
    localExtra_le := by decide, data_lt := by decide, not_encrypted := by decide
    method_supported := by decide, stored_size := by decide, name_clean := by decide }]
  comment := [0x3f]
  members_pos := by decide
  members_le := by decide
  comment_le := by decide
  size_lt := by decide

theorem eocdrOffset_folderArchive : folderArchive.eocdrOffset = 167 := by
  decide

theorem length_folderArchive : folderArchive.bytes.length = 190 := by
  rw [Archive.length_bytes, eocdrOffset_folderArchive]
  rfl

theorem folderArchive_noLaterRecord : folderArchive.NoLaterRecord := by
  intro offset hoffset hroom hsignature
  rw [eocdrOffset_folderArchive] at hoffset
  rw [length_folderArchive, eocdrBaseSz] at hroom
  obtain rfl : offset = 168 := by omega
  exact absurd hsignature (by decide +kernel)

/-- The members of `folderArchive` are read back. -/
theorem zipRead_folderArchive :
    ∃ zip, zipRead folderArchive.bytes = .ok (some zip) ∧ zip.numMembers.toNat = 2 ∧
      ∀ fuel > 2, ∃ visits,
        listZipLoop (fun tm ↦ tm.tmYear) folderArchive.bytes zip fuel zip.membersBegin =
          .ok (some visits) ∧
        visits.map (fun visit ↦ visit.2.content folderArchive.bytes) =
          [⟨[0x64, 0x2f], 80, 0, 0, 0, 0, [0x21], [], true⟩,
            ⟨[0x64, 0x2f, 0x61], 80, 0, 0x352441c2, 3, 3, [], [0x61, 0x62, 0x63], false⟩] := by
  obtain ⟨zip, hread, hcount, -, hlist⟩ :=
    zipRead_archive (fun tm ↦ tm.tmYear) folderArchive folderArchive_noLaterRecord
  exact ⟨zip, hread, hcount, hlist⟩

end Homework.Zip
