import Homework.Zip.PrefixIndependence

/-!
# When the ZIP reader leaves its input

The bounds checks of `read_cfh` and `read_lfh` keep a header inside the window `zip->src`,
`zip->src_len`, and the window ends where the buffer ends. Nothing checks that it also starts
there: its length is `cd_offset + cd_size` plus the distance of the end of central directory record
from the end of the file, and when the two fields say more than the file holds, the window starts
before the buffer (`windowLenOf_le_iff`). `hostileArchive` is such a file: the first signature that
`zip_read` looks at lies 23 bytes before the buffer.

`zipRead_staysInside_iff` says exactly when every inspected byte lies in the buffer. The condition
`ReadsInside` speaks about the file alone: once the validation loop is reached with at least one
entry, the window must lie in the buffer, or at least every header that a validated chain of
entries leads to and that fits in the window must (`HeadersInside`).
-/

set_option autoImplicit false
set_option relaxedAutoImplicit false

namespace Homework.Zip

open Library.ByteBuffer

/-! ### The window -/

/-- The run inspects no byte outside the buffer. -/
def StaysInside {α : Type} (run : Except Fault α) : Prop :=
  ∀ index : ℤ, run ≠ .error (.outside index)

/-- The run ends in a value when the condition holds, and at a byte outside the buffer when it does
not. -/
def InsideWhen {α : Type} (run : Except Fault α) (condition : Prop) : Prop :=
  (condition → ∃ value, run = .ok value) ∧ (¬ condition → ∃ index, run = .error (.outside index))

theorem InsideWhen.staysInside_iff {α : Type} {run : Except Fault α} {condition : Prop}
    (h : InsideWhen run condition) : StaysInside run ↔ condition := by
  constructor
  · intro hinside
    by_contra hcondition
    obtain ⟨index, hrun⟩ := h.2 hcondition
    exact hinside index hrun
  · intro hcondition index hrun
    obtain ⟨value, hvalue⟩ := h.1 hcondition
    rw [hvalue] at hrun
    cases hrun

theorem insideWhen_ok {α : Type} (value : α) {condition : Prop} (h : condition) :
    InsideWhen (.ok value : Except Fault α) condition :=
  ⟨fun _ ↦ ⟨value, rfl⟩, fun hnot ↦ absurd h hnot⟩

theorem insideWhen_outside {α : Type} (index : ℤ) {condition : Prop} (h : ¬ condition) :
    InsideWhen (.error (.outside index) : Except Fault α) condition :=
  ⟨fun hcondition ↦ absurd hcondition h, fun _ ↦ ⟨index, rfl⟩⟩

theorem insideWhen_congr {α : Type} {run : Except Fault α} {first second : Prop}
    (h : InsideWhen run first) (hiff : first ↔ second) : InsideWhen run second :=
  ⟨fun hsecond ↦ h.1 (hiff.mpr hsecond), fun hsecond ↦ h.2 fun hfirst ↦ hsecond (hiff.mp hfirst)⟩

theorem insideWhen_map {α β : Type} {run : Except Fault α} {condition : Prop} (f : α → β)
    (h : InsideWhen run condition) :
    InsideWhen (run >>= fun value ↦ (.ok (f value) : Except Fault β)) condition := by
  constructor
  · intro hcondition
    obtain ⟨value, hvalue⟩ := h.1 hcondition
    exact ⟨f value, by rw [hvalue, ok_bind]⟩
  · intro hcondition
    obtain ⟨index, hindex⟩ := h.2 hcondition
    exact ⟨index, by rw [hindex, error_bind]⟩

/-- The 64-bit computation of `zip->src_len` does not wrap around: it gives the length of the
window. Assumes: the buffer has a length that fits in `size_t`. -/
theorem windowLenOf_eq_sizeT {buffer : List UInt8} {commentLen : ℕ}
    (hfirst : EocdrFirst buffer commentLen) (hlength : buffer.length < 2 ^ 64) :
    (((eocdrOf buffer commentLen).cdOffset + (eocdrOf buffer commentLen).cdSize).toNat +
        buffer.length + (2 ^ 64 - eocdrOffsetOf buffer commentLen)) % 2 ^ 64 =
      windowLenOf buffer commentLen := by
  have hfields :=
    ((eocdrOf buffer commentLen).cdOffset + (eocdrOf buffer commentLen).cdSize).toNat_lt
  have hroom := hfirst.1.1
  have hcomment := hfirst.2.1
  rw [windowLenOf, windowLen]
  simp only [eocdrOffsetOf, eocdrBaseSz, uint16Max] at *
  omega

/-- At most one comment length is the first at which a record matches. -/
theorem eocdrFirst_unique {buffer : List UInt8} {first second : ℕ}
    (hfirst : EocdrFirst buffer first) (hsecond : EocdrFirst buffer second) : first = second := by
  rcases lt_trichotomy first second with hlt | heq | hgt
  · exact absurd hfirst.1 (hsecond.2.2 first hlt)
  · exact heq
  · exact absurd hsecond.1 (hfirst.2.2 second hgt)

/-- The window lies in the buffer exactly when the two directory fields, added modulo `2 ^ 32`,
are at most the offset of the record. -/
theorem windowLenOf_le_iff {buffer : List UInt8} {commentLen : ℕ}
    (hfirst : EocdrFirst buffer commentLen) :
    windowLenOf buffer commentLen ≤ buffer.length ↔
      ((eocdrOf buffer commentLen).cdOffset + (eocdrOf buffer commentLen).cdSize).toNat ≤
        eocdrOffsetOf buffer commentLen := by
  have hroom := hfirst.1.1
  rw [windowLenOf, windowLen]
  simp only [eocdrOffsetOf]
  omega

/-! ### The condition -/

/-- A round at an offset looks only at headers that start in the buffer: the central header, when
it fits in the window, and the local header, when the round gets that far and it fits in the
window. -/
def RoundInside (buffer : List UInt8) (src : ℤ) (srcLen offset : ℕ) : Prop :=
  (FitsWindow srcLen offset cfhBaseSz → 0 ≤ src + (offset : ℤ)) ∧
    ∀ cfh, CentralOk buffer src srcLen offset cfh →
      FitsWindow srcLen cfh.lfhOffset.toNat lfhBaseSz → 0 ≤ src + cfh.lfhOffset.toNat

/-- Every header that the validation loop looks at, starting at the offset `first` with `count`
entries to go, starts in the buffer: the first central header, when it fits in the window, and the
local header of each member whose predecessors are valid and whose central header passes the checks,
when it fits in the window. -/
def HeadersInside (buffer : List UInt8) (src : ℤ) (srcLen first count : ℕ) : Prop :=
  (FitsWindow srcLen first cfhBaseSz → 0 ≤ src + first) ∧
    ∀ (entries : List Entry) (last : ℕ) (cfh : Cfh),
      Directory buffer src srcLen first last entries → entries.length < count →
      CentralOk buffer src srcLen last cfh →
      FitsWindow srcLen cfh.lfhOffset.toNat lfhBaseSz → 0 ≤ src + cfh.lfhOffset.toNat

/-- The file does not lead the reader out of the buffer: when the record of a single-volume archive
with at least one entry is found at a nonzero offset, the two directory fields say no more than the
file holds, or every header that the validation loop looks at starts in the buffer all the same. -/
def ReadsInside (buffer : List UInt8) : Prop :=
  ∀ commentLen, EocdrFirst buffer commentLen → eocdrOffsetOf buffer commentLen ≠ 0 →
    (eocdrOf buffer commentLen).SingleVolume → (eocdrOf buffer commentLen).cdEntries.toNat ≠ 0 →
    ((eocdrOf buffer commentLen).cdOffset + (eocdrOf buffer commentLen).cdSize).toNat ≤
        eocdrOffsetOf buffer commentLen ∨
      HeadersInside buffer ((buffer.length : ℤ) - windowLenOf buffer commentLen)
        (windowLenOf buffer commentLen) (eocdrOf buffer commentLen).cdOffset.toNat
        (eocdrOf buffer commentLen).cdEntries.toNat

/-! ### The validation loop -/

section Window

variable {buffer : List UInt8} {src : ℤ} {srcLen : ℕ}

/-- A central header that was read fits in the window. -/
theorem CentralOk.fits {offset : ℕ} {cfh : Cfh}
    (hcentral : CentralOk buffer src srcLen offset cfh) : FitsWindow srcLen offset cfhBaseSz := by
  have hroom := (cfhIn_eq_some hcentral.cfh_eq).2
  simp only [FitsWindow]
  omega

/-- The second half of a round stays inside the buffer exactly when the local header, if it fits
in the window, starts in the buffer. -/
theorem zipReadRoundLocal_insideWhen (hend : src + srcLen = buffer.length) (offset : ℕ)
    (cfh : Cfh) :
    InsideWhen (zipReadRoundLocal buffer src srcLen offset cfh)
      (FitsWindow srcLen cfh.lfhOffset.toNat lfhBaseSz → 0 ≤ src + cfh.lfhOffset.toNat) := by
  by_cases hlow : 0 ≤ src + (cfh.lfhOffset.toNat : ℤ)
  · rw [zipReadRoundLocal, readLfh_of_inside hlow hend, ok_bind]
    cases lfhIn buffer src srcLen cfh.lfhOffset.toNat with
    | none => exact insideWhen_ok _ fun _ ↦ hlow
    | some lfh =>
      simp only []
      split_ifs
      · exact insideWhen_ok _ fun _ ↦ hlow
      · exact insideWhen_ok _ fun _ ↦ hlow
  · by_cases hfits : FitsWindow srcLen cfh.lfhOffset.toNat lfhBaseSz
    · rw [zipReadRoundLocal, readLfh_of_outside (not_le.mp hlow) hfits]
      exact insideWhen_outside _ fun h ↦ hlow (h hfits)
    · rw [zipReadRoundLocal, readLfh_of_not_fits hfits]
      exact insideWhen_ok _ fun h ↦ absurd h hfits

/-- A round stays inside the buffer exactly when the headers it looks at start there. -/
theorem zipReadRound_insideWhen (hend : src + srcLen = buffer.length) (offset : ℕ) :
    InsideWhen (zipReadRound buffer src srcLen offset) (RoundInside buffer src srcLen offset) := by
  by_cases hlow : 0 ≤ src + (offset : ℤ)
  · by_cases hcentral : ∃ cfh, CentralOk buffer src srcLen offset cfh
    · obtain ⟨cfh, hcentral⟩ := hcentral
      rw [zipReadRound_of_centralOk hend hlow hcentral]
      refine insideWhen_congr (zipReadRoundLocal_insideWhen hend offset cfh) ?_
      constructor
      · refine fun hlocal ↦ ⟨fun _ ↦ hlow, fun other hother ↦ ?_⟩
        obtain rfl : cfh = other :=
          Option.some.inj (hcentral.cfh_eq.symm.trans hother.cfh_eq)
        exact hlocal
      · exact fun hall ↦ hall.2 cfh hcentral
    · rw [zipReadRound_of_not_centralOk hend hlow (not_exists.mp hcentral)]
      exact insideWhen_ok _ ⟨fun _ ↦ hlow, fun cfh h ↦ absurd ⟨cfh, h⟩ hcentral⟩
  · by_cases hfits : FitsWindow srcLen offset cfhBaseSz
    · rw [zipReadRound, readCfh_of_outside (not_le.mp hlow) hfits]
      exact insideWhen_outside _ fun h ↦ hlow (h.1 hfits)
    · rw [zipReadRound, readCfh_of_not_fits hfits]
      exact insideWhen_ok _ ⟨fun h ↦ absurd h hfits, fun cfh h ↦ absurd h.fits hfits⟩

/-- The headers that the loop looks at after a valid first entry. Assumes: the entry starts the
directory at `entry.offset`. -/
theorem headersInside_cons_iff {entry : Entry} (hvalid : entry.Valid buffer src srcLen)
    (count : ℕ) :
    HeadersInside buffer src srcLen entry.offset (count + 1 + 1) ↔
      HeadersInside buffer src srcLen entry.next (count + 1) := by
  have hlow := hvalid.cfh_inside
  have hstep := entry.offset_lt_next
  constructor
  · rintro ⟨-, hlocal⟩
    refine ⟨fun _ ↦ by omega, fun entries last cfh hdirectory hlength ↦ ?_⟩
    exact hlocal (entry :: entries) last cfh ⟨rfl, hvalid, hdirectory⟩ (Nat.succ_lt_succ hlength)
  · rintro ⟨-, hlocal⟩
    refine ⟨fun _ ↦ hlow, fun entries last cfh hdirectory hlength hcentral hfits ↦ ?_⟩
    cases entries with
    | nil =>
      obtain rfl : entry.offset = last := hdirectory
      obtain rfl : entry.cfh = cfh :=
        Option.some.inj (hvalid.central.cfh_eq.symm.trans hcentral.cfh_eq)
      exact hvalid.lfh_inside
    | cons head rest =>
      obtain ⟨hoffset, hheadValid, hrest⟩ := hdirectory
      have hcfh : head.cfh = entry.cfh := by
        have hheadEq := hheadValid.central.cfh_eq
        rw [hoffset, hvalid.central.cfh_eq] at hheadEq
        exact (Option.some.inj hheadEq).symm
      have hnext : head.next = entry.next := by rw [Entry.next, Entry.next, hoffset, hcfh]
      rw [hnext] at hrest
      exact hlocal rest last cfh hrest (Nat.lt_of_succ_lt_succ hlength) hcentral hfits

/-- The last round, and a round that rejects the archive, add no header to those of the round
itself. -/
theorem headersInside_iff_roundInside {first count : ℕ}
    (hstop : count = 0 ∨ ∀ entry : Entry, entry.offset = first → ¬ entry.Valid buffer src srcLen) :
    HeadersInside buffer src srcLen first (count + 1) ↔
      RoundInside buffer src srcLen first := by
  constructor
  · rintro ⟨hfirst, hlocal⟩
    exact ⟨hfirst, fun cfh hcentral ↦ hlocal [] first cfh rfl (Nat.succ_pos _) hcentral⟩
  · rintro ⟨hfirst, hlocal⟩
    refine ⟨hfirst, fun entries last cfh hdirectory hlength hcentral ↦ ?_⟩
    cases entries with
    | nil =>
      obtain rfl : first = last := hdirectory
      exact hlocal cfh hcentral
    | cons entry rest =>
      obtain ⟨hoffset, hvalid, -⟩ := hdirectory
      rcases hstop with rfl | hstop
      · simp at hlength
      · exact absurd hvalid (hstop entry hoffset)

/-- The loop makes no further round after the last one and after one that rejects the archive, so
it stays inside the buffer exactly when that round does. -/
theorem zipReadLoop_insideWhen_round (hend : src + srcLen = buffer.length) {first count : ℕ}
    (hstop : count = 0 ∨ ∀ entry : Entry, entry.offset = first → ¬ entry.Valid buffer src srcLen) :
    InsideWhen (zipReadLoop buffer src srcLen (count + 1) first)
      (RoundInside buffer src srcLen first) := by
  obtain ⟨hinside, houtside⟩ := zipReadRound_insideWhen hend first
  constructor
  · intro hround
    obtain ⟨found, hfound⟩ := hinside hround
    rw [zipReadLoop, hfound, ok_bind]
    cases found with
    | none => exact ⟨none, rfl⟩
    | some next =>
      rcases hstop with rfl | hstop
      · exact ⟨some next, rfl⟩
      · obtain ⟨entry, hoffset, hvalid, -⟩ := (zipReadRound_eq_some_iff hend).mp hfound
        exact absurd hvalid (hstop entry hoffset)
  · intro hround
    obtain ⟨index, hindex⟩ := houtside hround
    exact ⟨index, by rw [zipReadLoop, hindex]; rfl⟩

/-- The validation loop stays inside the buffer exactly when every header it looks at starts
there. -/
theorem zipReadLoop_insideWhen (hend : src + srcLen = buffer.length) (count : ℕ) :
    ∀ first : ℕ, InsideWhen (zipReadLoop buffer src srcLen (count + 1) first)
      (HeadersInside buffer src srcLen first (count + 1)) := by
  induction count with
  | zero =>
    intro first
    exact insideWhen_congr (zipReadLoop_insideWhen_round hend (Or.inl rfl))
      (headersInside_iff_roundInside (Or.inl rfl)).symm
  | succ count ih =>
    intro first
    by_cases hentry : ∃ entry : Entry, entry.offset = first ∧ entry.Valid buffer src srcLen
    · obtain ⟨entry, rfl, hvalid⟩ := hentry
      have hround := (zipReadRound_eq_some_iff hend).mpr ⟨entry, rfl, hvalid, rfl⟩
      rw [zipReadLoop, hround, ok_bind]
      exact insideWhen_congr (ih entry.next) (headersInside_cons_iff hvalid count).symm
    · have hstop : ∀ entry : Entry, entry.offset = first → ¬ entry.Valid buffer src srcLen :=
        fun entry hoffset hvalid ↦ hentry ⟨entry, hoffset, hvalid⟩
      exact insideWhen_congr (zipReadLoop_insideWhen_round hend (Or.inr hstop))
        (headersInside_iff_roundInside (Or.inr hstop)).symm

/-- In a window that lies in the buffer every header starts in the buffer. -/
theorem headersInside_of_window_inside (hsrc : 0 ≤ src) (first count : ℕ) :
    HeadersInside buffer src srcLen first count :=
  ⟨fun _ ↦ by positivity, fun _ _ _ _ _ _ _ ↦ by positivity⟩

end Window

/-! ### The reader -/

/-- `zip_read` inspects only bytes of its input exactly when the file does not lead it out of the
buffer: no record is found at a nonzero offset, or the archive has several volumes or no entry, or
the two directory fields say no more than the file holds, or every header that the validation loop
looks at starts in the buffer all the same. -/
theorem zipRead_staysInside_iff (buffer : List UInt8) :
    StaysInside (zipRead buffer) ↔ ReadsInside buffer := by
  refine InsideWhen.staysInside_iff ?_
  by_cases hmembers : ∃ commentLen, EocdrFirst buffer commentLen ∧
      eocdrOffsetOf buffer commentLen ≠ 0 ∧ (eocdrOf buffer commentLen).SingleVolume
  · obtain ⟨commentLen, hfirst, hoffset, hsingle⟩ := hmembers
    rw [zipRead_of_first hfirst hoffset hsingle]
    refine insideWhen_map _ ?_
    cases hcount : (eocdrOf buffer commentLen).cdEntries.toNat with
    | zero =>
      refine insideWhen_ok _ fun other hother _ _ hentries ↦ ?_
      rw [eocdrFirst_unique hother hfirst] at hentries
      exact absurd hcount hentries
    | succ count =>
      refine insideWhen_congr (zipReadLoop_insideWhen (window_end buffer _) count _) ?_
      constructor
      · intro hheaders other hother _ _ _
        rw [eocdrFirst_unique hother hfirst, hcount]
        exact Or.inr hheaders
      · intro hreads
        rcases hreads commentLen hfirst hoffset hsingle (by omega) with hwindow | hheaders
        · have hinside := (windowLenOf_le_iff hfirst).mpr hwindow
          exact headersInside_of_window_inside (by omega) _ _
        · rwa [hcount] at hheaders
  · rw [zipRead_of_no_members hmembers]
    exact insideWhen_ok _ fun commentLen hfirst hoffset hsingle ↦
      absurd ⟨commentLen, hfirst, hoffset, hsingle⟩ hmembers

/-- A byte, and an end of central directory record that claims one member and a central directory
of 24 bytes before it. -/
def hostileArchive : List UInt8 :=
  [0, 0x50, 0x4b, 5, 6, 0, 0, 0, 0, 1, 0, 1, 0, 24, 0, 0, 0, 0, 0, 0, 0, 0, 0]

/-- On `hostileArchive` the reader inspects a byte 23 bytes before the buffer. -/
theorem zipRead_hostileArchive :
    ¬ (∀ buffer : List UInt8, StaysInside (zipRead buffer)) ∧
      zipRead hostileArchive = .error (.outside (-23)) := by
  have hread : zipRead hostileArchive = .error (.outside (-23)) := by decide +kernel
  exact ⟨fun h ↦ h hostileArchive (-23) hread, hread⟩

end Homework.Zip
