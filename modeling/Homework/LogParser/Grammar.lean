import Homework.LogParser.Machine

/-!
# Lines in the format of a web server

A line of the common kind has a request between quotes, a status, a size, and a referer between
quotes. The fields may hold anything but the byte that ends them: the url may hold quotes, the
protocol and the referer may hold blanks, and all three may be empty. A `LogLine` is such a line
with the proofs that its fields end where they should.

`parse_log_line` finds every field in its place (`requestPart_text`, `refererPart_text`), and adds
one contribution to the total and to each map and nothing else, exactly as long as the `long` sums
and the `int` capacities have room for it (`parseLogLine_text_iff`).
-/

set_option autoImplicit false
set_option relaxedAutoImplicit false

namespace Homework.LogParser

open Homework.Library Homework.Library.ByteBuffer Homework.Library.Cells Homework.Library.CString
  Homework.Library.Decimal Homework.Library.Tally Homework.Library.TextInput

/-! ### The format -/

/-- The fields of a line, with what stands before the request and behind the referer. -/
structure Fields where
  pre : List UInt8
  url : List UInt8
  proto : List UInt8
  status : List UInt8
  size : List UInt8
  ref : List UInt8
  rest : List UInt8

namespace Fields

/-- What follows the protocol: the status and the size. -/
def sizePart (fields : Fields) : List UInt8 :=
  space :: (fields.status ++ space :: (fields.size ++ space :: quote :: (fields.ref ++
    quote :: fields.rest)))

/-- The line `pre "GET url proto" status size "ref" rest`. -/
def text (fields : Fields) : List UInt8 :=
  fields.pre ++ quote :: (getText ++ (fields.url ++ space :: (fields.proto ++
    quote :: fields.sizePart)))

/-- The key of the url: without a slash at its end, unless it is just one byte. -/
def key (fields : Fields) : List UInt8 :=
  if fields.url.length > 1 ∧ fields.url.getLast? = some slash then fields.url.dropLast
  else fields.url

end Fields

/-- A string of decimal digits, at least one, whose number is at most `largest`. -/
structure IsNumeral (largest : ℕ) (digits : List UInt8) : Prop where
  ne_nil : digits ≠ []
  digit_of_mem : ∀ digit ∈ digits, isDigit digit = true
  le : numberOf digits ≤ largest

/-- A line in the format: no field holds the byte that ends it, the status is an `int` and the size
a `long`, and the line is a C string. -/
structure LogLine extends Fields where
  quote_notMem_pre : quote ∉ pre
  space_notMem_url : space ∉ url
  quote_notMem_proto : quote ∉ proto
  quote_notMem_ref : quote ∉ ref
  status_numeral : IsNumeral (2 ^ 31 - 1) status
  size_numeral : IsNumeral (2 ^ 63 - 1) size
  zero_notMem : 0 ∉ toFields.text

/-! ### Numbers -/

/-- A digit is none of the bytes that are not digits. -/
theorem ne_of_isDigit {byte other : UInt8} (hbyte : isDigit byte = true)
    (hother : isDigit other = false) : byte ≠ other := by
  rintro rfl
  exact absurd (hbyte.symm.trans hother) Bool.noConfusion

theorem isSpace_of_isDigit {byte : UInt8} (hbyte : isDigit byte = true) :
    isSpace byte = false := by
  have hlow : 48 ≤ byte.toNat := by
    rw [isDigit, Bool.and_eq_true, decide_eq_true_eq, UInt8.le_iff_toNat_le] at hbyte
    exact hbyte.1
  have hspace : byte ≠ 32 := fun heq ↦ absurd (heq ▸ hlow) (by decide)
  have hcontrol : ¬ byte ≤ 13 := fun hle ↦
    absurd (hlow.trans (UInt8.le_iff_toNat_le.mp hle)) (by decide)
  simp [isSpace, hspace, hcontrol]

namespace IsNumeral

variable {largest : ℕ} {digits : List UInt8} (hdigits : IsNumeral largest digits)
include hdigits

/-- No other byte stands among the digits. -/
theorem notMem {other : UInt8} (hother : isDigit other = false) : other ∉ digits :=
  fun hmem ↦ ne_of_isDigit (hdigits.digit_of_mem other hmem) hother rfl

/-- A conversion of `sscanf` reads the number up to the blank behind it. -/
theorem scanNumber_eq (rest : List UInt8) :
    scanNumber (space :: (digits ++ space :: rest)) =
      some ((numberOf digits : ℤ), space :: rest) := by
  have hblank : isDigit space = false := rfl
  have hscan : (space :: (digits ++ space :: rest)).dropWhile isSpace =
      digits ++ space :: rest := by
    obtain ⟨digit, others, rfl⟩ := List.exists_cons_of_ne_nil hdigits.ne_nil
    have hdigit := isSpace_of_isDigit (hdigits.digit_of_mem digit List.mem_cons_self)
    rw [List.dropWhile_cons_of_pos rfl, List.cons_append,
      List.dropWhile_cons_of_neg (by simp [hdigit])]
  have hsign : scanSign (digits ++ space :: rest) = (1, digits ++ space :: rest) := by
    obtain ⟨digit, others, rfl⟩ := List.exists_cons_of_ne_nil hdigits.ne_nil
    have hdigit := hdigits.digit_of_mem digit List.mem_cons_self
    exact scanSign_of_ne (ne_of_isDigit hdigit rfl) (ne_of_isDigit hdigit rfl) _
  have htake : (digits ++ space :: rest).takeWhile isDigit = digits := by
    rw [List.takeWhile_append_of_pos hdigits.digit_of_mem,
      List.takeWhile_cons_of_neg (by simp [hblank]), List.append_nil]
  have hdrop : (digits ++ space :: rest).dropWhile isDigit = space :: rest := by
    rw [List.dropWhile_append_of_pos hdigits.digit_of_mem,
      List.dropWhile_cons_of_neg (by simp [hblank])]
  simp only [scanNumber, hscan, hsign, htake, hdrop, if_neg hdigits.ne_nil, one_mul]

end IsNumeral

/-! ### The fields of a line -/

namespace LogLine

variable (line : LogLine)

/-- `sscanf` reads the status and the size. -/
theorem sscanfStatusSize_sizePart :
    sscanfStatusSize line.sizePart =
      some ((numberOf line.status : ℤ), (numberOf line.size : ℤ)) := by
  have hlong : toLong (numberOf line.size : ℤ) = numberOf line.size := by
    have hsize := line.size_numeral.le
    exact toLong_of_le (by omega) (by omega)
  rw [sscanfStatusSize, Fields.sizePart, line.status_numeral.scanNumber_eq, Option.bind_eq_bind,
    Option.bind_some]
  dsimp only
  rw [line.size_numeral.scanNumber_eq, Option.bind_some, hlong]

/-- `parse_log_line` finds the url and the size. -/
theorem requestPart_text :
    requestPart line.text = some (line.key, (numberOf line.size : ℤ), line.sizePart) := by
  have hquote : strchr quote line.text =
      some (quote :: (getText ++ (line.url ++ space :: (line.proto ++ quote :: line.sizePart)))) :=
    strchr_append line.quote_notMem_pre _
  have hurl := strchr_append line.space_notMem_url (line.proto ++ quote :: line.sizePart)
  have hproto : strchr quote (space :: (line.proto ++ quote :: line.sizePart)) =
      some (quote :: line.sizePart) := by
    rw [← List.cons_append]
    refine strchr_append (fun hmem ↦ ?_) _
    rcases List.mem_cons.mp hmem with hspace | hproto
    · exact absurd hspace (by decide)
    · exact line.quote_notMem_proto hproto
  have hsize : strchr space line.sizePart = some line.sizePart := if_pos rfl
  have htake : (getText ++ (line.url ++ space :: (line.proto ++ quote :: line.sizePart))).take 4 =
      getText := rfl
  have hdrop : (getText ++ (line.url ++ space :: (line.proto ++ quote :: line.sizePart))).drop 4 =
      line.url ++ space :: (line.proto ++ quote :: line.sizePart) := rfl
  simp only [requestPart, hquote, Option.bind_eq_bind, Option.bind_some, List.drop_succ_cons,
    List.drop_zero, htake, hdrop, hurl, hproto, hsize, between_append,
    line.sscanfStatusSize_sizePart]
  rfl

/-- `parse_log_line` finds the referer, unless it is empty. -/
theorem refererPart_sizePart :
    refererPart line.sizePart = if line.ref = [] then none else some line.ref := by
  have hfront : quote ∉ space :: (line.status ++ space :: (line.size ++ [space])) := by
    have hspace : quote ≠ space := by decide
    have hstatus : quote ∉ line.status := line.status_numeral.notMem rfl
    have hsize : quote ∉ line.size := line.size_numeral.notMem rfl
    simp [hspace, hstatus, hsize]
  have hsize : strchr quote line.sizePart = some (quote :: (line.ref ++ quote :: line.rest)) := by
    have hfound := strchr_append hfront (line.ref ++ quote :: line.rest)
    simpa [Fields.sizePart] using hfound
  have href := strchr_append line.quote_notMem_ref line.rest
  have hlength : (quote :: line.rest).length = (line.ref ++ quote :: line.rest).length ↔
      line.ref = [] := by
    rw [List.length_append, Nat.right_eq_add, List.length_eq_zero_iff]
  simp only [refererPart, hsize, Option.bind_eq_bind, Option.bind_some, List.drop_succ_cons,
    List.drop_zero, href, between_append, hlength]
  by_cases hempty : line.ref = []
  · rw [if_pos hempty, if_pos hempty]
    rfl
  · rw [if_neg hempty, if_neg hempty]
    exact if_pos (List.length_pos_of_ne_nil hempty)

/-- The record of a line. -/
def record : LogRecord :=
  ⟨line.key, numberOf line.size, if line.ref = [] then none else some line.ref⟩

theorem recordOf_text : recordOf (cString line.text) = some line.record := by
  rw [cString_eq_self line.zero_notMem, recordOf, line.requestPart_text, record,
    ← line.refererPart_sizePart]
  rfl

end LogLine

/-! ### What a line adds -/

/-- One map comes from another by an amount for a key: the value of the key grows by it, or starts
with it, the other values stay, and so does the order of the keys, behind which a new key stands. -/
structure Adds (map next : EntryMap) (key : List UInt8) (delta : ℤ) : Prop where
  value?_key : next.value? key = some ((map.value? key).getD 0 + delta)
  value?_of_ne : ∀ other ≠ key, next.value? other = map.value? other
  keys_eq : next.keys = addKey map.keys key

/-- `add_entry` updates the entry of the key or appends one. -/
theorem adds_addEntry (map : EntryMap) (key : List UInt8) (delta : ℤ) :
    Adds map (map.addEntry key delta) key delta := by
  have hvalue := map.value?_addEntry key delta
  constructor
  · rw [hvalue, Function.update_self]
  · intro other hne
    rw [hvalue, Function.update_of_ne hne]
  · exact map.keys_addEntry key delta

/-- What a line is to do to the statistics: its size is added to the total and to the url, and 1 to
the referer if it has one, and nothing else changes. -/
structure Records (line : LogLine) (stats next : ThreadStats) : Prop where
  totalBytes_eq : next.totalBytes = stats.totalBytes + numberOf line.size
  url_adds : Adds stats.urlMap next.urlMap line.key (numberOf line.size)
  ref_adds : line.ref ≠ [] → Adds stats.refMap next.refMap line.ref 1
  ref_eq : line.ref = [] → next.refMap = stats.refMap

/-- The record of a line does what the line is to do. -/
theorem records_addRecord (line : LogLine) (stats : ThreadStats) :
    Records line stats (stats.addRecord line.record) := by
  have hurl := adds_addEntry stats.urlMap line.key (numberOf line.size)
  by_cases hempty : line.ref = []
  · rw [LogLine.record, if_pos hempty]
    exact ⟨rfl, hurl, fun hne ↦ absurd hempty hne, fun _ ↦ rfl⟩
  · rw [LogLine.record, if_neg hempty]
    exact ⟨rfl, hurl, fun _ ↦ adds_addEntry _ _ _, fun heq ↦ absurd heq hempty⟩

/-! ### Room for a line -/

/-- There is room in a map for an amount for a key: its new value is a `long`, and a new key finds a
free element in the array or a capacity that can be doubled. -/
structure HasRoom (map : EntryMap) (key : List UInt8) (delta : ℤ) : Prop where
  value : InLongRange ((map.value? key).getD 0 + delta)
  capacity : key ∉ map.keys → map.entries.length < map.capacity ∨ map.capacity < 2 ^ 30

/-- A map in range stays in range exactly when there is room. -/
theorem fits_addEntry_iff {map : EntryMap} (hfits : EntryArray.Fits map) (key : List UInt8)
    (delta : ℤ) : EntryArray.Fits (map.addEntry key delta) ↔ HasRoom map key delta := by
  have hvalue := map.value?_addEntry key delta
  have hold := hfits.capacity
  constructor
  · intro hnext
    refine ⟨hnext.values_of_value? (adds_addEntry map key delta).value?_key, fun hkey ↦ ?_⟩
    have hcapacity := hnext.capacity
    rw [EntryMap.capacity_addEntry, if_neg hkey, grownCapacity] at hcapacity
    unfold InIntRange at hcapacity
    split_ifs at hcapacity <;> omega
  · intro hroom
    refine ⟨fun entry hentry ↦ ?_, ?_⟩
    · have hentryValue := EntryMap.value?_key_of_mem hentry
      rw [hvalue] at hentryValue
      by_cases hkey : entry.key = key
      · rw [hkey, Function.update_self] at hentryValue
        exact Option.some.inj hentryValue ▸ hroom.value
      · rw [Function.update_of_ne hkey] at hentryValue
        exact hfits.values_of_value? hentryValue
    · rw [EntryMap.capacity_addEntry]
      by_cases hkey : key ∈ map.keys
      · rwa [if_pos hkey]
      · have hroomCapacity := hroom.capacity hkey
        rw [if_neg hkey, grownCapacity]
        unfold InIntRange at hold ⊢
        split_ifs <;> omega

/-- There is room for a line: for its size in the total and in the url map, and for its referer, if
it has one. -/
structure RoomFor (line : LogLine) (stats : ThreadStats) : Prop where
  totalBytes : InLongRange (stats.totalBytes + numberOf line.size)
  url : HasRoom stats.urlMap line.key (numberOf line.size)
  ref : line.ref ≠ [] → HasRoom stats.refMap line.ref 1

/-- Statistics in range stay in range exactly when there is room for the line. -/
theorem fits_addRecord_iff {stats : ThreadStats} (hfits : stats.Fits) (line : LogLine) :
    (stats.addRecord line.record).Fits ↔ RoomFor line stats := by
  have hurl := fits_addEntry_iff hfits.url line.key (numberOf line.size)
  by_cases hempty : line.ref = []
  · rw [LogLine.record, if_pos hempty]
    constructor
    · exact fun hnext ↦ ⟨hnext.totalBytes, hurl.mp hnext.url, fun hne ↦ absurd hempty hne⟩
    · exact fun hroom ↦ ⟨hurl.mpr hroom.url, hfits.ref, hroom.totalBytes⟩
  · have href := fits_addEntry_iff hfits.ref line.ref 1
    rw [LogLine.record, if_neg hempty]
    constructor
    · exact fun hnext ↦ ⟨hnext.totalBytes, hurl.mp hnext.url, fun _ ↦ href.mp hnext.ref⟩
    · exact fun hroom ↦ ⟨hurl.mpr hroom.url, href.mpr (hroom.ref hempty), hroom.totalBytes⟩

section Line

variable {allocator : Allocator} {stats : ArrayStats} {before : ThreadStats}

/-- `parse_log_line` adds the record of a line, if there is room for it. Assumes: the requests for
memory succeed. -/
theorem ArrayStats.Represents.parseLogLine_text (hbefore : stats.Represents before)
    (line : LogLine) (hserves : Serves allocator [line.record]) :
    (∃ next, ArrayStats.parseLogLine allocator (cString line.text) stats = .ok next ∧
        next.Represents (before.addRecord line.record)) ∨
      ArrayStats.parseLogLine allocator (cString line.text) stats = .error .overflow ∧
        ¬RoomFor line before := by
  rw [← fits_addRecord_iff hbefore.fits, ArrayStats.parseLogLine_eq, line.recordOf_text]
  exact hbefore.addRecord (inLongRange_size line.recordOf_text) hserves

/-- `parse_log_line` records a line in the format exactly when there is room for it. Assumes: the
arrays are those of a map, as they are after every line, and the requests for memory succeed. -/
theorem parseLogLine_text_iff (line : LogLine) (hbefore : stats.Represents before)
    (hserves : Serves allocator [line.record]) :
    (∃ next after, ArrayStats.parseLogLine allocator (cString line.text) stats = .ok next ∧
        next.Represents after ∧ Records line before after) ↔ RoomFor line before := by
  rcases hbefore.parseLogLine_text line hserves with ⟨next, hnext, hrep⟩ | ⟨herror, hnot⟩
  · have hroom : RoomFor line before := (fits_addRecord_iff hbefore.fits line).mp hrep.fits
    exact iff_of_true ⟨next, _, hnext, hrep, records_addRecord line before⟩ hroom
  · refine iff_of_false ?_ hnot
    rintro ⟨next, after, hnext, -⟩
    exact absurd (hnext.symm.trans herror) nofun

end Line

/-- A request for a page, with a referer and something behind it. -/
def pageFields (size : List UInt8) : Fields where
  pre := ascii "h - - [d] "
  url := ascii "/x/"
  proto := ascii "HTTP/1.0"
  status := ascii "200"
  size := size
  ref := ascii "-"
  rest := ascii " \"u\"\n"

theorem isNumeral_200 : IsNumeral (2 ^ 31 - 1) (ascii "200") :=
  ⟨by decide, List.all_eq_true.mp (by decide),
    le_trans (by decide : numberOf (ascii "200") ≤ 200) (by omega)⟩

/-- A page of one byte. -/
def pageLine : LogLine where
  toFields := pageFields (ascii "1")
  quote_notMem_pre := by decide
  space_notMem_url := by decide
  quote_notMem_proto := by decide
  quote_notMem_ref := by decide
  status_numeral := isNumeral_200
  size_numeral := ⟨by decide, List.all_eq_true.mp (by decide),
    le_trans (by decide : numberOf (ascii "1") ≤ 1) (by omega)⟩
  zero_notMem := by decide

/-- A page of `LONG_MAX` bytes. -/
def largeLine : LogLine where
  toFields := pageFields (ascii "9223372036854775807")
  quote_notMem_pre := by decide
  space_notMem_url := by decide
  quote_notMem_proto := by decide
  quote_notMem_ref := by decide
  status_numeral := isNumeral_200
  size_numeral := ⟨by decide, List.all_eq_true.mp (by decide),
    le_trans (by decide : numberOf (ascii "9223372036854775807") ≤ 9223372036854775807) (by omega)⟩
  zero_notMem := by decide

theorem plenty_generous : Plenty generous := fun _ hbytes ↦ decide_eq_true (by omega)

theorem serves_pageLine : Serves generous [pageLine.record] :=
  ⟨plenty_generous, by decide, by decide⟩

theorem roomFor_largeLine : RoomFor largeLine ThreadStats.zero :=
  ⟨by decide, ⟨by decide, by decide⟩, fun _ ↦ ⟨by decide, by decide⟩⟩

/-- The first request of a thread. -/
theorem parseLogLine_pageLine :
    ∃ next after, ArrayStats.parseLogLine generous (cString pageLine.text) ArrayStats.zero =
        .ok next ∧
      next.Represents after ∧ Records pageLine ThreadStats.zero after :=
  (parseLogLine_text_iff pageLine ArrayStats.represents_zero serves_pageLine).mpr
    ⟨by decide, ⟨by decide, by decide⟩, fun _ ↦ ⟨by decide, by decide⟩⟩

/-- After a page of `LONG_MAX` bytes a page of one byte is not recorded. -/
theorem parseLogLine_text_overflow :
    ∃ stats before, ArrayStats.parseLogLine generous (cString largeLine.text) ArrayStats.zero =
        .ok stats ∧ stats.Represents before ∧
      ArrayStats.parseLogLine generous (cString pageLine.text) stats = .error .overflow ∧
      ¬∃ next after, ArrayStats.parseLogLine generous (cString pageLine.text) stats = .ok next ∧
        next.Represents after ∧ Records pageLine before after := by
  have hserves : Serves generous [largeLine.record] := ⟨plenty_generous, by decide, by decide⟩
  rcases ArrayStats.represents_zero.parseLogLine_text largeLine hserves with
    ⟨stats, hstats, hbefore⟩ | ⟨-, hnot⟩
  swap
  · exact absurd roomFor_largeLine hnot
  have hfull : ¬RoomFor pageLine (ThreadStats.zero.addRecord largeLine.record) := by
    intro hroom
    exact absurd hroom.totalBytes (by decide)
  have herror : ArrayStats.parseLogLine generous (cString pageLine.text) stats =
      .error .overflow := by
    rcases hbefore.parseLogLine_text pageLine serves_pageLine with ⟨next, -, hrep⟩ | ⟨herror, -⟩
    · exact absurd ((fits_addRecord_iff hbefore.fits pageLine).mp hrep.fits) hfull
    · exact herror
  refine ⟨stats, _, hstats, hbefore, herror, ?_⟩
  rintro ⟨next, after, hnext, -⟩
  exact absurd (hnext.symm.trans herror) nofun

end Homework.LogParser
