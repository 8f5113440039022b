import Homework.Library.Lines
import Homework.LogParser.Grammar

/-!
# Lines and pieces of a log

A log is a sequence of lines, but `process_file` reads it in pieces of at most 8191 bytes, so a
longer line is parsed piece by piece: a field that is cut is lost or shortened, and a piece that
starts in the middle of a line may look like a request. The pieces of a file are those of its lines
(`fgetsAll_eq_flatMap`), and they lead to the same records as long as no line has more than 8191
bytes in front of its newline (`recordsOf_fgetsAll`): if it has exactly so many, the newline is a
piece of its own, which has no record, and the line has the same record without it
(`recordOf_append_newline`).

A single longer line is too much: whatever the lengths of the lines, if one of them is longer, there
is a file with lines of these lengths for which the pieces do not do what the lines do
(`processFile_lines_iff`).
-/

set_option autoImplicit false
set_option relaxedAutoImplicit false

namespace Homework.LogParser

open Homework.Library Homework.Library.ByteBuffer Homework.Library.Cells Homework.Library.CString
  Homework.Library.Decimal Homework.Library.Lines Homework.Library.Runs Homework.Library.TextInput

/-! ### The pieces of a line -/

theorem fgetsAll_of_ne_nil {content : List UInt8} (hcontent : content ≠ []) :
    fgetsAll content = (fgets 8191 content).1 :: fgetsAll (fgets 8191 content).2 := by
  obtain ⟨byte, rest, rfl⟩ := List.exists_cons_of_ne_nil hcontent
  rw [fgetsAll]

/-- A line that fits in the buffer is read in one piece. -/
theorem fgetsAll_line {body : List UInt8} (hbody : newline ∉ body) (hfits : body.length < 8191)
    (rest : List UInt8) :
    fgetsAll (body ++ newline :: rest) = (body ++ [newline]) :: fgetsAll rest := by
  have hroom : 8191 - body.length = (8190 - body.length) + 1 := by omega
  rw [fgetsAll_of_ne_nil (List.append_ne_nil_of_right_ne_nil _ (List.cons_ne_nil _ _)),
    fgets_append hbody hfits.le, hroom, fgets, if_pos rfl]

/-- The last piece of a file, if it fits in the buffer, is read in one piece. -/
theorem fgetsAll_last {body : List UInt8} (hbody : newline ∉ body) (hne : body ≠ [])
    (hfits : body.length ≤ 8191) : fgetsAll body = [body] := by
  have hend : ∀ room, fgets room [] = ([], []) := fun room ↦ by
    rcases room with _ | room
    · rfl
    · rfl
  have hread := fgets_append hbody hfits []
  rw [List.append_nil, hend, List.append_nil] at hread
  rw [fgetsAll_of_ne_nil hne, hread, fgetsAll]

/-- A newline alone is a piece. -/
theorem fgetsAll_last_newline : fgetsAll [newline] = [[newline]] := by
  rw [fgetsAll, fgets, if_pos rfl, fgetsAll]

/-- A full buffer is a piece. -/
theorem fgetsAll_full {front : List UInt8} (hfront : newline ∉ front)
    (hfull : front.length = 8191) (rest : List UInt8) :
    fgetsAll (front ++ rest) = front :: fgetsAll rest := by
  have hne : front ≠ [] := List.ne_nil_of_length_pos (by omega)
  rw [fgetsAll_of_ne_nil (List.append_ne_nil_of_left_ne_nil hne _), fgets_append hfront hfull.le,
    hfull, Nat.sub_self, fgets, List.append_nil]

/-- The pieces of a line come before those of what stands behind it. -/
theorem fgetsAll_line_append {body : List UInt8} (hbody : newline ∉ body) (rest : List UInt8) :
    fgetsAll (body ++ newline :: rest) = fgetsAll (body ++ [newline]) ++ fgetsAll rest := by
  induction hlength : body.length using Nat.strongRecOn generalizing body with
  | ind length ih =>
    by_cases hfits : body.length < 8191
    · rw [fgetsAll_line hbody hfits, fgetsAll_line hbody hfits, fgetsAll]
      rfl
    · have hsplit := List.take_append_drop 8191 body
      have hfull : (body.take 8191).length = 8191 := by
        rw [List.length_take]
        omega
      have hfront : newline ∉ body.take 8191 := fun hmem ↦ hbody (List.mem_of_mem_take hmem)
      have hback : newline ∉ body.drop 8191 := fun hmem ↦ hbody (List.mem_of_mem_drop hmem)
      have hshort : (body.drop 8191).length < length := by
        rw [List.length_drop]
        omega
      rw [← hsplit, List.append_assoc, List.append_assoc, fgetsAll_full hfront hfull,
        fgetsAll_full hfront hfull, ih _ hshort hback rfl]
      rfl

/-- The pieces of a file are the pieces of its lines. -/
theorem fgetsAll_eq_flatMap (content : List UInt8) :
    fgetsAll content = (splitLines newline content).flatMap fgetsAll := by
  induction content using lines_induction newline with
  | hnil => rw [fgetsAll, splitLines_nil, List.flatMap_nil]
  | hlast body hbody hne => rw [splitLines_of_notMem hbody hne, List.flatMap_singleton]
  | hline body rest hbody ih =>
    rw [splitLines_append_stop hbody, List.flatMap_cons, ← ih, fgetsAll_line_append hbody]

/-- The pieces of a file make it up. -/
theorem flatten_fgetsAll (content : List UInt8) : (fgetsAll content).flatten = content := by
  induction content using fgetsAll.induct with
  | case1 => rw [fgetsAll, List.flatten_nil]
  | case2 byte rest ih =>
    rw [fgetsAll, List.flatten_cons, ih]
    exact fgets_fst_append_snd (by decide) _

/-! ### A newline behind a text -/

theorem exists_of_strchr {sought : UInt8} {text found : List UInt8}
    (hfound : strchr sought text = some found) : ∃ rest, found = sought :: rest := by
  induction text with
  | nil => cases hfound
  | cons byte rest ih =>
    rw [strchr] at hfound
    split_ifs at hfound with hbyte
    · exact ⟨rest, hbyte ▸ (Option.some.inj hfound).symm⟩
    · exact ih hfound

theorem strchr_append_newline {sought : UInt8} (hsought : sought ≠ newline) (text : List UInt8) :
    strchr sought (text ++ [newline]) = (strchr sought text).map (· ++ [newline]) := by
  induction text with
  | nil => exact if_neg hsought.symm
  | cons byte rest ih =>
    rw [List.cons_append, strchr, strchr]
    split_ifs
    · rfl
    · exact ih

theorem between_append_newline (start stop : List UInt8) :
    between (start ++ [newline]) (stop ++ [newline]) = between start stop := by
  have hle : start.length - stop.length ≤ start.length := Nat.sub_le _ _
  rw [between, List.length_append, List.length_append, Nat.add_sub_add_right,
    List.take_append_of_le_length hle]
  rfl

/-- No newline makes a text start with `getText`. -/
theorem take_getText_append_newline (text : List UInt8) :
    (text ++ [newline]).take 4 ≠ getText ↔ text.take 4 ≠ getText := by
  by_cases hlength : 4 ≤ text.length
  · rw [List.take_append_of_le_length hlength]
  · have hshort : text.take 4 ≠ getText := by
      intro heq
      have hfour := congrArg List.length heq
      rw [List.length_take] at hfour
      exact hlength (le_min_iff.mp hfour.ge).2
    refine iff_of_true (fun heq ↦ ?_) hshort
    rw [List.take_of_length_le (by rw [List.length_append, List.length_singleton]; omega)] at heq
    have hnewline : newline ∈ getText := heq ▸ List.mem_append_right _ (List.mem_singleton_self _)
    exact absurd hnewline (by decide)

/-- A number ends in front of a newline. -/
theorem scanNumber_append_newline (text : List UInt8) :
    scanNumber (text ++ [newline]) =
      (scanNumber text).map fun (number, rest) ↦ (number, rest ++ [newline]) := by
  rw [scanNumber, scanNumber, List.dropWhile_append]
  rcases htext : text.dropWhile isSpace with _ | ⟨byte, more⟩
  · rfl
  · have hsign := scanSign_append (List.cons_ne_nil byte more) [newline]
    rcases hscan : scanSign (byte :: more) with ⟨sign, rest⟩
    rw [hscan] at hsign
    have htake : (rest ++ [newline]).takeWhile isDigit = rest.takeWhile isDigit := by
      rw [List.takeWhile_append]
      split_ifs with hall
      · rw [(List.takeWhile_prefix _).eq_of_length hall]
        exact List.append_nil rest
      · rfl
    have hdrop : (rest ++ [newline]).dropWhile isDigit = rest.dropWhile isDigit ++ [newline] := by
      rw [List.dropWhile_append]
      split_ifs with hall
      · rw [List.isEmpty_iff.mp hall]
        rfl
      · rfl
    simp only [List.isEmpty_cons, Bool.false_eq_true, if_false, hsign, htake, hdrop]
    split_ifs
    · rfl
    · rfl

theorem sscanfStatusSize_append_newline (text : List UInt8) :
    sscanfStatusSize (text ++ [newline]) = sscanfStatusSize text := by
  rw [sscanfStatusSize, sscanfStatusSize, scanNumber_append_newline]
  rcases scanNumber text with _ | ⟨status, rest⟩
  · rfl
  · simp only [Option.map_some, Option.bind_eq_bind, Option.bind_some, scanNumber_append_newline]
    rcases scanNumber rest with _ | ⟨size, last⟩
    · rfl
    · rfl

theorem requestPart_append_newline (line : List UInt8) :
    requestPart (line ++ [newline]) =
      (requestPart line).map fun (url, size, sizePtr) ↦ (url, size, sizePtr ++ [newline]) := by
  rw [requestPart, requestPart, strchr_append_newline (by decide)]
  rcases hquote : strchr quote line with _ | ptr
  · rfl
  obtain ⟨ptr, rfl⟩ := exists_of_strchr hquote
  simp only [Option.map_some, Option.bind_eq_bind, Option.bind_some, List.cons_append,
    List.drop_succ_cons, List.drop_zero, take_getText_append_newline]
  split_ifs with hget
  · rfl
  have hptr : ptr = getText ++ ptr.drop 4 := by
    rw [← not_not.mp hget, List.take_append_drop]
  rw [hptr, List.append_assoc]
  simp only [show ∀ text, (getText ++ text).drop 4 = text from fun _ ↦ rfl,
    strchr_append_newline (show space ≠ newline by decide)]
  rcases strchr space (ptr.drop 4) with _ | urlEnd
  · rfl
  simp only [Option.map_some, Option.bind_some, between_append_newline,
    strchr_append_newline (show quote ≠ newline by decide)]
  rcases hquoted : strchr quote urlEnd with _ | quoted
  · rfl
  obtain ⟨quoted, rfl⟩ := exists_of_strchr hquoted
  simp only [Option.map_some, Option.bind_some, List.cons_append, List.drop_succ_cons,
    List.drop_zero, strchr_append_newline (show space ≠ newline by decide)]
  rcases strchr space quoted with _ | blank
  · rfl
  simp only [Option.map_some, Option.bind_some, sscanfStatusSize_append_newline]
  rcases sscanfStatusSize blank with _ | ⟨status, size⟩
  · rfl
  · rfl

theorem refererPart_append_newline (text : List UInt8) :
    refererPart (text ++ [newline]) = refererPart text := by
  have hquote : quote ≠ newline := by decide
  rw [refererPart, refererPart, strchr_append_newline hquote]
  rcases hstart : strchr quote text with _ | refStart
  · rfl
  obtain ⟨refStart, rfl⟩ := exists_of_strchr hstart
  simp only [Option.map_some, Option.bind_eq_bind, Option.bind_some, List.cons_append,
    List.drop_succ_cons, List.drop_zero, strchr_append_newline hquote]
  rcases strchr quote refStart with _ | refEnd
  · rfl
  · simp only [Option.map_some, Option.bind_some, List.length_append, add_left_inj,
      between_append_newline]

/-- The newline of a line makes no difference to its record. -/
theorem recordOf_append_newline (line : List UInt8) :
    recordOf (line ++ [newline]) = recordOf line := by
  rw [recordOf, recordOf, requestPart_append_newline]
  rcases requestPart line with _ | ⟨url, size, sizePtr⟩
  · rfl
  · simp only [Option.map_some, refererPart_append_newline]

/-! ### The records of some texts -/

/-- The records that `parse_log_line` finds in some texts. -/
def recordsOf (texts : List (List UInt8)) : List LogRecord :=
  texts.filterMap fun text ↦ recordOf (cString text)

theorem recordsOf_append (first second : List (List UInt8)) :
    recordsOf (first ++ second) = recordsOf first ++ recordsOf second :=
  List.filterMap_append

/-- What texts do to the statistics is what their records do. -/
theorem ArrayStats.parseChunks_eq_records (allocator : Allocator) (texts : List (List UInt8))
    (stats : ArrayStats) :
    parseChunks allocator texts stats = run (addRecord allocator) stats (recordsOf texts) := by
  induction texts generalizing stats with
  | nil => rfl
  | cons text rest ih =>
    rw [parseChunks, parseLogLine_eq, recordsOf, List.filterMap_cons]
    rcases recordOf (cString text) with _ | entry
    · exact ih stats
    · simp only [Option.elim_some, run]
      rcases addRecord allocator stats entry with fault | next
      · rfl
      · exact ih next

/-- Texts in the place of others that have the same records, one by one. -/
theorem recordsOf_flatMap {lines : List (List UInt8)} {pieces : List UInt8 → List (List UInt8)}
    (hpieces : ∀ line ∈ lines, recordsOf (pieces line) = recordsOf [line]) :
    recordsOf (lines.flatMap pieces) = recordsOf lines := by
  induction lines with
  | nil => rfl
  | cons line rest ih =>
    rw [List.flatMap_cons, recordsOf_append, hpieces line List.mem_cons_self,
      ih fun other hother ↦ hpieces other (List.mem_cons_of_mem _ hother), ← recordsOf_append]
    rfl

/-- A text without the letter `G` holds no request. -/
theorem recordOf_of_notMem {text : List UInt8} (htext : (71 : UInt8) ∉ text) :
    recordOf text = none := by
  rw [recordOf, requestPart]
  rcases hquote : strchr quote text with _ | ptr
  · rfl
  · have hget : (ptr.drop 1).take 4 ≠ getText := by
      intro heq
      have hletter : (71 : UInt8) ∈ (ptr.drop 1).take 4 := heq ▸ List.mem_cons_self
      exact htext ((suffix_of_strchr hquote).subset
        (List.mem_of_mem_drop (List.mem_of_mem_take hletter)))
    simp only [Option.bind_eq_bind, Option.bind_some, if_pos hget]
    rfl

theorem recordsOf_fgetsAll_of_notMem {content : List UInt8} (hcontent : (71 : UInt8) ∉ content) :
    recordsOf (fgetsAll content) = [] := by
  refine List.filterMap_eq_nil_iff.mpr fun piece hpiece ↦ recordOf_of_notMem fun hmem ↦ ?_
  have hpieceMem : (71 : UInt8) ∈ piece := (List.takeWhile_sublist _).subset hmem
  rw [← flatten_fgetsAll content] at hcontent
  exact hcontent (List.mem_flatten.mpr ⟨piece, hpiece, hpieceMem⟩)

/-- What stands in front of the first quote does not matter. -/
theorem recordOf_append_of_notMem {front : List UInt8} (hfront : quote ∉ front)
    (text : List UInt8) : recordOf (front ++ text) = recordOf text := by
  simp only [recordOf, requestPart, strchr_append_of_notMem hfront]

/-! ### Lines that are not cut -/

/-- What stands in front of the newline of a line, or all of a last line without one. -/
def body (line : List UInt8) : List UInt8 := line.takeWhile (· ≠ newline)

theorem body_of_notMem {text : List UInt8} (htext : newline ∉ text) : body text = text := by
  refine List.takeWhile_eq_self_iff.mpr fun byte hbyte ↦ decide_eq_true ?_
  exact fun heq ↦ htext (heq ▸ hbyte)

theorem body_append_newline {text : List UInt8} (htext : newline ∉ text) :
    body (text ++ [newline]) = text := by
  have hall : ∀ byte ∈ text, decide (byte ≠ newline) = true := fun byte hbyte ↦
    decide_eq_true fun heq ↦ htext (heq ▸ hbyte)
  rw [body, List.takeWhile_append_of_pos hall, List.takeWhile_cons_of_neg (by simp),
    List.append_nil]

/-- How many bytes the lines of a file have in front of their newlines. -/
def lineLengths (content : List UInt8) : List ℕ :=
  (splitLines newline content).map fun line ↦ (body line).length

/-- The pieces of a line with at most 8191 bytes in front of its newline have its record. -/
theorem recordsOf_pieces {content line : List UInt8} (hline : line ∈ splitLines newline content)
    (hzero : (0 : UInt8) ∉ line) (hfits : (body line).length ≤ 8191) :
    recordsOf (fgetsAll line) = recordsOf [line] := by
  rcases isLine_or_of_mem_splitLines hline with ⟨text, htext, rfl⟩ | ⟨htext, hne⟩
  · rw [body_append_newline htext] at hfits
    by_cases hfull : text.length = 8191
    · -- the newline is a piece of its own
      have hpieces : fgetsAll (text ++ [newline]) = [text, [newline]] := by
        rw [fgetsAll_full htext hfull, fgetsAll_last_newline]
      have hzeroText : (0 : UInt8) ∉ text := fun hmem ↦ hzero (List.mem_append_left _ hmem)
      have hrecord : recordOf (cString (text ++ [newline])) = recordOf (cString text) := by
        rw [cString_eq_self hzero, cString_eq_self hzeroText, recordOf_append_newline]
      have hnewline : recordOf (cString [newline]) = none := by decide
      simp only [hpieces, recordsOf, List.filterMap_cons, List.filterMap_nil, hrecord, hnewline]
    · rw [fgetsAll_line htext (by omega), fgetsAll]
  · rw [body_of_notMem htext] at hfits
    rw [fgetsAll_last htext hne hfits]

/-- The pieces of a file have the records of its lines, if no line is too long. -/
theorem recordsOf_fgetsAll {content : List UInt8} (hzero : (0 : UInt8) ∉ content)
    (hfits : ∀ length ∈ lineLengths content, length ≤ 8191) :
    recordsOf (fgetsAll content) = recordsOf (splitLines newline content) := by
  rw [fgetsAll_eq_flatMap]
  refine recordsOf_flatMap fun line hline ↦ recordsOf_pieces hline (fun hmem ↦ hzero ?_)
    (hfits _ (List.mem_map_of_mem hline))
  rw [← flatten_splitLines content]
  exact List.mem_flatten.mpr ⟨line, hline, hmem⟩

/-! ### A line that is cut -/

/-- Some letters. -/
def letters (count : ℕ) : List UInt8 := List.replicate count 97

theorem notMem_letters {byte : UInt8} (hbyte : byte ≠ 97) (count : ℕ) : byte ∉ letters count :=
  fun hmem ↦ hbyte (List.eq_of_mem_replicate hmem)

/-- The fields of a line with a request whose referer ends just behind the first 8191 bytes. -/
def cutFields (rest : List UInt8) : Fields where
  pre := letters 8173
  url := [47]
  proto := [72]
  status := ascii "200"
  size := [53]
  ref := [45]
  rest := rest

/-- The request `"GET / H" 200 5 "-` as far as it is in the buffer. -/
def cutHead : List UInt8 := [34, 71, 69, 84, 32, 47, 32, 72, 34, 32, 50, 48, 48, 32, 53, 32, 34, 45]

theorem text_cutFields (rest : List UInt8) :
    (cutFields rest).text = (letters 8173 ++ cutHead) ++ (quote :: rest) := by
  have hback : quote :: (getText ++ ([47] ++ space :: ([72] ++ quote ::
      (cutFields rest).sizePart))) = cutHead ++ (quote :: rest) := rfl
  rw [List.append_assoc, Fields.text]
  exact congrArg₂ (· ++ ·) rfl hback

theorem notMem_text_cutFields {byte : UInt8} (hletter : byte ≠ 97) (hquote : byte ≠ quote)
    (hhead : byte ∉ cutHead) (count : ℕ) : byte ∉ (cutFields (letters count)).text := by
  rw [text_cutFields, List.mem_append, List.mem_append, List.mem_cons]
  rintro ((hmem | hmem) | heq | hmem)
  · exact notMem_letters hletter _ hmem
  · exact hhead hmem
  · exact hquote heq
  · exact notMem_letters hletter _ hmem

/-- A line with these fields, of some length over 8191. -/
def cutLine (length : ℕ) : LogLine where
  toFields := cutFields (letters (length - 8192))
  quote_notMem_pre := notMem_letters (by decide) _
  space_notMem_url := show space ∉ [47] by decide
  quote_notMem_proto := show quote ∉ [72] by decide
  quote_notMem_ref := show quote ∉ [45] by decide
  status_numeral := isNumeral_200
  size_numeral := show IsNumeral (2 ^ 63 - 1) [53] from
    ⟨by decide, List.all_eq_true.mp (by decide),
      le_trans (by decide : numberOf [53] ≤ 5) (by omega)⟩
  zero_notMem := notMem_text_cutFields (by decide) (by decide) (by decide) _

theorem newline_notMem_cutLine (length : ℕ) : newline ∉ (cutLine length).text :=
  notMem_text_cutFields (by decide) (by decide) (by decide) _

theorem length_letters (count : ℕ) : (letters count).length = count :=
  List.length_replicate

theorem length_cutLine {length : ℕ} (hlong : 8191 < length) :
    (cutLine length).text.length = length := by
  have hhead : cutHead.length = 18 := by decide
  have htext := congrArg List.length (text_cutFields (letters (length - 8192)))
  rw [List.length_append, List.length_append, List.length_cons, length_letters, length_letters,
    hhead] at htext
  exact htext.trans (by omega)

theorem zero_notMem_append_newline {text : List UInt8} (htext : (0 : UInt8) ∉ text) :
    (0 : UInt8) ∉ text ++ [newline] := by
  rw [List.mem_append]
  exact fun hmem ↦ hmem.elim htext (by decide)

/-- The record of the whole line. -/
theorem recordsOf_cutLine (length : ℕ) :
    recordsOf [(cutLine length).text ++ [newline]] = [⟨[47], 5, some [45]⟩] := by
  have hrecord := (cutLine length).recordOf_text
  rw [cString_eq_self (cutLine length).zero_notMem, ← recordOf_append_newline,
    ← cString_eq_self (zero_notMem_append_newline (cutLine length).zero_notMem)] at hrecord
  simp only [recordsOf, List.filterMap_cons, List.filterMap_nil, hrecord]
  rfl

/-- The pieces of the line have no referer: it is not closed in the first one. -/
theorem recordsOf_pieces_cutLine (length : ℕ) :
    recordsOf (fgetsAll ((cutLine length).text ++ [newline])) = [⟨[47], 5, none⟩] := by
  have hfront : newline ∉ letters 8173 ++ cutHead := by
    rw [List.mem_append]
    exact fun hmem ↦ hmem.elim (notMem_letters (by decide) _) (by decide)
  have hzero : (0 : UInt8) ∉ letters 8173 ++ cutHead := by
    rw [List.mem_append]
    exact fun hmem ↦ hmem.elim (notMem_letters (by decide) _) (by decide)
  have hfull : (letters 8173 ++ cutHead).length = 8191 := by
    rw [List.length_append, length_letters]
    rfl
  have hback : (71 : UInt8) ∉ quote :: letters (length - 8192) ++ [newline] := by
    rw [List.mem_append, List.mem_cons]
    rintro ((heq | hmem) | hmem)
    · exact absurd heq (by decide)
    · exact notMem_letters (by decide) _ hmem
    · exact absurd hmem (by decide)
  have hfirst : recordOf (cString (letters 8173 ++ cutHead)) = some ⟨[47], 5, none⟩ := by
    rw [cString_eq_self hzero, recordOf_append_of_notMem (notMem_letters (by decide) _)]
    decide
  have htext : (cutLine length).text ++ [newline] =
      (letters 8173 ++ cutHead) ++ (quote :: letters (length - 8192) ++ [newline]) := by
    rw [← List.append_assoc]
    exact congrArg (· ++ [newline]) (text_cutFields _)
  have hrest := recordsOf_fgetsAll_of_notMem hback
  rw [htext, fgetsAll_full hfront hfull, ← List.singleton_append, recordsOf_append, hrest]
  simp only [recordsOf, List.filterMap_cons, List.filterMap_nil, hfirst, List.append_nil]

/-! ### Files with lines of some lengths -/

/-- A file of letters but for one line that is cut. -/
def cutFile (before : List ℕ) (length : ℕ) (after : List ℕ) : List UInt8 :=
  (before.map letters ++ (cutLine length).text :: after.map letters).flatMap (· ++ [newline])

section CutFile

variable (before : List ℕ) (length : ℕ) (after : List ℕ)

theorem splitLines_cutFile : splitLines newline (cutFile before length after) =
    (before.map letters ++ (cutLine length).text :: after.map letters).map (· ++ [newline]) := by
  refine splitLines_flatMap fun text htext ↦ ?_
  rw [List.mem_append, List.mem_cons, List.mem_map, List.mem_map] at htext
  rcases htext with ⟨count, -, rfl⟩ | rfl | ⟨count, -, rfl⟩
  · exact notMem_letters (by decide) count
  · exact newline_notMem_cutLine length
  · exact notMem_letters (by decide) count

theorem zero_notMem_cutFile : (0 : UInt8) ∉ cutFile before length after := by
  intro hmem
  obtain ⟨text, htext, hzero⟩ := List.mem_flatMap.mp hmem
  refine zero_notMem_append_newline ?_ hzero
  rw [List.mem_append, List.mem_cons, List.mem_map, List.mem_map] at htext
  rcases htext with ⟨count, -, rfl⟩ | rfl | ⟨count, -, rfl⟩
  · exact notMem_letters (by decide) count
  · exact (cutLine length).zero_notMem
  · exact notMem_letters (by decide) count

theorem lineLengths_cutFile (hlong : 8191 < length) :
    lineLengths (cutFile before length after) = before ++ length :: after := by
  have hletters (counts : List ℕ) :
      ((counts.map letters).map (· ++ [newline])).map (fun line ↦ (body line).length) = counts := by
    rw [List.map_map, List.map_map]
    refine (List.map_congr_left fun count _ ↦ ?_).trans (List.map_id counts)
    rw [Function.comp_apply, Function.comp_apply,
      body_append_newline (notMem_letters (by decide) count), length_letters]
    rfl
  rw [lineLengths, splitLines_cutFile, List.map_append, List.map_append, List.map_cons,
    List.map_cons, hletters, hletters, body_append_newline (newline_notMem_cutLine length),
    length_cutLine hlong]

/-- Lines of letters have no records, whatever the pieces that they are read in. -/
theorem recordsOf_letters {pieces : List UInt8 → List (List UInt8)}
    (hpieces : ∀ text, (71 : UInt8) ∉ text → recordsOf (pieces text) = []) (counts : List ℕ) :
    recordsOf (((counts.map letters).map (· ++ [newline])).flatMap pieces) = [] := by
  induction counts with
  | nil => rfl
  | cons count rest ih =>
    have htext : (71 : UInt8) ∉ letters count ++ [newline] := by
      rw [List.mem_append]
      exact fun hmem ↦ hmem.elim (notMem_letters (by decide) count) (by decide)
    rw [List.map_cons, List.map_cons, List.flatMap_cons, recordsOf_append, ih, hpieces _ htext,
      List.append_nil]

/-- The records of the file are those of the line that is cut. -/
theorem recordsOf_flatMap_cutFile {pieces : List UInt8 → List (List UInt8)}
    (hpieces : ∀ text, (71 : UInt8) ∉ text → recordsOf (pieces text) = []) :
    recordsOf ((splitLines newline (cutFile before length after)).flatMap pieces) =
      recordsOf (pieces ((cutLine length).text ++ [newline])) := by
  rw [splitLines_cutFile, List.map_append, List.map_cons, List.flatMap_append, List.flatMap_cons,
    recordsOf_append, recordsOf_append, recordsOf_letters hpieces, recordsOf_letters hpieces,
    List.nil_append, List.append_nil]

theorem recordsOf_fgetsAll_cutFile :
    recordsOf (fgetsAll (cutFile before length after)) = [⟨[47], 5, none⟩] := by
  rw [fgetsAll_eq_flatMap, recordsOf_flatMap_cutFile _ _ _ fun _ ↦ recordsOf_fgetsAll_of_notMem,
    recordsOf_pieces_cutLine]

theorem recordsOf_splitLines_cutFile :
    recordsOf (splitLines newline (cutFile before length after)) = [⟨[47], 5, some [45]⟩] := by
  have hnone (text : List UInt8) (htext : (71 : UInt8) ∉ text) : recordsOf [text] = [] := by
    have hcString : (71 : UInt8) ∉ cString text := fun hmem ↦
      htext ((List.takeWhile_sublist _).subset hmem)
    exact List.filterMap_cons_none (recordOf_of_notMem hcString)
  have hlines := recordsOf_flatMap_cutFile before length after hnone
  rwa [List.flatMap_singleton', recordsOf_cutLine] at hlines

end CutFile

/-! ### The pieces do what the lines do -/

namespace ArrayStats

/-- `parse_log_line` for every line of a file, in order. -/
def processLines (allocator : Allocator) (content : List UInt8) (stats : ArrayStats) :
    Except MapFault ArrayStats :=
  parseChunks allocator (splitLines newline content) stats

/-- `process_file` does for a content what `parse_log_line` does line by line, whatever the
statistics before. -/
def ReadByLines (content : List UInt8) : Prop :=
  ∀ allocator files filename stats, files filename = some content →
    processFile allocator files filename stats = processLines allocator content stats

/-- The referer makes a difference to the statistics. -/
theorem not_readByLines_cutFile (before : List ℕ) (length : ℕ) (after : List ℕ) :
    ¬ReadByLines (cutFile before length after) := by
  intro hread
  have hzero := hread generous (fun _ ↦ some (cutFile before length after)) [] zero rfl
  simp only [processFile, processLines, parseChunks_eq_records, recordsOf_fgetsAll_cutFile,
    recordsOf_splitLines_cutFile] at hzero
  have hsize := congrArg (Except.map fun stats : ArrayStats ↦ stats.refMap.size) hzero
  exact absurd hsize (by decide)

/-- Whatever their lengths, the pieces of all files with lines of these lengths do what the lines do
exactly when no line has more than 8191 bytes in front of its newline. -/
theorem processFile_lines_iff (lengths : List ℕ) :
    (∀ content, (0 : UInt8) ∉ content → lineLengths content = lengths → ReadByLines content) ↔
      ∀ length ∈ lengths, length ≤ 8191 := by
  constructor
  · intro hall length hlength
    by_contra hlong
    obtain ⟨before, after, rfl⟩ := List.append_of_mem hlength
    exact not_readByLines_cutFile before length after (hall _ (zero_notMem_cutFile before length
      after) (lineLengths_cutFile before length after (by omega)))
  · rintro hfits content hzero rfl allocator files filename stats hfile
    simp only [processFile, hfile, processLines, parseChunks_eq_records,
      recordsOf_fgetsAll hzero hfits]

/-- A line of 8192 bytes, without a zero byte, whose referer is lost. -/
theorem processFile_ne_cutLine :
    (0 : UInt8) ∉ cutFile [] 8192 [] ∧ lineLengths (cutFile [] 8192 []) = [8192] ∧
      ¬ReadByLines (cutFile [] 8192 []) :=
  ⟨zero_notMem_cutFile [] 8192 [], lineLengths_cutFile [] 8192 [] (by decide),
    not_readByLines_cutFile [] 8192 []⟩

end ArrayStats

end Homework.LogParser
