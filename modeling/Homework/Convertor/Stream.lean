import Homework.Convertor.Reading
import Mathlib.Data.List.Chain

/-!
# Printing what the server sends

`read_msg` is to print what it receives, up to the first chunk that ends with a dot (`expected`).
Each chunk is laid over what the earlier ones left in the buffer, and a longer one leaves its end
there, which is printed again. So what is printed is at least as long as what is received, and
longer as soon as a chunk is shorter than one before it; a chunk that fills the buffer leaves no
room for a terminator. In all other cases the stream is printed as it is (`prints_stream_iff`).
-/

set_option autoImplicit false
set_option relaxedAutoImplicit false

namespace Homework.Convertor

open Homework.Library.ByteBuffer Homework.Library.CString Homework.Library.StringBuffer

/-- A chunk of text. -/
structure TextChunk extends Chunk where
  notZero : (0 : UInt8) ∉ bytes

namespace TextChunk

/-- The chunk ends with a dot. -/
def Ends (chunk : TextChunk) : Prop := chunk.bytes.getLast? = some dot

instance (chunk : TextChunk) : Decidable chunk.Ends := inferInstanceAs (Decidable (_ = _))

/-- The results of `read` that some chunks are. -/
def results (chunks : List TextChunk) : List ReadResult :=
  chunks.map fun chunk ↦ .data chunk.toChunk

end TextChunk

/-- What the loop of `read_msg` is to do: to print the chunks up to the first one that ends with a
dot, and to return right behind it. -/
def expected : List TextChunk → Reading
  | [] => .waiting []
  | chunk :: rest =>
    if chunk.Ends then .returned chunk.bytes (TextChunk.results rest)
    else (expected rest).after chunk.bytes

/-- `read_msg` prints the stream as it is, without an index outside the buffer. -/
def PrintsStream (chunks : List TextChunk) : Prop :=
  readMsg true (TextChunk.results chunks) = .ok ((expected chunks).finish true)

/-- The chunks up to the first one that ends with a dot. -/
def upToEnd : List TextChunk → List TextChunk
  | [] => []
  | chunk :: rest => if chunk.Ends then [chunk] else chunk :: upToEnd rest

/-- No chunk fills the buffer or is shorter than the one before it, up to the first one that ends
with a dot. -/
def Grows (chunks : List TextChunk) : Prop :=
  (∀ chunk ∈ upToEnd chunks, chunk.bytes.length < bufSize) ∧
    ((upToEnd chunks).map (·.bytes.length)).IsChain (· ≤ ·)

section Stream

variable {text : List UInt8} {chunks : List TextChunk} {chunk : TextChunk} {reading : Reading}

/-! ### Lengths -/

/-- The number of bytes of a result of `read`. -/
def ReadResult.size : ReadResult → ℕ
  | .data chunk => chunk.bytes.length
  | .closed => 0
  | .failed => 0

/-- The number of bytes that have been printed or not been read. -/
def Reading.volume : Reading → ℕ
  | .waiting printed => printed.length
  | .returned printed rest => printed.length + (rest.map ReadResult.size).sum

theorem Reading.volume_after (text : List UInt8) (reading : Reading) :
    (reading.after text).volume = text.length + reading.volume := by
  cases reading with
  | waiting printed => exact List.length_append
  | returned printed rest =>
    rw [after, volume, volume, List.length_append, Nat.add_assoc]

theorem Reading.after_injective (text : List UInt8) :
    Function.Injective (Reading.after text) := by
  intro first second heq
  cases first with
  | waiting printed =>
    cases second with
    | waiting printed' => rw [List.append_cancel_left (Reading.waiting.inj heq)]
    | returned printed' rest' => exact absurd heq nofun
  | returned printed rest =>
    cases second with
    | waiting printed' => exact absurd heq nofun
    | returned printed' rest' =>
      obtain ⟨hprinted, rfl⟩ := Reading.returned.inj heq
      rw [List.append_cancel_left hprinted]

theorem sum_size_results (chunks : List TextChunk) :
    ((TextChunk.results chunks).map ReadResult.size).sum =
      (chunks.map (·.bytes.length)).sum := by
  rw [TextChunk.results, List.map_map]
  rfl

theorem volume_expected (chunks : List TextChunk) :
    (expected chunks).volume = (chunks.map (·.bytes.length)).sum := by
  induction chunks with
  | nil => rfl
  | cons chunk rest ih =>
    rw [expected, List.map_cons, List.sum_cons]
    split
    · rw [Reading.volume, sum_size_results]
    · rw [Reading.volume_after, ih]

/-- The string of a buffer that starts with a chunk. -/
theorem cString_received (buffer : List UInt8) (chunk : TextChunk) :
    cString (received buffer (.data chunk.toChunk)) =
      chunk.bytes ++ cString (buffer.drop chunk.bytes.length) := by
  have hpos : ∀ byte ∈ chunk.bytes, decide (byte ≠ 0) = true :=
    fun byte hbyte ↦ decide_eq_true fun hzero ↦ chunk.notZero (hzero ▸ hbyte)
  rw [received, laidOver, cString, List.takeWhile_append_of_pos hpos]
  rfl

/-- At least what is received is printed. -/
theorem sum_le_volume {buffer : List UInt8}
    (hread : readLoop true buffer (TextChunk.results chunks) = .ok reading) :
    (chunks.map (·.bytes.length)).sum ≤ reading.volume := by
  induction chunks generalizing buffer reading with
  | nil => exact Nat.zero_le _
  | cons chunk rest ih =>
    have hlength :
        chunk.bytes.length ≤ (cString (received buffer (.data chunk.toChunk))).length := by
      rw [cString_received, List.length_append]
      exact Nat.le_add_right _ _
    rw [List.map_cons, List.sum_cons]
    rcases (round_cases hread).2 with ⟨-, rfl⟩ | ⟨-, later, hlater, rfl⟩
    · rw [Reading.volume]
      change _ ≤ _ + ((TextChunk.results rest).map ReadResult.size).sum
      rw [sum_size_results]
      exact Nat.add_le_add_right hlength _
    · rw [Reading.volume_after]
      exact Nat.add_le_add hlength (ih hlater)

/-! ### The buffer -/

/-- The text that a chunk is laid over has no zero byte and the longer length. -/
theorem zero_notMem_append_drop (hzero : (0 : UInt8) ∉ text) :
    (0 : UInt8) ∉ chunk.bytes ++ text.drop chunk.bytes.length := by
  rw [List.mem_append, not_or]
  exact ⟨chunk.notZero, fun hmem ↦ hzero (List.mem_of_mem_drop hmem)⟩

theorem length_append_drop (text : List UInt8) (chunk : TextChunk) :
    (chunk.bytes ++ text.drop chunk.bytes.length).length =
      max text.length chunk.bytes.length := by
  rw [List.length_append, List.length_drop]
  omega

/-- A chunk that does not fill the buffer is laid over its content. -/
theorem received_filled (htext : text.length < bufSize) (hchunk : chunk.bytes.length < bufSize) :
    received (filled bufSize text) (.data chunk.toChunk) =
      filled bufSize (chunk.bytes ++ text.drop chunk.bytes.length) := by
  have hzeros : bufSize - text.length - (chunk.bytes.length - text.length) =
      bufSize - (chunk.bytes ++ text.drop chunk.bytes.length).length := by
    rw [List.length_append, List.length_drop]
    omega
  rw [received, laidOver, filled, filled, List.drop_append, List.drop_replicate, hzeros,
    List.append_assoc]

/-- A chunk that fills the buffer leaves no terminator. -/
theorem not_hasText_of_full (htext : text.length < bufSize)
    (hchunk : bufSize ≤ chunk.bytes.length) :
    ¬HasText (received (filled bufSize text) (.data chunk.toChunk)) := by
  have hlength : (filled bufSize text).length ≤ chunk.bytes.length := by
    rw [length_filled htext.le]
    exact hchunk
  rw [received, laidOver, List.drop_eq_nil_of_le hlength, List.append_nil]
  exact fun htext ↦ chunk.notZero htext.1

theorem mem_upToEnd_cons (chunk : TextChunk) (rest : List TextChunk) :
    ∃ more, upToEnd (chunk :: rest) = chunk :: more := by
  rw [upToEnd]
  split
  · exact ⟨[], rfl⟩
  · exact ⟨_, rfl⟩

/-- What is behind a chunk that is shorter than the content is printed again. -/
theorem readLoop_ne_expected {rest : List TextChunk} (hzero : (0 : UInt8) ∉ text)
    (htext : text.length < bufSize) (hshort : chunk.bytes.length < text.length) :
    readLoop true (filled bufSize text) (TextChunk.results (chunk :: rest)) ≠
      .ok (expected (chunk :: rest)) := by
  have hchunk := hshort.trans htext
  have hcontent : (chunk.bytes ++ text.drop chunk.bytes.length).length = text.length :=
    (length_append_drop text chunk).trans (max_eq_left hshort.le)
  have hcontentZero : (0 : UInt8) ∉ chunk.bytes ++ text.drop chunk.bytes.length :=
    zero_notMem_append_drop hzero
  intro hread
  have hvolume := volume_expected (chunk :: rest)
  rw [List.map_cons, List.sum_cons] at hvolume
  rcases (round_cases hread).2 with ⟨-, hreturned⟩ | ⟨-, later, hlater, hafter⟩
  · rw [hreturned, if_pos rfl, Reading.volume] at hvolume
    change _ + ((TextChunk.results rest).map ReadResult.size).sum = _ at hvolume
    rw [sum_size_results, received_filled htext hchunk,
      cString_filled hcontentZero (hcontent ▸ htext), hcontent] at hvolume
    omega
  · rw [hafter, if_pos rfl, Reading.volume_after, received_filled htext hchunk,
      cString_filled hcontentZero (hcontent ▸ htext), hcontent] at hvolume
    have hlower := sum_le_volume hlater
    omega

/-- A chunk that is not shorter than the content is the new content. -/
theorem received_of_long (hchunk : chunk.bytes.length < bufSize)
    (hlong : text.length ≤ chunk.bytes.length) :
    received (filled bufSize text) (.data chunk.toChunk) = filled bufSize chunk.bytes := by
  rw [received_filled (hlong.trans_lt hchunk) hchunk, List.drop_eq_nil_of_le hlong,
    List.append_nil]

theorem hasText_filled (hchunk : chunk.bytes.length < bufSize) :
    HasText (filled bufSize chunk.bytes) := by
  refine ⟨?_, ?_⟩
  · rw [filled_eq hchunk]
    exact List.mem_append_right _ List.mem_cons_self
  · rw [cString_filled chunk.notZero hchunk]
    exact List.ne_nil_of_length_pos chunk.pos

theorem endsWithDot_filled_iff (hchunk : chunk.bytes.length < bufSize) :
    EndsWithDot (filled bufSize chunk.bytes) ↔ chunk.Ends := by
  rw [EndsWithDot, cString_filled chunk.notZero hchunk, TextChunk.Ends]

/-- The loop stops with a chunk that is the new content and ends with a dot. -/
theorem readLoop_of_ends {rest : List TextChunk} (hchunk : chunk.bytes.length < bufSize)
    (hlong : text.length ≤ chunk.bytes.length) (hends : chunk.Ends) :
    readLoop true (filled bufSize text) (TextChunk.results (chunk :: rest)) =
      .ok (expected (chunk :: rest)) := by
  have hreceived := received_of_long hchunk hlong
  have hhas := hasText_filled hchunk
  have hdot := (endsWithDot_filled_iff hchunk).mpr hends
  rw [← hreceived] at hhas hdot
  change readLoop true _ (.data chunk.toChunk :: TextChunk.results rest) = _
  rw [readLoop_of_dot hhas.1 hdot, hreceived, cString_filled chunk.notZero hchunk, expected,
    if_pos hends]
  rfl

/-- The loop goes on with a chunk that is the new content and does not end with a dot. -/
theorem readLoop_eq_expected_cons_iff {rest : List TextChunk}
    (hchunk : chunk.bytes.length < bufSize) (hlong : text.length ≤ chunk.bytes.length)
    (hends : ¬chunk.Ends) :
    readLoop true (filled bufSize text) (TextChunk.results (chunk :: rest)) =
        .ok (expected (chunk :: rest)) ↔
      readLoop true (filled bufSize chunk.bytes) (TextChunk.results rest) =
        .ok (expected rest) := by
  have hreceived := received_of_long hchunk hlong
  have hhas := hasText_filled hchunk
  have hdot := mt (endsWithDot_filled_iff hchunk).mp hends
  rw [← hreceived] at hhas hdot
  change readLoop true _ (.data chunk.toChunk :: TextChunk.results rest) = _ ↔ _
  rw [readLoop_of_not_dot hhas hdot, hreceived, cString_filled chunk.notZero hchunk, expected,
    if_neg hends]
  constructor
  · intro hread
    obtain ⟨later, hlater, hafter⟩ := bind_eq_ok hread
    rw [hlater, Reading.after_injective _ (Except.ok.inj hafter)]
  · intro hread
    rw [hread]
    rfl

/-- From a buffer whose content does not end with a dot, the stream is printed as it is exactly when
no chunk fills the buffer or is shorter than the content or the chunk before it, up to the first one
that ends with a dot. -/
theorem readLoop_eq_expected_iff (hzero : (0 : UInt8) ∉ text) (htext : text.length < bufSize)
    (chunks : List TextChunk) :
    readLoop true (filled bufSize text) (TextChunk.results chunks) = .ok (expected chunks) ↔
      (∀ chunk ∈ upToEnd chunks, chunk.bytes.length < bufSize) ∧
        (text.length :: (upToEnd chunks).map (·.bytes.length)).IsChain (· ≤ ·) := by
  induction chunks generalizing text with
  | nil => exact iff_of_true rfl ⟨fun _ hmem ↦ absurd hmem List.not_mem_nil, .singleton _⟩
  | cons chunk rest ih =>
    obtain ⟨more, hmore⟩ := mem_upToEnd_cons chunk rest
    rcases lt_or_ge chunk.bytes.length bufSize with hchunk | hchunk
    · rcases lt_or_ge chunk.bytes.length text.length with hshort | hlong
      · refine iff_of_false (readLoop_ne_expected hzero htext hshort) fun hgrows ↦ ?_
        rw [hmore, List.map_cons, List.isChain_cons_cons] at hgrows
        exact absurd hgrows.2.1 (not_le.mpr hshort)
      · by_cases hends : chunk.Ends
        · rw [upToEnd, if_pos hends]
          refine iff_of_true (readLoop_of_ends hchunk hlong hends) ⟨fun other hmem ↦ ?_, ?_⟩
          · exact List.mem_singleton.mp hmem ▸ hchunk
          · exact List.isChain_cons_cons.mpr ⟨hlong, .singleton _⟩
        · rw [readLoop_eq_expected_cons_iff hchunk hlong hends, ih chunk.notZero hchunk, upToEnd,
            if_neg hends, List.map_cons, List.isChain_cons_cons, List.forall_mem_cons,
            and_iff_right hchunk, and_iff_right hlong]
    · refine iff_of_false (fun hread ↦ ?_) fun hgrows ↦ ?_
      · obtain ⟨fault, hfault⟩ := readLoop_of_not_hasText (not_hasText_of_full htext hchunk)
        exact absurd (hfault.symm.trans hread) nofun
      · exact absurd (hgrows.1 chunk (hmore ▸ List.mem_cons_self)) (not_lt.mpr hchunk)

theorem Reading.finish_injective (print : Bool) : Function.Injective (Reading.finish print) := by
  intro first second heq
  cases first with
  | waiting printed =>
    cases second with
    | waiting printed' => exact heq
    | returned printed' rest' => exact absurd heq nofun
  | returned printed rest =>
    cases second with
    | waiting printed' => exact absurd heq nofun
    | returned printed' rest' =>
      obtain ⟨hprinted, rfl⟩ := Reading.returned.inj heq
      rw [List.append_cancel_right hprinted]

/-- The line that is ended behind the loop says nothing about the loop. -/
theorem printsStream_iff_readLoop (chunks : List TextChunk) :
    PrintsStream chunks ↔
      readLoop true (filled bufSize []) (TextChunk.results chunks) = .ok (expected chunks) := by
  rw [PrintsStream, readMsg]
  constructor
  · intro hread
    obtain ⟨reading, hreading, hfinish⟩ := bind_eq_ok hread
    rw [hreading, Reading.finish_injective true (Except.ok.inj hfinish)]
  · intro hread
    rw [hread]
    rfl

end Stream

/-- `read_msg` prints the stream as it is exactly when no chunk fills the buffer or is shorter than
the one before it, up to the first one that ends with a dot. -/
theorem prints_stream_iff (chunks : List TextChunk) : PrintsStream chunks ↔ Grows chunks := by
  rw [printsStream_iff_readLoop, readLoop_eq_expected_iff List.not_mem_nil (by decide), Grows]
  refine and_congr_right fun _ ↦ ?_
  rcases upToEnd chunks with _ | ⟨chunk, more⟩
  · exact iff_of_true (.singleton _) .nil
  · rw [List.map_cons, List.isChain_cons_cons]
    exact and_iff_right (Nat.zero_le _)

/-- `abc`, and then `d.`. -/
def shorterEnd : List TextChunk :=
  [⟨⟨ascii "abc", by decide, by decide⟩, by decide⟩,
    ⟨⟨ascii "d.", by decide, by decide⟩, by decide⟩]

/-- The `c` is printed twice, and the dot is overlooked. -/
theorem shorterEnd_not_printed : ¬∀ chunks, PrintsStream chunks := by
  intro hall
  have hread := (printsStream_iff_readLoop shorterEnd).mp (hall shorterEnd)
  rw [readLoop_eq_expected_iff List.not_mem_nil (by decide)] at hread
  exact absurd hread.2 (by decide)

end Homework.Convertor
