import Homework.Convertor.Stream

/-!
# The end of the connection

When the peer has closed the connection, or the connection has failed, `read` writes nothing any
more, and its result is not looked at. So the loop of `read_msg` finds the same string in the buffer
for ever, and returns only if a chunk has made it return before (`readLoop_returned_iff`). `fetch`
reads two messages, and so the chunks have to stop the loop twice (`ending_iff`). Chunks without a
zero byte stop it with the first one that ends with a dot and is not shorter than any before it
(`ending_text_iff`).
-/

set_option autoImplicit false
set_option relaxedAutoImplicit false

namespace Homework.Convertor

open Homework.Library.ByteBuffer Homework.Library.CString Homework.Library.StringBuffer

/-- The results of `read` that some chunks are. -/
def dataOf (chunks : List Chunk) : List ReadResult := chunks.map .data

/-- What `read` returns when the connection has ended. -/
inductive Ended where
  | closed
  | failed

def Ended.result : Ended → ReadResult
  | .closed => .closed
  | .failed => .failed

/-- Some results of `read` after the connection has ended. -/
def endings (after : ℕ → Ended) (count : ℕ) : List ReadResult :=
  (List.range count).map fun index ↦ (after index).result

/-! ### Which chunks stop the loop -/

/-- The buffer after some chunks have been laid over it, one after another. -/
def laid (buffer : List UInt8) (chunks : List Chunk) : List UInt8 :=
  chunks.foldl (fun buffer chunk ↦ laidOver buffer chunk.bytes) buffer

/-- With the last one of some chunks the text in the buffer ends with a dot for the first time, and
with each of them there is a text. -/
structure StopsAt (buffer : List UInt8) (chunks : List Chunk) : Prop where
  ne_nil : chunks ≠ []
  hasText : ∀ before, before <+: chunks → before ≠ [] → HasText (laid buffer before)
  dot : EndsWithDot (laid buffer chunks)
  first : ∀ before, before <+: chunks → before ≠ [] → before ≠ chunks →
    ¬EndsWithDot (laid buffer before)

/-- The chunks stop the loop of `read_msg`. -/
def Stop (chunks : List Chunk) : Prop :=
  ∃ front back, chunks = front ++ back ∧ StopsAt (filled bufSize []) front

/-- The chunks stop the loop of `read_msg` twice. -/
def StopTwice (chunks : List Chunk) : Prop :=
  ∃ front middle back, chunks = front ++ (middle ++ back) ∧
    StopsAt (filled bufSize []) front ∧ StopsAt (filled bufSize []) middle

/-! ### Which calls return -/

/-- `read_msg` returns, if the connection ends after some chunks. -/
def ReadMsgReturns (print : Bool) (chunks : List Chunk) (after : ℕ → Ended) : Prop :=
  ∃ count printed rest,
    readMsg print (dataOf chunks ++ endings after count) = .ok (.returned printed rest)

def FetchReturns (fontName text : List UInt8) (chunks : List Chunk) (after : ℕ → Ended) : Prop :=
  ∃ count sent printed rest, fetch fontName text (dataOf chunks ++ endings after count) =
    .ok (.answer sent (.returned printed rest))

/-- `print_message` has returned. -/
def Printing.Done : Printing → Prop
  | .fetching (.answer _ (.returned _ _)) => True
  | .fetching (.answer _ (.waiting _)) => False
  | .fetching (.greeting _) => False
  | .unresolved => True
  | .unconnected => True

def PrintMessageReturns (resolved : Option (List Address)) (font message : List UInt8)
    (chunks : List Chunk) (after : ℕ → Ended) : Prop :=
  ∃ count printing,
    printMessage resolved font message (dataOf chunks ++ endings after count) = .ok printing ∧
      printing.Done

/-- There is an address to which `print_message` can connect. -/
def Connects (resolved : Option (List Address)) : Prop :=
  ∃ addresses, resolved = some addresses ∧
    ∃ address ∈ addresses, 0 < address.socket ∧ address.connects = true

section Returns

variable {print : Bool} {buffer : List UInt8} {chunk : Chunk} {chunks : List Chunk}
  {tail rest : List ReadResult}

/-- A condition on the beginnings of a list, for one element more. -/
theorem forall_prefix_cons_iff {first : Chunk} {holds : List Chunk → Prop} :
    (∀ before, before <+: first :: chunks → before ≠ [] → holds before) ↔
      holds [first] ∧ ∀ before, before <+: chunks → before ≠ [] → holds (first :: before) := by
  have hcons {before : List Chunk} (hbefore : before <+: chunks) :
      first :: before <+: first :: chunks := List.cons_prefix_cons.mpr ⟨rfl, hbefore⟩
  constructor
  · intro hall
    exact ⟨hall [first] (hcons List.nil_prefix) (List.cons_ne_nil _ _),
      fun before hbefore _ ↦ hall (first :: before) (hcons hbefore) (List.cons_ne_nil _ _)⟩
  · rintro ⟨hone, hmore⟩ before hbefore hne
    rcases before with _ | ⟨other, before⟩
    · exact absurd rfl hne
    · obtain ⟨rfl, hrest⟩ := List.cons_prefix_cons.mp hbefore
      rcases before with _ | ⟨second, before⟩
      · exact hone
      · exact hmore _ hrest (List.cons_ne_nil _ _)

theorem stopsAt_cons_iff : StopsAt buffer (chunk :: chunks) ↔
    HasText (laidOver buffer chunk.bytes) ∧
      if EndsWithDot (laidOver buffer chunk.bytes) then chunks = []
      else StopsAt (laidOver buffer chunk.bytes) chunks := by
  constructor
  · intro hstops
    obtain ⟨htext, hmore⟩ := forall_prefix_cons_iff.mp hstops.hasText
    obtain ⟨hfirst, hlater⟩ := forall_prefix_cons_iff.mp hstops.first
    refine ⟨htext, ?_⟩
    split
    · next hdot =>
      by_contra hne
      exact hfirst (fun heq ↦ hne (List.cons.inj heq).2.symm) hdot
    · next hdot =>
      refine ⟨?_, hmore, hstops.dot, fun before hbefore hne hall ↦ ?_⟩
      · rintro rfl
        exact hdot hstops.dot
      · exact hlater before hbefore hne fun heq ↦ hall (List.cons.inj heq).2
  · rintro ⟨htext, hrest⟩
    split at hrest
    · next hdot =>
      subst hrest
      refine ⟨List.cons_ne_nil _ _, forall_prefix_cons_iff.mpr ⟨htext, ?_⟩, hdot,
        forall_prefix_cons_iff.mpr ⟨fun hne ↦ absurd rfl hne, ?_⟩⟩
      · exact fun before hbefore hne ↦ absurd (List.prefix_nil.mp hbefore) hne
      · exact fun before hbefore hne ↦ absurd (List.prefix_nil.mp hbefore) hne
    · next hdot =>
      refine ⟨List.cons_ne_nil _ _, forall_prefix_cons_iff.mpr ⟨htext, hrest.hasText⟩, hrest.dot,
        forall_prefix_cons_iff.mpr ⟨fun _ ↦ hdot, fun before hbefore hne hall ↦ ?_⟩⟩
      exact hrest.first before hbefore hne fun heq ↦ hall (heq ▸ rfl)

/-- Whether the loop returns, for one result of `read` more. -/
theorem returned_cons_iff {result : ReadResult} {results : List ReadResult} :
    (∃ printed, readLoop print buffer (result :: results) = .ok (.returned printed rest)) ↔
      HasText (received buffer result) ∧
        if EndsWithDot (received buffer result) then rest = results
        else ∃ printed,
          readLoop print (received buffer result) results = .ok (.returned printed rest) := by
  constructor
  · rintro ⟨printed, hread⟩
    obtain ⟨htext, ⟨hdot, hreturned⟩ | ⟨hdot, later, hlater, hafter⟩⟩ := round_cases hread
    · obtain ⟨-, hrest⟩ := Reading.returned.inj hreturned
      exact ⟨htext, (if_pos hdot).mpr hrest⟩
    · cases later with
      | waiting printed' => exact absurd hafter nofun
      | returned printed' rest' =>
        obtain ⟨-, rfl⟩ := Reading.returned.inj hafter
        exact ⟨htext, (if_neg hdot).mpr ⟨printed', hlater⟩⟩
  · rintro ⟨htext, hcases⟩
    split at hcases
    · next hdot =>
      subst hcases
      exact ⟨_, readLoop_of_dot htext.1 hdot⟩
    · next hdot =>
      obtain ⟨printed, hread⟩ := hcases
      rw [readLoop_of_not_dot htext hdot, hread]
      exact ⟨_, rfl⟩

/-- After the connection has ended, the loop does not stop. -/
theorem not_returned_of_ended (hdot : ¬EndsWithDot buffer)
    (htail : ∀ result ∈ tail, ∀ buffer, received buffer result = buffer) :
    ¬∃ printed, readLoop print buffer tail = .ok (.returned printed rest) := by
  induction tail with
  | nil => exact fun ⟨_, hread⟩ ↦ absurd hread nofun
  | cons result tail ih =>
    rw [returned_cons_iff, htail result List.mem_cons_self, if_neg hdot]
    rintro ⟨-, hread⟩
    exact ih (fun other hmem ↦ htail other (List.mem_cons_of_mem _ hmem)) hread

/-- The loop returns behind the chunks that stop it. -/
theorem readLoop_returned_iff (hdot : ¬EndsWithDot buffer)
    (htail : ∀ result ∈ tail, ∀ buffer, received buffer result = buffer) :
    (∃ printed, readLoop print buffer (dataOf chunks ++ tail) = .ok (.returned printed rest)) ↔
      ∃ front back, chunks = front ++ back ∧ StopsAt buffer front ∧
        rest = dataOf back ++ tail := by
  induction chunks generalizing buffer with
  | nil =>
    refine iff_of_false (not_returned_of_ended hdot htail) ?_
    rintro ⟨front, back, hnil, hstops, -⟩
    exact hstops.ne_nil (List.append_eq_nil_iff.mp hnil.symm).1
  | cons chunk chunks ih =>
    have hchunks : dataOf (chunk :: chunks) ++ tail = .data chunk :: (dataOf chunks ++ tail) := rfl
    rw [hchunks, returned_cons_iff, received]
    constructor
    · rintro ⟨htext, hcases⟩
      split at hcases
      · next hends =>
        exact ⟨[chunk], chunks, rfl, stopsAt_cons_iff.mpr ⟨htext, (if_pos hends).mpr rfl⟩, hcases⟩
      · next hends =>
        obtain ⟨front, back, rfl, hstops, hrest⟩ := (ih hends).mp hcases
        exact ⟨chunk :: front, back, rfl,
          stopsAt_cons_iff.mpr ⟨htext, (if_neg hends).mpr hstops⟩, hrest⟩
    · rintro ⟨front, back, hsplit, hstops, hrest⟩
      rcases front with _ | ⟨first, front⟩
      · exact absurd rfl hstops.ne_nil
      rw [List.cons_append] at hsplit
      obtain ⟨rfl, rfl⟩ := List.cons.inj hsplit
      obtain ⟨htext, hcases⟩ := stopsAt_cons_iff.mp hstops
      refine ⟨htext, ?_⟩
      split at hcases
      · next hends =>
        subst hcases
        exact (if_pos hends).mpr hrest
      · next hends =>
        exact (if_neg hends).mpr ((ih hends).mpr ⟨front, back, rfl, hcases, hrest⟩)

/-- An ended connection leaves the buffer as it is. -/
theorem received_of_mem_endings {after : ℕ → Ended} {count : ℕ} {result : ReadResult}
    (hmem : result ∈ endings after count) (buffer : List UInt8) :
    received buffer result = buffer := by
  obtain ⟨index, -, rfl⟩ := List.mem_map.mp hmem
  rcases after index with _ | _
  · rfl
  · rfl

theorem readMsg_returned_iff (htail : ∀ result ∈ tail, ∀ buffer, received buffer result = buffer) :
    (∃ printed, readMsg print (dataOf chunks ++ tail) = .ok (.returned printed rest)) ↔
      ∃ front back, chunks = front ++ back ∧ StopsAt (filled bufSize []) front ∧
        rest = dataOf back ++ tail := by
  have hloop : (∃ printed, readLoop print (filled bufSize []) (dataOf chunks ++ tail) =
      .ok (.returned printed rest)) ↔ _ := readLoop_returned_iff (by decide) htail
  rw [← hloop]
  constructor
  · rintro ⟨printed, hread⟩
    obtain ⟨reading, hreading, hfinish⟩ := bind_eq_ok hread
    cases reading with
    | waiting printed' => exact absurd (Except.ok.inj hfinish) nofun
    | returned printed' rest' =>
      obtain ⟨-, rfl⟩ := Reading.returned.inj (Except.ok.inj hfinish)
      exact ⟨printed', hreading⟩
  · rintro ⟨printed, hread⟩
    rw [readMsg, hread]
    exact ⟨_, rfl⟩

variable {after : ℕ → Ended} {fontName text : List UInt8} {resolved : Option (List Address)}

theorem readMsgReturns_iff : ReadMsgReturns print chunks after ↔ Stop chunks := by
  constructor
  · rintro ⟨count, printed, rest, hread⟩
    obtain ⟨front, back, hsplit, hstops, -⟩ :=
      (readMsg_returned_iff fun _ ↦ received_of_mem_endings).mp ⟨printed, hread⟩
    exact ⟨front, back, hsplit, hstops⟩
  · rintro ⟨front, back, hsplit, hstops⟩
    obtain ⟨printed, hread⟩ := (readMsg_returned_iff fun _ ↦ received_of_mem_endings).mpr
      ⟨front, back, hsplit, hstops, rfl⟩
    exact ⟨0, printed, _, hread⟩

theorem fetchReturns_iff : FetchReturns fontName text chunks after ↔ StopTwice chunks := by
  constructor
  · rintro ⟨count, sent, printed, rest, hfetch⟩
    obtain ⟨greeting, hgreeting, hanswer⟩ := bind_eq_ok hfetch
    cases greeting with
    | waiting printed' => exact absurd (Except.ok.inj hanswer) nofun
    | returned printed' rest' =>
      obtain ⟨front, others, hsplit, hstops, rfl⟩ :=
        (readMsg_returned_iff fun _ ↦ received_of_mem_endings).mp ⟨printed', hgreeting⟩
      obtain ⟨answer, hanswer, hreturned⟩ := bind_eq_ok hanswer
      obtain ⟨-, rfl⟩ := Fetching.answer.inj (Except.ok.inj hreturned)
      obtain ⟨middle, back, rfl, hstops', -⟩ :=
        (readMsg_returned_iff fun _ ↦ received_of_mem_endings).mp ⟨printed, hanswer⟩
      exact ⟨front, middle, back, hsplit, hstops, hstops'⟩
  · rintro ⟨front, middle, back, hsplit, hstops, hstops'⟩
    have hended : ∀ result ∈ endings after 0, ∀ buffer, received buffer result = buffer :=
      fun _ ↦ received_of_mem_endings
    have hgreeting : ∃ printed, readMsg false (dataOf chunks ++ endings after 0) = _ :=
      (readMsg_returned_iff hended).mpr ⟨front, middle ++ back, hsplit, hstops, rfl⟩
    have hanswer : ∃ printed, readMsg true (dataOf (middle ++ back) ++ endings after 0) = _ :=
      (readMsg_returned_iff hended).mpr ⟨middle, back, rfl, hstops', rfl⟩
    obtain ⟨greeting, hgreeting⟩ := hgreeting
    obtain ⟨printed, hanswer⟩ := hanswer
    refine ⟨0, message fontName text, printed, dataOf back ++ endings after 0, ?_⟩
    rw [fetch, hgreeting, ok_bind]
    simp only [hanswer, ok_bind, pure_eq_ok]

theorem printMessageReturns_iff : PrintMessageReturns resolved fontName text chunks after ↔
    (Connects resolved → StopTwice chunks) := by
  rcases resolved with _ | addresses
  · exact iff_of_true ⟨0, .unresolved, rfl, trivial⟩ fun ⟨_, hnone, _⟩ ↦ absurd hnone nofun
  · have hconnects : (addresses.any fun address ↦ 0 < address.socket && address.connects) = true ↔
        Connects (some addresses) := by
      simp [Connects]
    unfold PrintMessageReturns printMessage
    by_cases hany : (addresses.any fun address ↦ 0 < address.socket && address.connects) = true
    · rw [forall_prop_of_true (hconnects.mp hany), ← @fetchReturns_iff chunks after fontName text]
      simp only [if_pos hany]
      constructor
      · rintro ⟨count, printing, hprinting, hdone⟩
        obtain ⟨fetching, hfetching, hreturned⟩ := bind_eq_ok hprinting
        obtain rfl := Except.ok.inj hreturned
        rcases fetching with greeting | ⟨sent, printed | ⟨printed, rest⟩⟩
        · exact absurd hdone id
        · exact absurd hdone id
        · exact ⟨count, sent, printed, rest, hfetching⟩
      · rintro ⟨count, sent, printed, rest, hfetch⟩
        refine ⟨count, .fetching (.answer sent (.returned printed rest)), ?_, trivial⟩
        rw [hfetch]
        rfl
    · simp only [if_neg hany]
      exact iff_of_true ⟨0, .unconnected, rfl, trivial⟩ fun hall ↦ absurd (hconnects.mpr hall) hany

end Returns

/-- When the connection ends after some chunks, `read_msg` returns exactly when the chunks have
stopped it, `fetch` when they have stopped two messages, and `print_message` then or without a
connection. -/
theorem ending_iff (chunks : List Chunk) (after : ℕ → Ended) :
    (∀ print, ReadMsgReturns print chunks after ↔ Stop chunks) ∧
    (∀ fontName text, FetchReturns fontName text chunks after ↔ StopTwice chunks) ∧
    ∀ resolved font message, PrintMessageReturns resolved font message chunks after ↔
      (Connects resolved → StopTwice chunks) :=
  ⟨fun _ ↦ readMsgReturns_iff, fun _ _ ↦ fetchReturns_iff, fun _ _ _ ↦ printMessageReturns_iff⟩

/-! ### Chunks of text -/

/-- The last one of some chunks of text is the first that ends with a dot and is as long as every
chunk before it, and as the text that was in the buffer, and no chunk fills the buffer. -/
def StopsFrom : ℕ → List TextChunk → Prop
  | _, [] => False
  | length, chunk :: rest =>
    chunk.bytes.length < bufSize ∧
      if length ≤ chunk.bytes.length ∧ chunk.Ends then rest = []
      else StopsFrom (max length chunk.bytes.length) rest

section Texts

variable {text : List UInt8} {chunk : TextChunk}

/-- The text that a chunk is laid over ends with a dot when the chunk does and covers all of it. -/
theorem getLast?_append_drop_eq_dot_iff (hdot : text.getLast? ≠ some dot) :
    (chunk.bytes ++ text.drop chunk.bytes.length).getLast? = some dot ↔
      text.length ≤ chunk.bytes.length ∧ chunk.Ends := by
  rcases le_or_gt text.length chunk.bytes.length with hlong | hshort
  · rw [List.drop_eq_nil_of_le hlong, List.append_nil, and_iff_right hlong]
    exact Iff.rfl
  · have hrest : text.drop chunk.bytes.length ≠ [] := fun hnil ↦
      absurd (List.drop_eq_nil_iff.mp hnil) (not_le.mpr hshort)
    rw [List.getLast?_append_of_ne_nil _ hrest, List.getLast?_drop, if_neg (not_le.mpr hshort)]
    exact iff_of_false hdot fun hboth ↦ absurd hboth.1 (not_le.mpr hshort)

/-- Chunks of text stop the loop by their lengths and their last bytes. -/
theorem stopsAt_filled_iff (hzero : (0 : UInt8) ∉ text) (htext : text.length < bufSize)
    (hdot : text.getLast? ≠ some dot) (chunks : List TextChunk) :
    StopsAt (filled bufSize text) (chunks.map TextChunk.toChunk) ↔
      StopsFrom text.length chunks := by
  induction chunks generalizing text with
  | nil => exact iff_of_false (fun hstops ↦ hstops.ne_nil rfl) id
  | cons chunk rest ih =>
    rw [List.map_cons, stopsAt_cons_iff, StopsFrom]
    rcases lt_or_ge chunk.bytes.length bufSize with hchunk | hchunk
    · have hcontent : chunk.bytes ++ text.drop chunk.bytes.length ≠ [] :=
        List.append_ne_nil_of_left_ne_nil (List.ne_nil_of_length_pos chunk.pos) _
      have hclean : (0 : UInt8) ∉ chunk.bytes ++ text.drop chunk.bytes.length :=
        zero_notMem_append_drop hzero
      have hlength := length_append_drop text chunk
      have hfits : (chunk.bytes ++ text.drop chunk.bytes.length).length < bufSize := by
        rw [hlength]
        exact max_lt htext hchunk
      have hlaid : laidOver (filled bufSize text) chunk.bytes =
          filled bufSize (chunk.bytes ++ text.drop chunk.bytes.length) :=
        received_filled htext hchunk
      have hhas : HasText (filled bufSize (chunk.bytes ++ text.drop chunk.bytes.length)) := by
        rw [HasText, cString_filled hclean hfits, filled_eq hfits]
        exact ⟨List.mem_append_right _ List.mem_cons_self, hcontent⟩
      have hends : EndsWithDot (filled bufSize (chunk.bytes ++ text.drop chunk.bytes.length)) ↔
          text.length ≤ chunk.bytes.length ∧ chunk.Ends := by
        rw [EndsWithDot, cString_filled hclean hfits, getLast?_append_drop_eq_dot_iff hdot]
      rw [hlaid, and_iff_right hhas, and_iff_right hchunk]
      by_cases hstop : text.length ≤ chunk.bytes.length ∧ chunk.Ends
      · rw [if_pos (hends.mpr hstop), if_pos hstop, List.map_eq_nil_iff]
      · have hnot := mt (getLast?_append_drop_eq_dot_iff hdot).mp hstop
        rw [if_neg (mt hends.mp hstop), if_neg hstop, ih hclean hfits hnot, hlength]
    · have hfull := not_hasText_of_full htext hchunk
      exact iff_of_false (fun hboth ↦ hfull hboth.1) fun hboth ↦ absurd hboth.1 (not_lt.mpr hchunk)

/-- Chunks of text stop a message by their lengths and their last bytes. -/
theorem stopsAt_text_iff (chunks : List TextChunk) :
    StopsAt (filled bufSize []) (chunks.map TextChunk.toChunk) ↔ StopsFrom 0 chunks :=
  stopsAt_filled_iff List.not_mem_nil (by decide) nofun chunks

/-- When the connection ends after some chunks of text, whether the functions return depends on the
lengths of the chunks and on their last bytes. -/
theorem ending_text_iff (chunks : List TextChunk) (after : ℕ → Ended) :
    (∀ print, ReadMsgReturns print (chunks.map TextChunk.toChunk) after ↔
      ∃ front back, chunks = front ++ back ∧ StopsFrom 0 front) ∧
    ∀ fontName text, FetchReturns fontName text (chunks.map TextChunk.toChunk) after ↔
      ∃ front middle back, chunks = front ++ (middle ++ back) ∧ StopsFrom 0 front ∧
        StopsFrom 0 middle := by
  refine ⟨fun print ↦ readMsgReturns_iff.trans ⟨?_, ?_⟩,
    fun fontName text ↦ fetchReturns_iff.trans ⟨?_, ?_⟩⟩
  · rintro ⟨_, _, hsplit, hstops⟩
    obtain ⟨front, back, rfl, rfl, rfl⟩ := List.map_eq_append_iff.mp hsplit
    exact ⟨front, back, rfl, (stopsAt_text_iff front).mp hstops⟩
  · rintro ⟨front, back, rfl, hstops⟩
    exact ⟨_, _, List.map_append, (stopsAt_text_iff front).mpr hstops⟩
  · rintro ⟨_, _, _, hsplit, hstops, hstops'⟩
    obtain ⟨front, later, rfl, rfl, hlater⟩ := List.map_eq_append_iff.mp hsplit
    obtain ⟨middle, back, rfl, rfl, rfl⟩ := List.map_eq_append_iff.mp hlater
    exact ⟨front, middle, back, rfl, (stopsAt_text_iff front).mp hstops,
      (stopsAt_text_iff middle).mp hstops'⟩
  · rintro ⟨front, middle, back, rfl, hstops, hstops'⟩
    refine ⟨_, _, back.map TextChunk.toChunk, ?_, (stopsAt_text_iff front).mpr hstops,
      (stopsAt_text_iff middle).mpr hstops'⟩
    rw [List.map_append, List.map_append]

end Texts

/-- The connection ends behind the letter `a`, which is found in the buffer for ever. -/
theorem letter_not_returned :
    ¬∀ chunks (after : ℕ → Ended), ReadMsgReturns true chunks after := by
  intro hall
  obtain ⟨front, back, hsplit, hstops⟩ := readMsgReturns_iff.mp
    (hall [⟨ascii "a", by decide, by decide⟩] fun _ ↦ .closed)
  rcases front with _ | ⟨chunk, front⟩
  · exact hstops.ne_nil rfl
  · obtain ⟨rfl, hnil⟩ := List.cons.inj hsplit
    obtain ⟨rfl, -⟩ := List.append_eq_nil_iff.mp hnil.symm
    exact absurd hstops.dot (by decide)

end Homework.Convertor
