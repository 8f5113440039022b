import Homework.FileServer.EventLoop

/-!
# The buffer of a connection

`strncat` appends behind the first zero of the buffer, and copies a piece of data up to its first
zero; the terminator goes behind all the data. So the buffer of a reading connection is filled with
the strings that start the pieces (`Holds`), which is all the data if there is no zero before its
end. Nothing limits the total: when it reaches the size of the buffer, the terminator lands outside.
`buffersSafe_iff` says which runs avoid both.
-/

set_option autoImplicit false
set_option relaxedAutoImplicit false

namespace Homework.FileServer

open Homework.Library.ByteBuffer Homework.Library.CString Homework.Library.StringBuffer
open Homework.Library.Runs

/-! ### The pieces of data -/

def chunksStep (fd : ℤ) (chunks : List (List UInt8)) : Event → List (List UInt8)
  | .accept connfd => if connfd = fd then [] else chunks
  | .readable connfd (.data chunk) _ => if connfd = fd then chunks ++ [chunk.val] else chunks
  | .readable _ .again _ => chunks
  | .readable _ .failed _ => chunks

/-- The data that has arrived on a descriptor since it was accepted, piece by piece. -/
def chunks (fd : ℤ) (events : List Event) : List (List UInt8) := events.foldl (chunksStep fd) []

theorem chunks_append (fd : ℤ) (events : List Event) (event : Event) :
    chunks fd (events ++ [event]) = chunksStep fd (chunks fd events) event := by
  rw [chunks, List.foldl_append]
  rfl

theorem chunksStep_of_ne {fd : ℤ} {event : Event} (hfd : event.fd ≠ fd)
    (chunks : List (List UInt8)) : chunksStep fd chunks event = chunks := by
  rcases event with connfd | ⟨connfd, _ | _ | chunk, environment⟩
  · exact if_neg hfd
  · rfl
  · rfl
  · exact if_neg hfd

/-- The strings that start the pieces. -/
def content (chunks : List (List UInt8)) : List UInt8 := chunks.flatMap cString

section Content

variable {chunks : List (List UInt8)} {bytes : List UInt8}

theorem zero_notMem_content : (0 : UInt8) ∉ content chunks := by
  rw [content, List.mem_flatMap]
  rintro ⟨chunk, -, hzero⟩
  exact zero_notMem_cString chunk hzero

theorem content_append : content (chunks ++ [bytes]) = content chunks ++ cString bytes := by
  rw [content, List.flatMap_append, List.flatMap_singleton]
  rfl

theorem flatten_append_singleton : (chunks ++ [bytes]).flatten = chunks.flatten ++ bytes := by
  rw [List.flatten_append, List.flatten_singleton]

theorem length_content_le : (content chunks).length ≤ chunks.flatten.length := by
  induction chunks with
  | nil => exact le_refl _
  | cons first rest ih =>
    rw [content, List.flatMap_cons, List.flatten_cons, List.length_append, List.length_append]
    exact add_le_add (length_cString_le first) ih

/-- Behind the first zero there are only zeros. -/
def ZerosLast (bytes : List UInt8) : Prop := bytes = filled bytes.length (cString bytes)

instance (bytes : List UInt8) : Decidable (ZerosLast bytes) :=
  inferInstanceAs (Decidable (_ = _))

/-- Data with all its zeros at the end consists of the strings that start its pieces, and zeros. -/
theorem content_of_flatten_eq {text : List UInt8} {count : ℕ} (htext : (0 : UInt8) ∉ text)
    (hflatten : chunks.flatten = text ++ List.replicate count 0) : content chunks = text := by
  induction chunks generalizing text count with
  | nil => exact (List.append_eq_nil_iff.mp hflatten.symm).1.symm
  | cons first rest ih =>
    rw [List.flatten_cons, List.append_eq_append_iff] at hflatten
    change cString first ++ content rest = text
    rcases hflatten with ⟨more, rfl, hrest⟩ | ⟨zeros, rfl, hzeros⟩
    · rw [List.mem_append, not_or] at htext
      rw [cString_eq_self htext.1, ih htext.2 hrest]
    · obtain ⟨-, hfirst, hrest⟩ := List.append_eq_replicate_iff.mp hzeros.symm
      have hnone : content rest = [] := ih List.not_mem_nil hrest
      rw [hfirst, cString_append_replicate htext, hnone, List.append_nil]

theorem flatten_eq_filled_iff :
    chunks.flatten = filled chunks.flatten.length (content chunks) ↔ ZerosLast chunks.flatten := by
  constructor
  · intro heq
    have hstring : cString chunks.flatten = content chunks := by
      rw [heq]
      exact cString_append_replicate zero_notMem_content _
    rwa [ZerosLast, hstring]
  · intro hlast
    have hcontent : content chunks = cString chunks.flatten :=
      content_of_flatten_eq (zero_notMem_cString _) hlast
    rwa [hcontent]

end Content

/-! ### The buffer -/

/-- A connection has taken some pieces of data. -/
structure Holds (info : ConnectionInfo) (chunks : List (List UInt8)) : Prop where
  buffer : info.buffer = filled bufferSize (content chunks)
  currentLength : info.currentLength = chunks.flatten.length
  length_lt : chunks.flatten.length < bufferSize

section Holds

variable {info : ConnectionInfo} {chunks : List (List UInt8)} {bytes : List UInt8}

theorem holds_newConnection (fd : ℤ) : Holds (newConnection fd) [] where
  buffer := rfl
  currentLength := rfl
  length_lt := by decide

theorem Holds.content_lt (hholds : Holds info chunks) : (content chunks).length < bufferSize :=
  lt_of_le_of_lt length_content_le hholds.length_lt

theorem Holds.length_buffer (hholds : Holds info chunks) : info.buffer.length = bufferSize := by
  rw [hholds.buffer, length_filled hholds.content_lt.le]

theorem Holds.cString_buffer (hholds : Holds info chunks) :
    cString info.buffer = content chunks := by
  rw [hholds.buffer, cString_filled zero_notMem_content hholds.content_lt]

/-- A piece of data that fits. -/
theorem Holds.receive (hholds : Holds info chunks)
    (hfits : (chunks ++ [bytes]).flatten.length < bufferSize) :
    ∃ next, receive info bytes = .ok next ∧ next.readingState = info.readingState ∧
      Holds next (chunks ++ [bytes]) := by
  have hcontent : (content (chunks ++ [bytes])).length < bufferSize :=
    lt_of_le_of_lt length_content_le hfits
  have hlength : info.currentLength + bytes.length = (chunks ++ [bytes]).flatten.length := by
    rw [hholds.currentLength, flatten_append_singleton, List.length_append]
  rw [content_append] at hcontent
  refine ⟨⟨info.fd, info.readingState, filled bufferSize (content (chunks ++ [bytes])),
    (chunks ++ [bytes]).flatten.length⟩, ?_, rfl, rfl, rfl, hfits⟩
  have htake : bytes.take bytes.length = bytes := List.take_length
  have happend := strncat_filled zero_notMem_content hholds.content_lt (htake.symm ▸ hcontent)
  rw [htake] at happend
  have hterminate := writeByte_filled length_content_le hfits
  rw [content_append] at hterminate
  simp only [FileServer.receive, hholds.buffer, happend, ok_bind, hlength, hterminate,
    content_append, pure_eq_ok]

/-- A piece of data that does not fit. -/
theorem Holds.receive_overrun (hholds : Holds info chunks)
    (hfull : bufferSize ≤ (chunks ++ [bytes]).flatten.length) :
    ∃ fault, FileServer.receive info bytes = .error fault := by
  have hlength : info.currentLength + bytes.length = (chunks ++ [bytes]).flatten.length := by
    rw [hholds.currentLength, flatten_append_singleton, List.length_append]
  have htake : bytes.take bytes.length = bytes := List.take_length
  by_cases hroom : (content chunks ++ cString (bytes.take bytes.length)).length < bufferSize
  · have happend := strncat_filled zero_notMem_content hholds.content_lt hroom
    have hterminate : writeByte (filled bufferSize (content chunks ++ cString bytes))
        (chunks ++ [bytes]).flatten.length 0 =
          .error (.outside (chunks ++ [bytes]).flatten.length) := by
      rw [writeByte, length_filled (htake ▸ hroom.le), if_neg (not_lt.mpr hfull)]
    rw [htake] at happend
    refine ⟨.outside (chunks ++ [bytes]).flatten.length, ?_⟩
    simp only [FileServer.receive, hholds.buffer, happend, ok_bind, hlength, hterminate,
      error_bind]
  · have happend := strncat_filled_of_le zero_notMem_content hholds.content_lt (not_lt.mp hroom)
    refine ⟨.outside bufferSize, ?_⟩
    simp only [FileServer.receive, hholds.buffer, happend, error_bind]

end Holds

/-! ### Runs -/

/-- The connections that are reading hold the data that has arrived. -/
def Tracks (server : Server) (events : List Event) : Prop :=
  ∀ fd info, server.connections fd = some info → info.readingState = true →
    Holds info (chunks fd events)

section Tracks

variable {dir : List UInt8} {server next : Server} {events : List Event} {event : Event}

theorem holds_append_nil {info : ConnectionInfo} {chunks : List (List UInt8)}
    (hholds : Holds info chunks) : Holds info (chunks ++ [[]]) := by
  have hflatten : (chunks ++ [[]]).flatten = chunks.flatten := by
    rw [flatten_append_singleton, List.append_nil]
  have hcontent : content (chunks ++ [[]]) = content chunks := by
    rw [content_append]
    exact List.append_nil _
  exact ⟨hcontent ▸ hholds.buffer, hflatten ▸ hholds.currentLength, hflatten ▸ hholds.length_lt⟩

/-- A piece of data that has been received has fitted. -/
theorem Holds.of_receive {info received : ConnectionInfo} {chunks : List (List UInt8)}
    {bytes : List UInt8} (hholds : Holds info chunks)
    (hreceived : FileServer.receive info bytes = .ok received) :
    Holds received (chunks ++ [bytes]) := by
  by_cases hfits : (chunks ++ [bytes]).flatten.length < bufferSize
  · obtain ⟨next, hnext, -, hholds'⟩ := hholds.receive hfits
    rw [hreceived] at hnext
    exact Except.ok.inj hnext ▸ hholds'
  · obtain ⟨fault, hfault⟩ := hholds.receive_overrun (not_lt.mp hfits)
    rw [hreceived] at hfault
    exact absurd hfault nofun

theorem Tracks.of_step (htracks : Tracks server events) (hstep : step dir server event = .ok next) :
    Tracks next (events ++ [event]) := by
  intro fd info hinfo hreading
  rw [chunks_append]
  by_cases hfd : event.fd = fd
  · subst hfd
    cases event with
    | accept connfd =>
      obtain ⟨-, hnew, -⟩ := step_accept hstep
      obtain rfl := Option.some.inj (hnew.symm.trans hinfo)
      rw [chunksStep, Event.fd, if_pos rfl]
      exact holds_newConnection connfd
    | readable connfd result environment =>
      obtain ⟨-, before, after, actions, hbefore, houtcome, hafter, -⟩ := step_readable hstep
      obtain rfl := Option.some.inj (hafter.symm.trans hinfo)
      have hholds := htracks connfd before hbefore
      cases houtcome with
      | closed hclosed => exact absurd hreading (hclosed ▸ Bool.false_ne_true)
      | unread _ hresult =>
        subst hresult
        exact hholds hreading
      | ended _ hresult =>
        rcases hresult with rfl | ⟨chunk, rfl, hchunk⟩
        · exact hholds hreading
        · rw [chunksStep, Event.fd, if_pos rfl, hchunk]
          exact holds_append_nil (hholds hreading)
      | appended chunk _ hbefore' hresult _ hreceived _ =>
        subst hresult
        rw [chunksStep, Event.fd, if_pos rfl]
        exact (hholds hbefore').of_receive hreceived
      | completed => exact absurd hreading Bool.false_ne_true
  · rw [chunksStep_of_ne hfd]
    exact htracks fd info ((step_frame hstep hfd).symm.trans hinfo) hreading

theorem tracks_run (hrun : run (FileServer.step dir) start events = .ok server) :
    Tracks server events := by
  induction events using List.reverseRecOn generalizing server with
  | nil =>
    obtain rfl := Except.ok.inj hrun
    intro fd info hinfo
    exact absurd hinfo (Option.some_ne_none _).symm
  | append_singleton events event ih =>
    obtain ⟨middle, hmiddle, hstep⟩ := of_run_append_singleton_eq_ok hrun
    exact (ih hmiddle).of_step hstep

end Tracks

/-! ### Safe runs -/

/-- The data that has arrived on a descriptor since it was accepted. -/
def received (fd : ℤ) (events : List Event) : List UInt8 := (chunks fd events).flatten

/-- The buffers of the reading connections start with the data that has arrived, and have room for
the terminator. -/
def Intact (server : Server) (events : List Event) : Prop :=
  ∀ fd info, server.connections fd = some info → info.readingState = true →
    info.currentLength < bufferSize ∧
      info.buffer.take info.currentLength = received fd events

/-- No write of the run lands outside a buffer, and the buffers are intact in all its states. -/
def BuffersSafe (dir : List UInt8) (events : List Event) : Prop :=
  ∀ before, before <+: events →
    (∀ fault, run (step dir) start before ≠ .error (.buffer fault)) ∧
      ∀ server, run (step dir) start before = .ok server → Intact server before

/-- A piece of data does no harm to the connection that receives it: with it the data stays shorter
than the buffer, and all zeros of the data are at its end, unless the string in the buffer then
contains the end of a request. -/
def Harmless (server : Server) (before : List Event) : Event → Prop
  | .readable connfd (.data chunk) _ => ∀ info, server.connections connfd = some info →
    info.readingState = true →
      (received connfd before ++ chunk.val).length < bufferSize ∧
        (ZerosLast (received connfd before ++ chunk.val) ∨
          crlfcrlf <:+: cString info.buffer ++ cString chunk.val)
  | .accept _ => True
  | .readable _ .again _ => True
  | .readable _ .failed _ => True

/-- Every piece of data that a run receives is harmless. -/
def AllHarmless (dir : List UInt8) (events : List Event) : Prop :=
  ∀ before event after, events = before ++ event :: after →
    ∀ server, run (step dir) start before = .ok server → Harmless server before event

section Safe

variable {dir : List UInt8} {server next : Server} {events : List Event} {event : Event}

/-- A buffer starts with its data exactly when the zeros of the data are at its end. -/
theorem Holds.intact_iff {info : ConnectionInfo} {chunks : List (List UInt8)}
    (hholds : Holds info chunks) :
    info.buffer.take info.currentLength = chunks.flatten ↔ ZerosLast chunks.flatten := by
  rw [← flatten_eq_filled_iff, hholds.buffer, hholds.currentLength,
    take_filled length_content_le hholds.length_lt.le, eq_comm]
  rfl

theorem Tracks.intact_iff (htracks : Tracks server events) :
    Intact server events ↔ ∀ fd info, server.connections fd = some info →
      info.readingState = true → ZerosLast (received fd events) := by
  refine forall₄_congr fun fd info hinfo hreading ↦ ?_
  have hholds := htracks fd info hinfo hreading
  rw [received, ← hholds.intact_iff, and_iff_right]
  exact hholds.currentLength.trans_lt hholds.length_lt

/-- A write outside a buffer happens exactly when a reading connection receives data that does not
fit. -/
theorem Tracks.buffer_iff (htracks : Tracks server events) :
    (∃ fault, step dir server event = .error (.buffer fault)) ↔
      ∃ connfd chunk environment info, event = .readable connfd (.data chunk) environment ∧
        InTable connfd ∧ server.connections connfd = some info ∧ info.readingState = true ∧
          bufferSize ≤ (received connfd events ++ chunk.val).length := by
  constructor
  · rintro ⟨fault, hfault⟩
    obtain ⟨connfd, chunk, environment, info, hevent, htable, hinfo, hreading, -, hreceive⟩ :=
      step_eq_buffer_iff.mp hfault
    refine ⟨connfd, chunk, environment, info, hevent, htable, hinfo, hreading, ?_⟩
    by_contra hfits
    rw [not_le, received, ← flatten_append_singleton] at hfits
    obtain ⟨next, hnext, -⟩ := (htracks connfd info hinfo hreading).receive hfits
    exact absurd (hnext.symm.trans hreceive) nofun
  · rintro ⟨connfd, chunk, environment, info, hevent, htable, hinfo, hreading, hfull⟩
    have hholds := htracks connfd info hinfo hreading
    have hchunk : chunk.val ≠ [] := by
      intro hnil
      rw [hnil, List.append_nil] at hfull
      exact absurd hholds.length_lt (not_lt.mpr hfull)
    rw [received, ← flatten_append_singleton] at hfull
    obtain ⟨fault, hfault⟩ := hholds.receive_overrun hfull
    exact ⟨fault, step_eq_buffer_iff.mpr
      ⟨connfd, chunk, environment, info, hevent, htable, hinfo, hreading, hchunk, hfault⟩⟩

/-- What is in the buffer after a piece of data. -/
theorem Holds.cString_receive {info taken : ConnectionInfo} {chunks : List (List UInt8)}
    {bytes : List UInt8} (hholds : Holds info chunks)
    (hreceive : FileServer.receive info bytes = .ok taken) :
    cString taken.buffer = cString info.buffer ++ cString bytes := by
  rw [(hholds.of_receive hreceive).cString_buffer, content_append, hholds.cString_buffer]

theorem received_append_data {connfd : ℤ} {chunk : Chunk} {environment : Environment} :
    received connfd (events ++ [.readable connfd (.data chunk) environment]) =
      received connfd events ++ chunk.val := by
  rw [received, chunks_append, chunksStep, if_pos rfl, flatten_append_singleton, received]

/-- In a safe run every piece of data is harmless. -/
theorem BuffersSafe.allHarmless (hsafe : BuffersSafe dir events) : AllHarmless dir events := by
  rintro before event after rfl server hserver
  have htracks := tracks_run hserver
  have hzeros := htracks.intact_iff.mp
    ((hsafe before (List.prefix_append _ _)).2 server hserver)
  have hinit : before ++ [event] <+: before ++ event :: after :=
    ⟨after, List.append_assoc _ _ _⟩
  obtain ⟨hfits, hintact⟩ := hsafe (before ++ [event]) hinit
  rw [run_append_singleton hserver] at hfits hintact
  rcases event with connfd | ⟨connfd, _ | _ | chunk, environment⟩
  · trivial
  · trivial
  · trivial
  intro info hinfo hreading
  have htable := inTable_of_run hserver hinfo
  have hholds := htracks connfd info hinfo hreading
  have hlength : (received connfd before ++ chunk.val).length < bufferSize := by
    by_contra hfull
    obtain ⟨fault, hfault⟩ := htracks.buffer_iff.mpr
      ⟨connfd, chunk, environment, info, rfl, htable, hinfo, hreading, not_lt.mp hfull⟩
    exact hfits fault hfault
  refine ⟨hlength, ?_⟩
  by_cases hchunk : chunk.val = []
  · rw [hchunk, List.append_nil]
    exact Or.inl (hzeros connfd info hinfo hreading)
  · rw [received, ← flatten_append_singleton] at hlength
    obtain ⟨taken, htaken, hstate, -⟩ := hholds.receive hlength
    rw [← hholds.cString_receive htaken, or_iff_not_imp_right]
    intro hend
    obtain ⟨next, hnext, hnew, -⟩ := step_of_outcome htable hinfo
      (.appended chunk taken hreading rfl hchunk htaken hend)
    have hzeros' := (htracks.of_step hnext).intact_iff.mp (hintact next hnext) connfd taken hnew
      (hstate.trans hreading)
    rwa [received_append_data] at hzeros'

/-- A harmless event keeps the buffers intact. -/
theorem Intact.of_step (hintact : Intact server events) (htracks : Tracks server events)
    (hharmless : Harmless server events event) (hstep : step dir server event = .ok next) :
    Intact next (events ++ [event]) := by
  have hzeros := htracks.intact_iff.mp hintact
  refine (htracks.of_step hstep).intact_iff.mpr fun fd info hinfo hreading ↦ ?_
  by_cases hfd : event.fd = fd
  · subst hfd
    cases event with
    | accept connfd =>
      rw [received, chunks_append, chunksStep, Event.fd, if_pos rfl]
      rfl
    | readable connfd result environment =>
      obtain ⟨-, before, after, actions, hbefore, houtcome, hafter, -⟩ := step_readable hstep
      obtain rfl := Option.some.inj (hafter.symm.trans hinfo)
      cases houtcome with
      | closed hclosed => exact absurd hreading (hclosed ▸ Bool.false_ne_true)
      | unread _ hresult =>
        subst hresult
        rw [received, chunks_append]
        exact hzeros connfd before hbefore hreading
      | ended _ hresult =>
        rcases hresult with rfl | ⟨chunk, rfl, hchunk⟩
        · rw [received, chunks_append]
          exact hzeros connfd before hbefore hreading
        · rw [Event.fd, received_append_data, hchunk, List.append_nil]
          exact hzeros connfd before hbefore hreading
      | appended chunk _ hbefore' hresult _ hreceived hend =>
        subst hresult
        rw [(htracks connfd before hbefore hbefore').cString_receive hreceived] at hend
        rw [Event.fd, received_append_data]
        exact (hharmless before hbefore hbefore').2.resolve_right hend
      | completed => exact absurd hreading Bool.false_ne_true
  · rw [received, chunks_append, chunksStep_of_ne hfd]
    exact hzeros fd info ((step_frame hstep hfd).symm.trans hinfo) hreading

/-- A run in which every piece of data is harmless is safe. -/
theorem AllHarmless.buffersSafe (hharmless : AllHarmless dir events) : BuffersSafe dir events := by
  intro before
  induction before using List.reverseRecOn with
  | nil =>
    refine fun _ ↦ ⟨fun fault ↦ nofun, fun server hserver ↦ ?_⟩
    obtain rfl := Except.ok.inj hserver
    intro fd info hinfo
    exact absurd hinfo (Option.some_ne_none _).symm
  | append_singleton before event ih =>
    rintro ⟨after, hafter⟩
    rw [List.append_assoc] at hafter
    obtain ⟨hfits, hintact⟩ := ih ⟨_, hafter⟩
    rcases hrun : run (step dir) start before with found | server
    · rw [run_append_of_error hrun]
      refine ⟨fun fault heq ↦ ?_, fun server ↦ nofun⟩
      exact hfits fault (hrun.trans heq)
    · have hevent := hharmless before event after hafter.symm server hrun
      have htracks := tracks_run hrun
      rw [run_append_singleton hrun]
      refine ⟨fun fault hfault ↦ ?_, fun next hnext ↦
        (hintact server hrun).of_step htracks hevent hnext⟩
      obtain ⟨connfd, chunk, environment, info, rfl, -, hinfo, hreading, hfull⟩ :=
        htracks.buffer_iff.mp ⟨fault, hfault⟩
      exact absurd (hevent info hinfo hreading).1 (not_lt.mpr hfull)

/-- The buffers are safe in a run exactly when every piece of data it receives is harmless. -/
theorem buffersSafe_iff (dir : List UInt8) (events : List Event) :
    BuffersSafe dir events ↔ AllHarmless dir events :=
  ⟨BuffersSafe.allHarmless, AllHarmless.buffersSafe⟩

end Safe

/-! ### A buffer that overflows -/

def noFiles : Environment where
  stat := fun _ ↦ none
  fopen := fun _ ↦ none
  method := []
  uri := []
  beyond := List.replicate 5 0
  length_beyond := length_zeros

/-- A connection on which as many letters arrive as `recv` takes, and then one more. -/
def manyLetters : Chunk := ⟨List.replicate 8191 65, by rw [List.length_replicate]; decide⟩

def oneLetter : Chunk := ⟨[65], by decide⟩

theorem overflow_not_safe : ¬BuffersSafe (ascii "/srv")
    [.accept 5, .readable 5 (.data manyLetters) noFiles,
      .readable 5 (.data oneLetter) noFiles] := by
  intro hsafe
  have hletters : ([] ++ [manyLetters.val]).flatten.length < bufferSize := by
    rw [flatten_append_singleton]
    exact manyLetters.property
  obtain ⟨taken, htaken, hreading, -⟩ := (holds_newConnection 5).receive hletters
  have hend : ¬crlfcrlf <:+: cString taken.buffer := by
    intro hinfix
    have hmem : (13 : UInt8) ∈ cString taken.buffer := hinfix.subset List.mem_cons_self
    rw [(holds_newConnection 5).cString_receive htaken, (holds_newConnection 5).cString_buffer,
      List.mem_append] at hmem
    rcases hmem with hmem | hmem
    · exact absurd hmem List.not_mem_nil
    · exact absurd (List.eq_of_mem_replicate ((List.takeWhile_sublist _).subset hmem)) (by decide)
  have hnonempty : manyLetters.val ≠ [] :=
    List.ne_nil_of_length_pos (by rw [manyLetters, List.length_replicate]; decide)
  obtain ⟨accepted, haccepted⟩ : ∃ server, step (ascii "/srv") start (.accept 5) = .ok server :=
    ⟨_, rfl⟩
  obtain ⟨htable, hinfo, -⟩ := step_accept haccepted
  obtain ⟨next, hnext, hnew, -⟩ : ∃ next, step (ascii "/srv") accepted
      (.readable 5 (.data manyLetters) noFiles) = .ok next ∧ next.connections 5 = some taken ∧
        next.trace = accepted.trace ++ [] :=
    step_of_outcome htable hinfo (.appended manyLetters taken rfl rfl hnonempty htaken hend)
  have hrun : run (step (ascii "/srv")) start
      [.accept 5, .readable 5 (.data manyLetters) noFiles] = .ok next := by
    rw [run_cons_of_ok haccepted, run_cons_of_ok hnext]
    rfl
  have hreceived : received 5 [.accept 5, .readable 5 (.data manyLetters) noFiles] =
      manyLetters.val := by
    simp [received, chunks, chunksStep]
  have hharmless := hsafe.allHarmless [.accept 5, .readable 5 (.data manyLetters) noFiles]
    (.readable 5 (.data oneLetter) noFiles) [] rfl next hrun
  have hlength := (hharmless taken hnew (hreading.trans rfl)).1
  rw [hreceived, List.length_append] at hlength
  have hmany : manyLetters.val.length = 8191 := List.length_replicate
  rw [hmany] at hlength
  exact absurd hlength (lt_irrefl _)

end Homework.FileServer
