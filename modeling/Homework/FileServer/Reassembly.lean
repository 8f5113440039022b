import Homework.FileServer.Buffers

/-!
# Requests put together from pieces

The data of a connection arrives in pieces, cut anywhere, and the pieces of several connections
arrive in any order. Each connection keeps its own data, and hands it on when it first contains the
end of a request (`firstComplete`). For streams without zeros that fit the buffer this happens once
for each connection, and the request line is that of the stream (`requests_reassembled`).
-/

set_option autoImplicit false
set_option relaxedAutoImplicit false

namespace Homework.FileServer

open Homework.Library.ByteBuffer Homework.Library.CString Homework.Library.StringBuffer
open Homework.Library.Runs

/-! ### Streams -/

/-- What a client sends: a request line that starts with two words that fit their arrays, and more,
with the end of a request, all of which fits the buffer. -/
structure RequestStream where
  method : Word 16
  uri : Word 256
  rest : List UInt8
  notZero : (0 : UInt8) ∉ rest
  length_lt : (method.bytes ++ 32 :: (uri.bytes ++ 32 :: rest)).length < bufferSize
  ends : crlfcrlf <:+: method.bytes ++ 32 :: (uri.bytes ++ 32 :: rest)

namespace RequestStream

variable (stream : RequestStream)

def bytes : List UInt8 := stream.method.bytes ++ 32 :: (stream.uri.bytes ++ 32 :: stream.rest)

theorem zero_notMem : (0 : UInt8) ∉ stream.bytes := by
  simp [bytes, stream.method.notZero, stream.uri.notZero, stream.notZero]

/-- The part of the stream up to the blank behind the URI holds no carriage return. -/
theorem return_notMem :
    (13 : UInt8) ∉ stream.method.bytes ++ 32 :: (stream.uri.bytes ++ [32]) := by
  have hword {size : ℕ} (word : Word size) : (13 : UInt8) ∉ word.bytes := fun hmem ↦
    absurd (word.notBlank 13 hmem) (by decide)
  simp [hword]

/-- The request line is that of the stream as soon as the end of a request has arrived. -/
theorem requestLine {request : List UInt8} (hinit : cString request <+: stream.bytes)
    (hend : crlfcrlf <:+: cString request) (environment : Environment) :
    requestLine environment request = .ok (stream.method.bytes, stream.uri.bytes) := by
  refine requestLine_eq environment ?_ stream.uri.length_lt
  have hline : stream.method.bytes ++ 32 :: (stream.uri.bytes ++ [32]) <+: stream.bytes := by
    refine ⟨stream.rest, ?_⟩
    simp [bytes]
  rcases List.prefix_or_prefix_of_prefix hinit hline with hshort | ⟨rest, hrest⟩
  · have hreturn : (13 : UInt8) ∈ cString request := hend.subset List.mem_cons_self
    exact absurd (hshort.subset hreturn) stream.return_notMem
  · rw [← hrest]
    simp only [List.append_assoc, List.cons_append, List.nil_append]
    exact scanRequest_eq stream.method stream.uri (by decide) rest

end RequestStream

/-! ### Runs -/

/-- The requests that have been handled for a descriptor. -/
def requestsOn (fd : ℤ) (trace : List Action) : List (List UInt8) :=
  trace.filterMap fun
    | .request fd' text => if fd' = fd then some text else none
    | _ => none

/-- The data up to the first piece with which it contains the end of a request. -/
def firstComplete (chunks : List (List UInt8)) : Option (List UInt8) :=
  (chunks.inits.map List.flatten).find? (crlfcrlf <:+: ·)

/-- The events of some connections, one after another. Each connection is accepted under a
descriptor of its own, and then the pieces of its stream are read from it, whenever they come. -/
inductive Interleaving (streams : ℤ → RequestStream) : List Event → Prop where
  | nil : Interleaving streams []
  | accept {events : List Event} (connfd : ℤ) (hevents : Interleaving streams events)
    (htable : InTable connfd) (hnew : ∀ event ∈ events, event.fd ≠ connfd) :
    Interleaving streams (events ++ [.accept connfd])
  | again {events : List Event} {connfd : ℤ} (environment : Environment)
    (hevents : Interleaving streams events) (hopened : .accept connfd ∈ events) :
    Interleaving streams (events ++ [.readable connfd .again environment])
  | data {events : List Event} {connfd : ℤ} (chunk : Chunk) (environment : Environment)
    (hevents : Interleaving streams events) (hopened : .accept connfd ∈ events)
    (hchunk : chunk.val ≠ [])
    (hstream : (chunks connfd events).flatten ++ chunk.val <+: (streams connfd).bytes) :
    Interleaving streams (events ++ [.readable connfd (.data chunk) environment])

section Chunks

variable {chunks : List (List UInt8)} {bytes : List UInt8}

theorem firstComplete_append :
    firstComplete (chunks ++ [bytes]) = (firstComplete chunks).or
      (if crlfcrlf <:+: (chunks ++ [bytes]).flatten then some (chunks ++ [bytes]).flatten
      else none) := by
  unfold firstComplete
  rw [List.inits_append, List.map_append, List.find?_append]
  congr 1
  simp [List.find?_singleton]

/-- What is handed on is a first part of the data and contains the end of a request. -/
theorem of_firstComplete_eq_some {text : List UInt8} (htext : firstComplete chunks = some text) :
    text <+: chunks.flatten ∧ crlfcrlf <:+: text := by
  unfold firstComplete at htext
  have hmem := List.mem_of_find?_eq_some htext
  have hend := List.find?_some htext
  rw [decide_eq_true_eq] at hend
  obtain ⟨first, hfirst, rfl⟩ := List.mem_map.mp hmem
  obtain ⟨rest, rfl⟩ := (List.mem_inits _ _).mp hfirst
  refine ⟨?_, hend⟩
  rw [List.flatten_append]
  exact List.prefix_append _ _

/-- Data that contains the end of a request is handed on. -/
theorem exists_firstComplete (hend : crlfcrlf <:+: chunks.flatten) :
    ∃ text, firstComplete chunks = some text := by
  refine Option.isSome_iff_exists.mp (List.find?_isSome.mpr ⟨chunks.flatten, ?_, ?_⟩)
  · exact List.mem_map_of_mem ((List.mem_inits _ _).mpr (List.prefix_refl _))
  · exact decide_eq_true hend

/-- Data without zeros is what its pieces leave in the buffer. -/
theorem content_eq_flatten (hzero : (0 : UInt8) ∉ chunks.flatten) :
    content chunks = chunks.flatten := by
  have hflatten : chunks.flatten = chunks.flatten ++ List.replicate 0 0 :=
    (List.append_nil _).symm
  exact content_of_flatten_eq hzero hflatten

end Chunks

theorem requestsOn_append (fd : ℤ) (first second : List Action) :
    requestsOn fd (first ++ second) = requestsOn fd first ++ requestsOn fd second :=
  List.filterMap_append

/-- `handle_request` calls itself for no connection. -/
theorem requestsOn_handleRequest {environment : Environment} {clientFd : ℤ}
    {rootDir request answer : List UInt8} {actions : List Action}
    (hrequest : request.length = bufferSize)
    (hhandle : handleRequest environment clientFd rootDir request = .ok (answer, actions))
    (fd : ℤ) : requestsOn fd actions = [] := by
  obtain ⟨method, uri, -, hspec⟩ := of_handleRequest hrequest hhandle
  split at hspec
  · cases hspec with
    | notFound hstat => rfl
    | file file hstat hfile => simp [requestsOn, sendFile]
    | notRegular file hstat hfile => rfl
    | notOpened regular hstat hfile => rfl
  · rw [hspec]
    rfl

theorem chunks_eq_nil {fd : ℤ} {events : List Event} (hevents : ∀ event ∈ events, event.fd ≠ fd) :
    chunks fd events = [] := by
  induction events using List.reverseRecOn with
  | nil => rfl
  | append_singleton events event ih =>
    have hlast : event.fd ≠ fd := hevents event (List.mem_append_right _ List.mem_cons_self)
    rw [chunks_append, chunksStep_of_ne hlast]
    exact ih fun other hother ↦ hevents other (List.mem_append_left _ hother)

/-- The data that has arrived is the start of the stream. -/
theorem Interleaving.stream {streams : ℤ → RequestStream} {events : List Event}
    (hevents : Interleaving streams events) (fd : ℤ) :
    (chunks fd events).flatten <+: (streams fd).bytes := by
  induction hevents with
  | nil => exact List.nil_prefix
  | accept connfd hevents htable hnew ih =>
    rw [chunks_append, chunksStep]
    split
    · exact List.nil_prefix
    · exact ih
  | again environment hevents hopened ih =>
    rw [chunks_append]
    exact ih
  | data chunk environment hevents hopened hchunk hstream ih =>
    rw [chunks_append, chunksStep]
    split
    · next hfd =>
      rw [← hfd, flatten_append_singleton]
      exact hstream
    · exact ih

theorem Interleaving.of_prefix {streams : ℤ → RequestStream} {before events : List Event}
    (hevents : Interleaving streams events) (hinit : before <+: events) :
    Interleaving streams before := by
  induction hevents with
  | nil =>
    rw [List.prefix_nil.mp hinit]
    exact .nil
  | accept connfd hevents htable hnew ih =>
    rcases List.prefix_concat_iff.mp hinit with rfl | hshort
    · exact .accept connfd hevents htable hnew
    · exact ih hshort
  | again environment hevents hopened ih =>
    rcases List.prefix_concat_iff.mp hinit with rfl | hshort
    · exact .again environment hevents hopened
    · exact ih hshort
  | data chunk environment hevents hopened hchunk hstream ih =>
    rcases List.prefix_concat_iff.mp hinit with rfl | hshort
    · exact .data chunk environment hevents hopened hchunk hstream
    · exact ih hshort

/-! ### Progress -/

/-- Each connection has handled its request if it is complete, and reads otherwise. -/
structure Progress (server : Server) (events : List Event) : Prop where
  requests : ∀ fd, requestsOn fd server.trace = (firstComplete (chunks fd events)).toList
  opened : ∀ fd, .accept fd ∈ events → ∃ info, server.connections fd = some info ∧
    info.readingState = (firstComplete (chunks fd events)).isNone

section Progress

variable {dir : List UInt8} {streams : ℤ → RequestStream} {server next : Server}
  {events : List Event} {event : Event}

/-- It is enough to look at the connection of the event. -/
theorem Progress.of_step {info : ConnectionInfo} {actions : List Action}
    (hprogress : Progress server events) (hstep : step dir server event = .ok next)
    (htrace : next.trace = server.trace ++ actions)
    (hothers : ∀ fd, fd ≠ event.fd → requestsOn fd actions = [])
    (hinfo : next.connections event.fd = some info)
    (hown : requestsOn event.fd next.trace =
      (firstComplete (chunks event.fd (events ++ [event]))).toList)
    (hreading : info.readingState =
      (firstComplete (chunks event.fd (events ++ [event]))).isNone) :
    Progress next (events ++ [event]) where
  requests := by
    intro fd
    by_cases hfd : fd = event.fd
    · rw [hfd, hown]
    · rw [htrace, requestsOn_append, hothers fd hfd, List.append_nil, hprogress.requests,
        chunks_append, chunksStep_of_ne (Ne.symm hfd)]
  opened := by
    intro fd hmem
    by_cases hfd : fd = event.fd
    · rw [hfd]
      exact ⟨info, hinfo, hreading⟩
    · rw [chunks_append, chunksStep_of_ne (Ne.symm hfd), step_frame hstep (Ne.symm hfd)]
      refine hprogress.opened fd ((List.mem_append.mp hmem).resolve_right fun hlast ↦ hfd ?_)
      rw [← List.mem_singleton.mp hlast]
      rfl

theorem Progress.accept {connfd : ℤ} (hprogress : Progress server events)
    (htable : InTable connfd) (hnew : ∀ event ∈ events, event.fd ≠ connfd) :
    ∃ next, FileServer.step dir server (.accept connfd) = .ok next ∧
      Progress next (events ++ [.accept connfd]) := by
  have hnone : chunks connfd events = [] := chunks_eq_nil hnew
  obtain ⟨next, hstep⟩ : ∃ next, FileServer.step dir server (.accept connfd) = .ok next := by
    rw [FileServer.step, serve_accept htable]
    exact ⟨_, rfl⟩
  obtain ⟨-, hinfo, htrace⟩ := step_accept hstep
  have hchunks : chunks connfd (events ++ [.accept connfd]) = [] := by
    rw [chunks_append, chunksStep, if_pos rfl]
  refine ⟨next, hstep, hprogress.of_step hstep htrace (fun _ _ ↦ rfl) hinfo ?_ ?_⟩
  · rw [Event.fd, htrace, requestsOn_append, hprogress.requests, hchunks, hnone]
    rfl
  · rw [Event.fd, hchunks]
    rfl

/-- An event on a connection, by its outcome. -/
theorem Progress.readable {connfd : ℤ} {result : Received} {environment : Environment}
    {info info' : ConnectionInfo} {actions : List Action} (hprogress : Progress server events)
    (hrun : run (FileServer.step dir) start events = .ok server)
    (hinfo : server.connections connfd = some info)
    (houtcome : Outcome environment dir connfd info result info' actions)
    (hothers : ∀ fd, fd ≠ connfd → requestsOn fd actions = [])
    (hown : (firstComplete (chunks connfd events)).toList ++ requestsOn connfd actions =
      (firstComplete (chunks connfd (events ++ [.readable connfd result environment]))).toList)
    (hreading : info'.readingState =
      (firstComplete (chunks connfd (events ++ [.readable connfd result environment]))).isNone) :
    ∃ next, FileServer.step dir server (.readable connfd result environment) = .ok next ∧
      Progress next (events ++ [.readable connfd result environment]) := by
  obtain ⟨next, hstep, hnew, htrace⟩ := step_of_outcome (inTable_of_run hrun hinfo) hinfo houtcome
  refine ⟨next, hstep, hprogress.of_step hstep htrace hothers hnew ?_ hreading⟩
  rw [Event.fd, htrace, requestsOn_append, hprogress.requests, hown]

/-- An event that changes nothing: nothing is there to be read, or the request has been handled. -/
theorem Progress.idle {connfd : ℤ} {result : Received} {environment : Environment}
    {info : ConnectionInfo} (hprogress : Progress server events)
    (hrun : run (FileServer.step dir) start events = .ok server)
    (hinfo : server.connections connfd = some info)
    (hreading : info.readingState = (firstComplete (chunks connfd events)).isNone)
    (houtcome : Outcome environment dir connfd info result info [])
    (hsame : firstComplete (chunks connfd (events ++ [.readable connfd result environment])) =
      firstComplete (chunks connfd events)) :
    ∃ next, FileServer.step dir server (.readable connfd result environment) = .ok next ∧
      Progress next (events ++ [.readable connfd result environment]) := by
  refine hprogress.readable hrun hinfo houtcome (fun _ _ ↦ rfl) ?_ (hsame ▸ hreading)
  rw [hsame]
  exact List.append_nil _

/-- The requests that a complete request adds. -/
theorem requestsOn_completed {environment : Environment} {connfd : ℤ}
    {request answer : List UInt8} {responses : List Action} (hrequest : request.length = bufferSize)
    (hhandle : handleRequest environment connfd dir request = .ok (answer, responses)) (fd : ℤ) :
    requestsOn fd (.request connfd (cString request) :: responses) =
      if connfd = fd then [cString request] else [] := by
  have hnothing := requestsOn_handleRequest hrequest hhandle fd
  rw [← List.singleton_append, requestsOn_append, hnothing, List.append_nil]
  by_cases hfd : connfd = fd
  · simp [requestsOn, hfd]
  · simp [requestsOn, hfd]

/-- A piece of data on a connection that is reading. -/
theorem Progress.data {connfd : ℤ} {chunk : Chunk} {environment : Environment}
    {info : ConnectionInfo} (hprogress : Progress server events)
    (hrun : run (FileServer.step dir) start events = .ok server)
    (hstream : (chunks connfd events).flatten ++ chunk.val <+: (streams connfd).bytes)
    (hinfo : server.connections connfd = some info) (hreading : info.readingState = true)
    (hnone : firstComplete (chunks connfd events) = none) (hchunk : chunk.val ≠ []) :
    ∃ next, FileServer.step dir server (.readable connfd (.data chunk) environment) = .ok next ∧
      Progress next (events ++ [.readable connfd (.data chunk) environment]) := by
  have hchunks : chunks connfd (events ++ [.readable connfd (.data chunk) environment]) =
      chunks connfd events ++ [chunk.val] := by
    rw [chunks_append, chunksStep, if_pos rfl]
  rw [← flatten_append_singleton] at hstream
  have hzero : (0 : UInt8) ∉ (chunks connfd events ++ [chunk.val]).flatten := fun hmem ↦
    (streams connfd).zero_notMem (hstream.subset hmem)
  obtain ⟨taken, htaken, hstate, hholds⟩ := (tracks_run hrun connfd info hinfo hreading).receive
    (lt_of_le_of_lt hstream.length_le (streams connfd).length_lt)
  have htext : cString taken.buffer = (chunks connfd events ++ [chunk.val]).flatten := by
    rw [hholds.cString_buffer, content_eq_flatten hzero]
  by_cases hend : crlfcrlf <:+: cString taken.buffer
  · have hline := (streams connfd).requestLine (htext.symm ▸ hstream) hend environment
    obtain ⟨answer, responses, hrequest, -⟩ :=
      handleRequest_spec connfd dir hline hholds.length_buffer
    have hcomplete : firstComplete (chunks connfd events ++ [chunk.val]) =
        some (cString taken.buffer) := by
      rw [firstComplete_append, hnone, Option.none_or, ← htext, if_pos hend]
    have hresponses := requestsOn_completed hholds.length_buffer hrequest
    refine hprogress.readable hrun hinfo
      (.completed chunk taken answer responses hreading rfl hchunk htaken hend hrequest)
      (fun fd hfd ↦ ?_) ?_ ?_
    · rw [hresponses, if_neg (Ne.symm hfd)]
    · rw [hresponses, if_pos rfl, hchunks, hcomplete, hnone]
      rfl
    · rw [hchunks, hcomplete]
      rfl
  · have hincomplete : firstComplete (chunks connfd events ++ [chunk.val]) = none := by
      rw [firstComplete_append, hnone, Option.none_or, ← htext, if_neg hend]
    refine hprogress.readable hrun hinfo
      (.appended chunk taken hreading rfl hchunk htaken hend) (fun _ _ ↦ rfl) ?_ ?_
    · rw [hchunks, hincomplete, hnone]
      rfl
    · rw [hchunks, hincomplete, hstate, hreading]
      rfl

/-- An interleaving goes through. -/
theorem progress_run (hevents : Interleaving streams events) :
    ∃ server, run (FileServer.step dir) start events = .ok server ∧ Progress server events := by
  -- it is enough to make one more step
  suffices hmore : ∀ {events event},
      (∃ server, run (FileServer.step dir) start events = .ok server ∧ Progress server events) →
      (∀ server, run (FileServer.step dir) start events = .ok server →
        Progress server events → ∃ next, FileServer.step dir server event = .ok next ∧
          Progress next (events ++ [event])) →
      ∃ server, run (FileServer.step dir) start (events ++ [event]) = .ok server ∧
        Progress server (events ++ [event]) by
    induction hevents with
    | nil =>
      refine ⟨start, rfl, fun fd ↦ rfl, fun fd hmem ↦ ?_⟩
      exact absurd hmem List.not_mem_nil
    | accept connfd hevents htable hnew ih =>
      exact hmore ih fun server _ hprogress ↦ hprogress.accept htable hnew
    | again environment hevents hopened ih =>
      refine hmore ih fun server hrun hprogress ↦ ?_
      obtain ⟨info, hinfo, hreading⟩ := hprogress.opened _ hopened
      refine hprogress.idle hrun hinfo hreading ?_ (congrArg firstComplete (chunks_append _ _ _))
      rcases hstate : info.readingState with _ | _
      · exact .closed hstate
      · exact .unread hstate rfl
    | data chunk environment hevents hopened hchunk hstream ih =>
      refine hmore ih fun server hrun hprogress ↦ ?_
      obtain ⟨info, hinfo, hreading⟩ := hprogress.opened _ hopened
      rcases hfirst : firstComplete (chunks _ _) with _ | text
      · rw [hfirst] at hreading
        exact hprogress.data hrun hstream hinfo hreading hfirst hchunk
      · have hclosed : info.readingState = false := by rw [hreading, hfirst]; rfl
        refine hprogress.idle hrun hinfo hreading (.closed hclosed) ?_
        rw [chunks_append, chunksStep, if_pos rfl, firstComplete_append, hfirst, Option.some_or]
  rintro events event ⟨server, hrun, hprogress⟩ hstep
  obtain ⟨next, hnext, hprogress'⟩ := hstep server hrun hprogress
  exact ⟨next, (run_append_singleton hrun event).trans hnext, hprogress'⟩

end Progress

/-- At every moment of an interleaving, the requests that have been handled for a connection are
none or one: the data up to the first piece with which it contains the end of a request, if it has
arrived. Its method and URI are those of the stream, and when the whole stream has arrived the
request has been handled. -/
theorem requests_reassembled (dir : List UInt8) {streams : ℤ → RequestStream} {events : List Event}
    (hevents : Interleaving streams events) (before : List Event) (hbefore : before <+: events) :
    ∃ server, run (step dir) start before = .ok server ∧ ∀ fd,
      requestsOn fd server.trace = (firstComplete (chunks fd before)).toList ∧
      (∀ request environment, cString request ∈ requestsOn fd server.trace →
        requestLine environment request =
          .ok ((streams fd).method.bytes, (streams fd).uri.bytes)) ∧
      ((chunks fd before).flatten = (streams fd).bytes →
        (requestsOn fd server.trace).length = 1) := by
  have hpart := hevents.of_prefix hbefore
  obtain ⟨server, hrun, hprogress⟩ := progress_run hpart
  refine ⟨server, hrun, fun fd ↦ ⟨hprogress.requests fd, ?_, ?_⟩⟩
  · intro request environment hmem
    rw [hprogress.requests, Option.mem_toList] at hmem
    obtain ⟨hinit, hend⟩ := of_firstComplete_eq_some hmem
    exact (streams fd).requestLine (hinit.trans (hpart.stream fd)) hend environment
  · intro hwhole
    have hends : crlfcrlf <:+: (streams fd).bytes := (streams fd).ends
    obtain ⟨text, htext⟩ := exists_firstComplete (hwhole.symm ▸ hends)
    rw [hprogress.requests, htext]
    rfl

/-! ### Two connections -/

/-- The stream `GET /a` and the end of a request. -/
def shortStream : RequestStream where
  method := get
  uri := ⟨ascii "/a", by decide, notBlank_of_all (by decide), by decide, by decide⟩
  rest := crlfcrlf
  notZero := by decide
  length_lt := by decide
  ends := by decide

/-- An event with a piece of text. -/
def arrives (connfd : ℤ) (piece : String) (hpiece : (ascii piece).length < bufferSize) : Event :=
  .readable connfd (.data ⟨ascii piece, hpiece⟩) noFiles

/-- Two connections send the same stream, cut in different places. -/
def twoConnections : List Event := [.accept 5, .accept 6,
  arrives 5 "GET /a \r\n\r" (by decide), arrives 6 "GET" (by decide),
  arrives 5 "\n" (by decide), arrives 6 " /a \r\n\r\n" (by decide)]

theorem twoConnections_interleaving : Interleaving (fun _ ↦ shortStream) twoConnections := by
  have haccepted : Interleaving (fun _ ↦ shortStream) (twoConnections.take 2) :=
    .accept 6 (.accept 5 .nil (by decide) (by simp)) (by decide) (by simp [Event.fd])
  have hfirst : Interleaving (fun _ ↦ shortStream) (twoConnections.take 3) :=
    .data _ noFiles haccepted List.mem_cons_self (by decide) (by decide)
  have hsecond : Interleaving (fun _ ↦ shortStream) (twoConnections.take 4) :=
    .data _ noFiles hfirst (List.mem_cons_of_mem _ List.mem_cons_self) (by decide) (by decide)
  have hthird : Interleaving (fun _ ↦ shortStream) (twoConnections.take 5) :=
    .data _ noFiles hsecond List.mem_cons_self (by decide) (by decide)
  exact .data _ noFiles hthird (List.mem_cons_of_mem _ List.mem_cons_self) (by decide) (by decide)

/-- Each of the two requests is handled once, and whole. -/
theorem twoConnections_handled : ∃ server,
    run (step (ascii "/srv")) start twoConnections = .ok server ∧
      requestsOn 5 server.trace = [shortStream.bytes] ∧
        requestsOn 6 server.trace = [shortStream.bytes] := by
  obtain ⟨server, hrun, hserver⟩ := requests_reassembled (ascii "/srv") twoConnections_interleaving
    twoConnections (List.prefix_refl _)
  refine ⟨server, hrun, (hserver 5).1.trans ?_, (hserver 6).1.trans ?_⟩
  · decide
  · decide

end Homework.FileServer
