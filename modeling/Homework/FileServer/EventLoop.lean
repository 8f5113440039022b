import Homework.FileServer.Request
import Homework.Library.Runs
import Mathlib.Data.List.Induction
import Mathlib.Data.List.Infix
import Mathlib.Logic.Function.Basic

/-!
# The event loop

The loop of `start_server` handles one event after another. An event comes with the results of the
system calls that are made for it: the descriptor from `accept`, or what `recv` gets. The array of
connections is indexed by descriptors; an index outside the array is a fault, and so is a write
behind the end of a connection's buffer.

`chunks` are the pieces of data that have arrived on a descriptor since it was accepted. As long as
a connection is reading, its buffer is filled with the strings that start the pieces, and its length
is that of all the data (`Tracks`).
-/

set_option autoImplicit false
set_option relaxedAutoImplicit false

namespace Homework.FileServer

open Homework.Library.ByteBuffer Homework.Library.CString Homework.Library.StringBuffer
open Homework.Library.Runs

/-! ### Connections -/

def maxEvents : ℕ := 10

structure ConnectionInfo where
  fd : ℤ
  readingState : Bool
  buffer : List UInt8
  currentLength : ℕ

/-- `{ .fd = connfd, .reading_state = 1 }`. -/
def newConnection (connfd : ℤ) : ConnectionInfo where
  fd := connfd
  readingState := true
  buffer := filled bufferSize []
  currentLength := 0

/-- The data of one `recv`, of at most `BUFFER_SIZE - 1` bytes. -/
abbrev Chunk := { bytes : List UInt8 // bytes.length < bufferSize }

/-- What `recv` returns: -1 with `EAGAIN`, -1 with another error, or data, which is empty if the
peer has closed the connection. -/
inductive Received where
  | again
  | failed
  | data (chunk : Chunk)

/-- What can go wrong: an index outside the array of connections, an element of it that was never
written, a write outside the buffer of a connection, or a fault in `handle_request`. -/
inductive ServerFault where
  | table (index : ℤ)
  | uninitialised (index : ℤ)
  | buffer (fault : Fault)
  | request (fault : Fault)
deriving DecidableEq, Repr

/-- `"\r\n\r\n"`. -/
def crlfcrlf : List UInt8 := [13, 10, 13, 10]

/-- The data is appended to the buffer of the connection. -/
def receive (info : ConnectionInfo) (bytes : List UInt8) : Except Fault ConnectionInfo := do
  let appended ← strncat info.buffer bytes bytes.length
  let currentLength := info.currentLength + bytes.length
  let terminated ← writeByte appended currentLength 0
  return { info with buffer := terminated, currentLength := currentLength }

/-- The data of a connection that is reading. -/
def receiveData (environment : Environment) (dir : List UInt8) (connfd : ℤ)
    (info : ConnectionInfo) (bytes : List UInt8) :
    Except ServerFault (ConnectionInfo × List Action) :=
  match receive info bytes with
  | .error fault => .error (.buffer fault)
  | .ok next =>
    if crlfcrlf <:+: cString next.buffer then
      match handleRequest environment connfd dir next.buffer with
      | .error fault => .error (.request fault)
      | .ok (answer, actions) =>
        .ok ({ next with buffer := answer, readingState := false },
          .request connfd (cString next.buffer) :: actions)
    else .ok (next, [])

/-- An event on a connection. -/
def serveConnection (environment : Environment) (dir : List UInt8) (connfd : ℤ)
    (info : ConnectionInfo) (result : Received) :
    Except ServerFault (ConnectionInfo × List Action) :=
  if info.readingState then
    match result with
    | .again => .ok (info, [])
    | .failed => .ok (info, [.close connfd])
    | .data chunk =>
      if chunk.val = [] then .ok (info, [.close connfd])
      else receiveData environment dir connfd info chunk.val
  else .ok (info, [])

/-! ### The loop -/

/-- An event, with the results of the system calls: `accept` on the listening socket, or `recv` on a
connection. -/
inductive Event where
  | accept (connfd : ℤ)
  | readable (connfd : ℤ) (result : Received) (environment : Environment)

/-- The descriptor of an event. -/
def Event.fd : Event → ℤ
  | .accept connfd => connfd
  | .readable connfd _ _ => connfd

/-- The array of connections. Elements that were never written are `none`. -/
abbrev Table := ℤ → Option ConnectionInfo

/-- An index of the array. -/
def InTable (index : ℤ) : Prop := 0 ≤ index ∧ index < maxEvents

instance (index : ℤ) : Decidable (InTable index) := inferInstanceAs (Decidable (_ ∧ _))

/-- The body of the loop. -/
def serve (dir : List UInt8) (connections : Table) :
    Event → Except ServerFault (Table × List Action)
  | .accept connfd =>
    if InTable connfd then
      .ok (Function.update connections connfd (some (newConnection connfd)), [.register connfd])
    else .error (.table connfd)
  | .readable connfd result environment =>
    if InTable connfd then
      match connections connfd with
      | none => .error (.uninitialised connfd)
      | some info =>
        match serveConnection environment dir connfd info result with
        | .error fault => .error fault
        | .ok (next, actions) =>
          .ok (Function.update connections connfd (some next), actions)
    else .error (.table connfd)

/-- The array, and what the server has done. -/
structure Server where
  connections : Table
  trace : List Action

def step (dir : List UInt8) (server : Server) (event : Event) : Except ServerFault Server :=
  match serve dir server.connections event with
  | .error fault => .error fault
  | .ok (connections, actions) => .ok ⟨connections, server.trace ++ actions⟩

def start : Server := ⟨fun _ ↦ none, []⟩

/-! ### What an event does -/

section Outcome

variable {environment : Environment} {dir : List UInt8} {connfd : ℤ} {info next : ConnectionInfo}
  {result : Received} {actions : List Action}

/-- What an event on a connection leads to: nothing is appended, or data is, which may complete a
request. -/
inductive Outcome (environment : Environment) (dir : List UInt8) (connfd : ℤ)
    (info : ConnectionInfo) (result : Received) : ConnectionInfo → List Action → Prop where
  | closed (hreading : info.readingState = false) :
    Outcome environment dir connfd info result info []
  | unread (hreading : info.readingState = true) (hresult : result = .again) :
    Outcome environment dir connfd info result info []
  | ended (hreading : info.readingState = true)
    (hresult : result = .failed ∨ ∃ chunk, result = .data chunk ∧ chunk.val = []) :
    Outcome environment dir connfd info result info [.close connfd]
  | appended (chunk : Chunk) (received : ConnectionInfo) (hreading : info.readingState = true)
    (hresult : result = .data chunk) (hchunk : chunk.val ≠ [])
    (hreceived : receive info chunk.val = .ok received)
    (hend : ¬crlfcrlf <:+: cString received.buffer) :
    Outcome environment dir connfd info result received []
  | completed (chunk : Chunk) (received : ConnectionInfo) (answer : List UInt8)
    (responses : List Action) (hreading : info.readingState = true)
    (hresult : result = .data chunk) (hchunk : chunk.val ≠ [])
    (hreceived : receive info chunk.val = .ok received)
    (hend : crlfcrlf <:+: cString received.buffer)
    (hrequest : handleRequest environment connfd dir received.buffer = .ok (answer, responses)) :
    Outcome environment dir connfd info result
      { received with buffer := answer, readingState := false }
      (.request connfd (cString received.buffer) :: responses)

theorem outcome_of_receiveData {chunk : Chunk} (hreading : info.readingState = true)
    (hchunk : chunk.val ≠ [])
    (hdata : receiveData environment dir connfd info chunk.val = .ok (next, actions)) :
    Outcome environment dir connfd info (.data chunk) next actions := by
  unfold receiveData at hdata
  rcases hreceived : receive info chunk.val with fault | received
  · simp [hreceived] at hdata
  · simp only [hreceived] at hdata
    split at hdata
    · next hend =>
      rcases hrequest : handleRequest environment connfd dir received.buffer with
        fault | ⟨answer, responses⟩
      · simp [hrequest] at hdata
      · simp only [hrequest] at hdata
        obtain ⟨rfl, rfl⟩ := Prod.mk.inj (Except.ok.inj hdata)
        exact .completed chunk received answer responses hreading rfl hchunk hreceived hend hrequest
    · next hend =>
      obtain ⟨rfl, rfl⟩ := Prod.mk.inj (Except.ok.inj hdata)
      exact .appended chunk received hreading rfl hchunk hreceived hend

theorem outcome_of_serveConnection
    (hserve : serveConnection environment dir connfd info result = .ok (next, actions)) :
    Outcome environment dir connfd info result next actions := by
  unfold serveConnection at hserve
  split at hserve
  · next hreading =>
    split at hserve
    · obtain ⟨rfl, rfl⟩ := Prod.mk.inj (Except.ok.inj hserve)
      exact .unread hreading rfl
    · obtain ⟨rfl, rfl⟩ := Prod.mk.inj (Except.ok.inj hserve)
      exact .ended hreading (Or.inl rfl)
    · next chunk =>
      split at hserve
      · next hchunk =>
        obtain ⟨rfl, rfl⟩ := Prod.mk.inj (Except.ok.inj hserve)
        exact .ended hreading (Or.inr ⟨chunk, rfl, hchunk⟩)
      · next hchunk => exact outcome_of_receiveData hreading hchunk hserve
  · next hreading =>
    obtain ⟨rfl, rfl⟩ := Prod.mk.inj (Except.ok.inj hserve)
    exact .closed (Bool.eq_false_of_not_eq_true hreading)

/-- What can go wrong with the data of a connection. -/
theorem receiveData_eq_error_iff {bytes : List UInt8} {fault : ServerFault} :
    receiveData environment dir connfd info bytes = .error fault ↔
      (∃ found, fault = .buffer found ∧ receive info bytes = .error found) ∨
        ∃ found received, fault = .request found ∧ receive info bytes = .ok received ∧
          crlfcrlf <:+: cString received.buffer ∧
            handleRequest environment connfd dir received.buffer = .error found := by
  unfold receiveData
  rcases hreceived : receive info bytes with found | received
  · simp [eq_comm]
  · by_cases hend : crlfcrlf <:+: cString received.buffer
    · rcases hrequest : handleRequest environment connfd dir received.buffer with
        found | ⟨answer, responses⟩
      · simp [hend, hrequest, eq_comm]
      · simp [hend, hrequest]
    · simp [hend]

/-- What can go wrong with an event on a connection comes with its data. -/
theorem serveConnection_eq_error_iff {fault : ServerFault} :
    serveConnection environment dir connfd info result = .error fault ↔
      info.readingState = true ∧ ∃ chunk, result = .data chunk ∧ chunk.val ≠ [] ∧
        receiveData environment dir connfd info chunk.val = .error fault := by
  unfold serveConnection
  by_cases hreading : info.readingState = true
  · rcases result with _ | _ | chunk
    · simp [hreading]
    · simp [hreading]
    · by_cases hchunk : chunk.val = []
      · simp [hreading, hchunk]
      · simp [hreading, hchunk]
  · simp [hreading]

/-- The index was tested before. -/
theorem serveConnection_ne_table {index : ℤ} :
    serveConnection environment dir connfd info result ≠ .error (.table index) := by
  rw [ne_eq, serveConnection_eq_error_iff]
  rintro ⟨-, chunk, -, -, hdata⟩
  rcases receiveData_eq_error_iff.mp hdata with ⟨found, hfault, -⟩ | ⟨found, received, hfault, -⟩
  · exact absurd hfault nofun
  · exact absurd hfault nofun

theorem serveConnection_eq_buffer_iff {fault : Fault} :
    serveConnection environment dir connfd info result = .error (.buffer fault) ↔
      info.readingState = true ∧ ∃ chunk, result = .data chunk ∧ chunk.val ≠ [] ∧
        receive info chunk.val = .error fault := by
  simp [serveConnection_eq_error_iff, receiveData_eq_error_iff]

end Outcome

section Step

variable {dir : List UInt8} {server next : Server} {connfd : ℤ} {result : Received}
  {environment : Environment}

theorem of_serve_accept {connections connections' : Table} {actions : List Action}
    (hserve : serve dir connections (.accept connfd) = .ok (connections', actions)) :
    InTable connfd ∧
      connections' = Function.update connections connfd (some (newConnection connfd)) ∧
        actions = [.register connfd] := by
  rw [serve] at hserve
  split at hserve
  · next htable =>
    obtain ⟨rfl, rfl⟩ := Prod.mk.inj (Except.ok.inj hserve)
    exact ⟨htable, rfl, rfl⟩
  · exact absurd hserve nofun

theorem of_serve_readable {connections connections' : Table} {actions : List Action}
    (hserve : serve dir connections (.readable connfd result environment) =
      .ok (connections', actions)) :
    InTable connfd ∧ ∃ info info', connections connfd = some info ∧
      Outcome environment dir connfd info result info' actions ∧
        connections' = Function.update connections connfd (some info') := by
  rw [serve] at hserve
  split at hserve
  · next htable =>
    split at hserve
    · exact absurd hserve nofun
    · next info hinfo =>
      split at hserve
      · exact absurd hserve nofun
      · next info' actions' hconnection =>
        obtain ⟨rfl, rfl⟩ := Prod.mk.inj (Except.ok.inj hserve)
        exact ⟨htable, info, info', hinfo, outcome_of_serveConnection hconnection, rfl⟩
  · exact absurd hserve nofun

theorem of_step {event : Event} (hstep : step dir server event = .ok next) :
    ∃ connections actions, serve dir server.connections event = .ok (connections, actions) ∧
      next = ⟨connections, server.trace ++ actions⟩ := by
  rw [step] at hstep
  split at hstep
  · exact absurd hstep nofun
  · next connections actions hserve =>
    exact ⟨connections, actions, hserve, (Except.ok.inj hstep).symm⟩

theorem step_accept (hstep : step dir server (.accept connfd) = .ok next) :
    InTable connfd ∧ next.connections connfd = some (newConnection connfd) ∧
      next.trace = server.trace ++ [.register connfd] := by
  obtain ⟨connections, actions, hserve, rfl⟩ := of_step hstep
  obtain ⟨htable, rfl, rfl⟩ := of_serve_accept hserve
  exact ⟨htable, Function.update_self _ _ _, rfl⟩

theorem step_readable (hstep : step dir server (.readable connfd result environment) = .ok next) :
    InTable connfd ∧ ∃ info info' actions, server.connections connfd = some info ∧
      Outcome environment dir connfd info result info' actions ∧
      next.connections connfd = some info' ∧ next.trace = server.trace ++ actions := by
  obtain ⟨connections, actions, hserve, rfl⟩ := of_step hstep
  obtain ⟨htable, info, info', hinfo, houtcome, rfl⟩ := of_serve_readable hserve
  exact ⟨htable, info, info', actions, hinfo, houtcome, Function.update_self _ _ _, rfl⟩

/-- An event leaves the other connections alone. -/
theorem step_frame {event : Event} {fd : ℤ} (hstep : step dir server event = .ok next)
    (hfd : event.fd ≠ fd) : next.connections fd = server.connections fd := by
  obtain ⟨connections, actions, hserve, rfl⟩ := of_step hstep
  cases event with
  | accept connfd =>
    obtain ⟨-, rfl, -⟩ := of_serve_accept hserve
    exact Function.update_of_ne (Ne.symm hfd) _ _
  | readable connfd result environment =>
    obtain ⟨-, info, info', -, -, rfl⟩ := of_serve_readable hserve
    exact Function.update_of_ne (Ne.symm hfd) _ _

theorem serveConnection_of_outcome {dir : List UInt8} {info info' : ConnectionInfo}
    {actions : List Action} (houtcome : Outcome environment dir connfd info result info' actions) :
    serveConnection environment dir connfd info result = .ok (info', actions) := by
  cases houtcome with
  | closed hreading => simp [serveConnection, hreading]
  | unread hreading hresult => simp [serveConnection, hreading, hresult]
  | ended hreading hresult =>
    rcases hresult with rfl | ⟨chunk, rfl, hchunk⟩
    · simp [serveConnection, hreading]
    · simp [serveConnection, hreading, hchunk]
  | appended chunk received hreading hresult hchunk hreceived hend =>
    simp [serveConnection, receiveData, hreading, hresult, hchunk, hreceived, hend]
  | completed chunk received answer responses hreading hresult hchunk hreceived hend hrequest =>
    simp [serveConnection, receiveData, hreading, hresult, hchunk, hreceived, hend, hrequest]

theorem serve_accept {connections : Table} (htable : InTable connfd) :
    serve dir connections (.accept connfd) =
      .ok (Function.update connections connfd (some (newConnection connfd)),
        [.register connfd]) := by
  rw [serve, if_pos htable]

theorem serve_of_outcome {connections : Table} {info info' : ConnectionInfo}
    {actions : List Action} (htable : InTable connfd) (hinfo : connections connfd = some info)
    (houtcome : Outcome environment dir connfd info result info' actions) :
    serve dir connections (.readable connfd result environment) =
      .ok (Function.update connections connfd (some info'), actions) := by
  rw [serve, if_pos htable]
  simp only [hinfo, serveConnection_of_outcome houtcome]

/-- An event on an element of the array that was written. -/
theorem step_of_outcome {info info' : ConnectionInfo} {actions : List Action}
    (htable : InTable connfd) (hinfo : server.connections connfd = some info)
    (houtcome : Outcome environment dir connfd info result info' actions) :
    ∃ next, step dir server (.readable connfd result environment) = .ok next ∧
      next.connections connfd = some info' ∧ next.trace = server.trace ++ actions := by
  refine ⟨⟨Function.update server.connections connfd (some info'), server.trace ++ actions⟩, ?_,
    Function.update_self _ _ _, rfl⟩
  rw [step, serve_of_outcome htable hinfo houtcome]

/-- Only elements of the array are ever written. -/
theorem inTable_of_run {events : List Event} {fd : ℤ} {info : ConnectionInfo}
    (hrun : run (step dir) start events = .ok server) (hinfo : server.connections fd = some info) :
    InTable fd := by
  induction events using List.reverseRecOn generalizing server info with
  | nil =>
    obtain rfl := Except.ok.inj hrun
    exact absurd hinfo (Option.some_ne_none _).symm
  | append_singleton events event ih =>
    obtain ⟨middle, hmiddle, hstep⟩ := of_run_append_singleton_eq_ok hrun
    by_cases hfd : event.fd = fd
    · subst hfd
      cases event with
      | accept connfd => exact (step_accept hstep).1
      | readable connfd result environment => exact (step_readable hstep).1
    · rw [step_frame hstep hfd] at hinfo
      exact ih hmiddle hinfo

/-- What can go wrong with an event on a connection. -/
theorem serve_readable_eq_error_iff {connections : Table} {fault : ServerFault} :
    serve dir connections (.readable connfd result environment) = .error fault ↔
      (¬InTable connfd ∧ fault = .table connfd) ∨
      (InTable connfd ∧ connections connfd = none ∧ fault = .uninitialised connfd) ∨
        InTable connfd ∧ ∃ info, connections connfd = some info ∧
          serveConnection environment dir connfd info result = .error fault := by
  rw [serve]
  by_cases htable : InTable connfd
  · rcases hinfo : connections connfd with _ | info
    · simp [htable, eq_comm]
    · rcases hserve : serveConnection environment dir connfd info result with
        found | ⟨info', actions⟩
      · simp [htable, hserve]
      · simp [htable, hserve]
  · simp [htable, eq_comm]

/-- An index is outside the array exactly when the descriptor of the event is. -/
theorem serve_eq_table_iff {connections : Table} {event : Event} :
    (∃ index, serve dir connections event = .error (.table index)) ↔ ¬InTable event.fd := by
  cases event with
  | accept connfd =>
    rw [serve, Event.fd]
    by_cases htable : InTable connfd
    · simp [htable]
    · simp [htable]
  | readable connfd result environment =>
    simp [serve_readable_eq_error_iff, serveConnection_ne_table, Event.fd]

theorem serve_eq_buffer_iff {connections : Table} {event : Event} {fault : Fault} :
    serve dir connections event = .error (.buffer fault) ↔
      ∃ connfd chunk environment info, event = .readable connfd (.data chunk) environment ∧
        InTable connfd ∧ connections connfd = some info ∧ info.readingState = true ∧
          chunk.val ≠ [] ∧ receive info chunk.val = .error fault := by
  cases event with
  | accept connfd =>
    rw [serve]
    by_cases htable : InTable connfd
    · simp [htable]
    · simp [htable]
  | readable connfd result environment =>
    rw [serve_readable_eq_error_iff]
    constructor
    · rintro (⟨-, hfault⟩ | ⟨-, -, hfault⟩ | ⟨htable, info, hinfo, hserve⟩)
      · exact absurd hfault nofun
      · exact absurd hfault nofun
      · obtain ⟨hreading, chunk, rfl, hchunk, hreceive⟩ := serveConnection_eq_buffer_iff.mp hserve
        exact ⟨connfd, chunk, environment, info, rfl, htable, hinfo, hreading, hchunk, hreceive⟩
    · rintro ⟨connfd', chunk, environment', info, hevent, htable, hinfo, hreading, hchunk,
        hreceive⟩
      obtain ⟨rfl, rfl, rfl⟩ := Event.readable.inj hevent
      exact Or.inr (Or.inr ⟨htable, info, hinfo,
        serveConnection_eq_buffer_iff.mpr ⟨hreading, chunk, rfl, hchunk, hreceive⟩⟩)

/-- A write lands outside a buffer exactly when a reading connection receives data that does. -/
theorem step_eq_buffer_iff {event : Event} {fault : Fault} :
    step dir server event = .error (.buffer fault) ↔
      ∃ connfd chunk environment info, event = .readable connfd (.data chunk) environment ∧
        InTable connfd ∧ server.connections connfd = some info ∧ info.readingState = true ∧
          chunk.val ≠ [] ∧ receive info chunk.val = .error fault := by
  rw [← serve_eq_buffer_iff, step]
  rcases serve dir server.connections event with found | ⟨connections, actions⟩
  · simp
  · simp

end Step

end Homework.FileServer
