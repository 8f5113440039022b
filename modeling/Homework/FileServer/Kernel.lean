import Homework.FileServer.Buffers
import Homework.Library.Descriptors
import Mathlib.Data.List.AList

/-!
# The loop and the kernel

Here the results of the system calls are not given: they come from the descriptors that are in use,
from the sockets of the clients, and from what `epoll_wait` has to report. A descriptor is reported
once for all that arrives on it before the next `epoll_wait` (`EPOLLET`). Between any two steps of
the loop clients may connect, send, and close their ends.

Whatever the kernel does, the loop is that of `serve`: the array of connections is the one after a
run of the events that have been handled (`Loops`).
-/

set_option autoImplicit false
set_option relaxedAutoImplicit false

namespace Homework.FileServer

open Homework.Library.Descriptors Homework.Library.Runs

/-! ### Sockets -/

/-- What the client has done with its end of a connection. -/
inductive Peer where
  | connected
  | closed
  | reset
deriving DecidableEq

/-- The socket of a connection: the bytes that have arrived and not been read, and its other end. -/
structure Socket where
  unread : List UInt8
  peer : Peer
deriving DecidableEq

/-- What a client does. -/
inductive ClientCall where
  | send (bytes : List UInt8)
  | close
  | reset

namespace Socket

def new : Socket := ⟨[], .connected⟩

/-- `EPOLLIN`. -/
def Reports (socket : Socket) : Prop := socket.unread ≠ [] ∨ socket.peer ≠ .connected

instance (socket : Socket) : Decidable socket.Reports := inferInstanceAs (Decidable (_ ∨ _))

/-- A client that has closed its end sends nothing any more. -/
def after (socket : Socket) : ClientCall → Socket
  | .send bytes =>
    if socket.peer = .connected then { socket with unread := socket.unread ++ bytes } else socket
  | .close => if socket.peer = .connected then { socket with peer := .closed } else socket
  | .reset => { socket with peer := .reset }

/-- `recv(connfd, buffer, BUFFER_SIZE - 1, MSG_DONTWAIT)`. -/
def recv (socket : Socket) : Received :=
  if socket.unread = [] then
    match socket.peer with
    | .connected => .again
    | .closed => .data ⟨[], by decide⟩
    | .reset => .failed
  else
    .data ⟨socket.unread.take (bufferSize - 1),
      lt_of_le_of_lt (List.length_take_le _ _) (by decide)⟩

/-- What `recv` leaves to be read. -/
def rest (socket : Socket) : Socket :=
  { socket with unread := socket.unread.drop (bufferSize - 1) }

theorem unread_of_recv_eq_again {socket : Socket} (hrecv : socket.recv = .again) :
    socket.unread = [] := by
  rw [recv] at hrecv
  split at hrecv
  · next hunread => exact hunread
  · exact absurd hrecv nofun

theorem of_recv_eq_data {socket : Socket} {chunk : Chunk} (hrecv : socket.recv = .data chunk)
    (hchunk : chunk.val ≠ []) : chunk.val = socket.unread.take (bufferSize - 1) := by
  rw [recv] at hrecv
  split at hrecv
  · split at hrecv
    · exact absurd hrecv nofun
    · exact absurd (congrArg Subtype.val (Received.data.inj hrecv)).symm hchunk
    · exact absurd hrecv nofun
  · exact (congrArg Subtype.val (Received.data.inj hrecv)).symm

end Socket

/-! ### The system -/

/-- The listening socket has the first descriptor that the server opens. -/
def listenfd : ℤ := 3

/-- The descriptors that stay in use: the standard streams, the listening socket and epoll. -/
def standard : List ℤ := [0, 1, 2, listenfd, 4]

/-- The loop, the descriptors of the files and sockets it has open, the connections that wait for
`accept`, the descriptors that epoll has to report, and those of `events` not handled so far. -/
structure System where
  connections : Table
  files : List ℤ
  sockets : AList fun _ : ℤ ↦ Socket
  backlog : List Socket
  ready : List ℤ
  batch : List ℤ

/-- A step: a client connects, a client whose connection waits or has been accepted does something,
`epoll_wait` returns, or the loop handles the next event. -/
inductive Input where
  | connect
  | waiting (index : ℕ) (call : ClientCall)
  | accepted (fd : ℤ) (call : ClientCall)
  | wait (chosen : List ℤ)
  | handle (accepts : Bool) (environment : Environment)

namespace System

def start : System where
  connections := fun _ ↦ none
  files := []
  sockets := ∅
  backlog := []
  ready := []
  batch := []

/-- The descriptors in use. -/
def used (system : System) : List ℤ := standard ++ system.files ++ system.sockets.keys

/-- A descriptor that has been flagged already is reported once. -/
def flag (fd : ℤ) (system : System) : System :=
  { system with ready := system.ready.insert fd }

/-- What a system call of the server changes. -/
def act (system : System) : Action → System
  | .register fd =>
    if ∃ socket ∈ system.sockets.lookup fd, socket.Reports then system.flag fd else system
  | .fopen _ => { system with files := lowestFree system.used :: system.files }
  | .fclose => { system with files := system.files.tail }
  | .close fd =>
    { system with sockets := system.sockets.erase fd, ready := system.ready.filter (· ≠ fd) }
  | .request _ _ => system
  | .write _ _ => system

/-- An event, and the system calls that it leads to. -/
def serveEvent (dir : List UInt8) (event : Event) (system : System) : Except ServerFault System :=
  match serve dir system.connections event with
  | .error fault => .error fault
  | .ok (connections, actions) =>
    .ok (actions.foldl act { system with connections := connections })

/-- `accept(listenfd, NULL, NULL)` gives the lowest descriptor that is not in use, or -1 if it fails
or no connection waits. -/
def accept (accepts : Bool) (system : System) : ℤ × System :=
  match accepts, system.backlog with
  | true, socket :: queue => (lowestFree system.used,
    { system with
      backlog := queue, sockets := system.sockets.insert (lowestFree system.used) socket })
  | true, [] => (-1, system)
  | false, _ => (-1, system)

/-- The test of `reading_state`. -/
def reads (fd : ℤ) (system : System) : Bool := (system.connections fd).any (·.readingState)

/-- `recv` on a connection, which is not called unless the connection is reading, and the sockets
after it. -/
def recv (fd : ℤ) (system : System) : Received × AList fun _ : ℤ ↦ Socket :=
  match system.reads fd, system.sockets.lookup fd with
  | true, some socket => (socket.recv, system.sockets.insert fd socket.rest)
  | true, none => (.failed, system.sockets)
  | false, _ => (.again, system.sockets)

/-- The loop handles an event of `events`. -/
def serveNext (dir : List UInt8) (accepts : Bool) (environment : Environment) (fd : ℤ)
    (system : System) : Except ServerFault System :=
  if fd = listenfd then
    serveEvent dir (.accept (system.accept accepts).1) (system.accept accepts).2
  else
    serveEvent dir (.readable fd (system.recv fd).1 environment)
      { system with sockets := (system.recv fd).2 }

/-- A client does something on a connection that has been accepted. It is flagged if anything
arrives. -/
def arrive (fd : ℤ) (call : ClientCall) (system : System) : System :=
  match system.sockets.lookup fd with
  | none => system
  | some socket =>
    if socket.after call = socket then system
    else flag fd { system with sockets := system.sockets.insert fd (socket.after call) }

/-- What `epoll_wait` may put into `events`. -/
def Reportable (system : System) (chosen : List ℤ) : Prop :=
  chosen.Nodup ∧ chosen ⊆ system.ready ∧ chosen.length ≤ maxEvents

instance (system : System) (chosen : List ℤ) : Decidable (system.Reportable chosen) :=
  inferInstanceAs (Decidable (_ ∧ _ ∧ _))

/-- A step. The loop waits when it has handled all events. -/
def step (dir : List UInt8) (system : System) : Input → Except ServerFault System
  | .connect => .ok (flag listenfd { system with backlog := system.backlog ++ [.new] })
  | .waiting index call =>
    .ok { system with backlog := system.backlog.modify index (·.after call) }
  | .accepted fd call => .ok (system.arrive fd call)
  | .wait chosen =>
    if system.batch = [] ∧ system.Reportable chosen then
      .ok { system with ready := system.ready.filter (· ∉ chosen), batch := chosen }
    else .ok system
  | .handle accepts environment =>
    match system.batch with
    | [] => .ok system
    | fd :: rest => serveNext dir accepts environment fd { system with batch := rest }

/-! ### What the system calls change -/

section Settles

variable {system middle next : System}

/-- What the system calls that an event leads to may change. -/
structure Settles (actions : List Action) (system next : System) : Prop where
  connections : next.connections = system.connections
  backlog : next.backlog = system.backlog
  batch : next.batch = system.batch
  /-- Only `close` takes a descriptor from those to be reported. -/
  ready : ∀ fd ∈ system.ready, .close fd ∉ actions → fd ∈ next.ready
  /-- Only a socket is reported newly. -/
  reported : ∀ fd ∈ next.ready, fd ∈ system.ready ∨ fd ∈ system.sockets
  sockets : ∀ fd ∈ next.sockets, fd ∈ system.sockets
  lookup : ∀ fd, .close fd ∉ actions → next.sockets.lookup fd = system.sockets.lookup fd
  closed : ∀ fd, .close fd ∈ actions → fd ∉ next.sockets

theorem Settles.refl (system : System) : Settles [] system system where
  connections := rfl
  backlog := rfl
  batch := rfl
  ready := fun _ hmem _ ↦ hmem
  reported := fun _ ↦ Or.inl
  sockets := fun _ hmem ↦ hmem
  lookup := fun _ _ ↦ rfl
  closed := fun _ hmem ↦ absurd hmem List.not_mem_nil

theorem Settles.append {first second : List Action} (hfirst : Settles first system middle)
    (hsecond : Settles second middle next) : Settles (first ++ second) system next where
  connections := hsecond.connections.trans hfirst.connections
  backlog := hsecond.backlog.trans hfirst.backlog
  batch := hsecond.batch.trans hfirst.batch
  ready := fun fd hmem hopen ↦ by
    rw [List.mem_append, not_or] at hopen
    exact hsecond.ready fd (hfirst.ready fd hmem hopen.1) hopen.2
  reported := fun fd hmem ↦ by
    rcases hsecond.reported fd hmem with hready | hsocket
    · exact hfirst.reported fd hready
    · exact Or.inr (hfirst.sockets fd hsocket)
  sockets := fun fd hmem ↦ hfirst.sockets fd (hsecond.sockets fd hmem)
  lookup := fun fd hopen ↦ by
    rw [List.mem_append, not_or] at hopen
    rw [hsecond.lookup fd hopen.2, hfirst.lookup fd hopen.1]
  closed := fun fd hclosed hmem ↦ by
    rcases List.mem_append.mp hclosed with hclosed | hclosed
    · exact hfirst.closed fd hclosed (hsecond.sockets fd hmem)
    · exact hsecond.closed fd hclosed hmem

/-- A call that does not change the sockets. -/
theorem Settles.of_files {action : Action} (haction : ∀ fd, action ≠ .close fd)
    (files : List ℤ) : Settles [action] system { system with files := files } where
  connections := rfl
  backlog := rfl
  batch := rfl
  ready := fun _ hmem _ ↦ hmem
  reported := fun _ ↦ Or.inl
  sockets := fun _ hmem ↦ hmem
  lookup := fun _ _ ↦ rfl
  closed := fun fd hmem ↦ absurd (List.mem_singleton.mp hmem).symm (haction fd)

theorem settles_flag {connfd : ℤ} (hsocket : connfd ∈ system.sockets) :
    Settles [.register connfd] system (system.flag connfd) where
  connections := rfl
  backlog := rfl
  batch := rfl
  ready := fun _ hmem _ ↦ List.mem_insert_of_mem hmem
  reported := fun fd hmem ↦ by
    rcases List.mem_insert_iff.mp hmem with rfl | hready
    · exact Or.inr hsocket
    · exact Or.inl hready
  sockets := fun _ hmem ↦ hmem
  lookup := fun _ _ ↦ rfl
  closed := nofun

theorem settles_register (connfd : ℤ) :
    Settles [.register connfd] system (system.act (.register connfd)) := by
  rw [act]
  split
  · next hreports =>
    obtain ⟨socket, hsocket, -⟩ := hreports
    exact settles_flag (AList.lookup_isSome.mp (Option.isSome_of_mem hsocket))
  · exact .of_files (by simp) system.files

theorem settles_close (connfd : ℤ) :
    Settles [.close connfd] system (system.act (.close connfd)) where
  connections := rfl
  backlog := rfl
  batch := rfl
  ready := fun fd hmem hopen ↦ by
    refine List.mem_filter.mpr ⟨hmem, decide_eq_true fun heq ↦ hopen ?_⟩
    rw [heq]
    exact List.mem_singleton_self _
  reported := fun fd hmem ↦ Or.inl (List.mem_of_mem_filter hmem)
  sockets := fun fd hmem ↦ (AList.mem_erase.mp hmem).2
  lookup := fun fd hopen ↦ by
    refine AList.lookup_erase_ne fun heq ↦ hopen ?_
    rw [heq]
    exact List.mem_singleton_self _
  closed := fun fd hmem hsocket ↦ by
    obtain rfl := Action.close.inj (List.mem_singleton.mp hmem)
    exact (AList.mem_erase.mp hsocket).1 rfl

theorem settles_act (action : Action) : Settles [action] system (system.act action) := by
  cases action with
  | register connfd => exact settles_register connfd
  | request connfd text => exact .of_files (by simp) system.files
  | write connfd bytes => exact .of_files (by simp) system.files
  | fopen path => exact .of_files (by simp) _
  | fclose => exact .of_files (by simp) _
  | close connfd => exact settles_close connfd

theorem settles_foldl (actions : List Action) (system : System) :
    Settles actions system (actions.foldl act system) := by
  induction actions generalizing system with
  | nil => exact .refl system
  | cons action actions ih => exact (settles_act action).append (ih (system.act action))

end Settles

/-! ### What a step does -/

section Handles

variable {dir : List UInt8} {accepts : Bool} {environment : Environment} {system next : System}
  {event : Event} {fd : ℤ}

theorem of_serveEvent (hserve : serveEvent dir event system = .ok next) :
    ∃ connections actions, serve dir system.connections event = .ok (connections, actions) ∧
      next = actions.foldl act { system with connections := connections } := by
  unfold serveEvent at hserve
  split at hserve
  · exact absurd hserve nofun
  · next connections actions hevent =>
    exact ⟨connections, actions, hevent, (Except.ok.inj hserve).symm⟩

/-- What the loop does with the next event: it accepts a connection and registers it, or serves one
that it has accepted. -/
inductive Handles (dir : List UInt8) (environment : Environment) (system : System) :
    System → Prop where
  | idle (hbatch : system.batch = []) : Handles dir environment system system
  | accepts {socket : Socket} {queue : List Socket} {rest : List ℤ} {next : System}
    (hbatch : system.batch = listenfd :: rest) (hbacklog : system.backlog = socket :: queue)
    (htable : InTable (lowestFree system.used))
    (hsettles : Settles [.register (lowestFree system.used)]
      { system with
        connections := Function.update system.connections (lowestFree system.used)
          (some (newConnection (lowestFree system.used)))
        sockets := system.sockets.insert (lowestFree system.used) socket
        backlog := queue
        batch := rest } next)
    (hflagged : socket.Reports → lowestFree system.used ∈ next.ready) :
    Handles dir environment system next
  | serves {fd : ℤ} {rest : List ℤ} {info info' : ConnectionInfo} {actions : List Action}
    {next : System} (hbatch : system.batch = fd :: rest) (hfd : fd ≠ listenfd)
    (hinfo : system.connections fd = some info)
    (houtcome : Outcome environment dir fd info (system.recv fd).1 info' actions)
    (hsettles : Settles actions
      { system with
        connections := Function.update system.connections fd (some info')
        sockets := (system.recv fd).2
        batch := rest } next) :
    Handles dir environment system next

theorem accept_eq_or (accepts : Bool) (system : System) :
    (¬(accepts = true ∧ system.backlog ≠ []) ∧ system.accept accepts = (-1, system)) ∨
      ∃ socket queue, accepts = true ∧ system.backlog = socket :: queue ∧
        system.accept accepts = (lowestFree system.used,
          { system with
            backlog := queue
            sockets := system.sockets.insert (lowestFree system.used) socket }) := by
  unfold accept
  split
  · next socket queue hbacklog => exact Or.inr ⟨socket, queue, rfl, hbacklog, rfl⟩
  · next hbacklog => exact Or.inl ⟨fun hand ↦ hand.2 hbacklog, rfl⟩
  · exact Or.inl ⟨nofun, rfl⟩

theorem handles_of_step
    (hstep : step dir system (.handle accepts environment) = .ok next) :
    Handles dir environment system next := by
  rw [step] at hstep
  split at hstep
  · next hbatch =>
    obtain rfl := Except.ok.inj hstep
    exact .idle hbatch
  · next fd rest hbatch =>
    rw [serveNext] at hstep
    split at hstep
    · next hfd =>
      subst hfd
      rcases accept_eq_or accepts { system with batch := rest } with
        ⟨-, haccept⟩ | ⟨socket, queue, -, hbacklog, haccept⟩
      · rw [haccept] at hstep
        obtain ⟨connections, actions, hserve, rfl⟩ := of_serveEvent hstep
        have hfailed : ¬InTable (-1) := by decide
        exact absurd (of_serve_accept hserve).1 hfailed
      · rw [haccept] at hstep
        obtain ⟨connections, actions, hserve, rfl⟩ := of_serveEvent hstep
        obtain ⟨htable, rfl, rfl⟩ := of_serve_accept hserve
        refine .accepts hbatch hbacklog htable (settles_foldl _ _) fun hreports ↦ ?_
        have hflag : ∃ found ∈ AList.lookup (lowestFree system.used)
            (system.sockets.insert (lowestFree system.used) socket), found.Reports :=
          ⟨socket, AList.lookup_insert _, hreports⟩
        rw [List.foldl_cons, List.foldl_nil, act]
        exact (if_pos hflag).symm ▸ List.mem_insert_self
    · next hfd =>
      obtain ⟨connections, actions, hserve, rfl⟩ := of_serveEvent hstep
      obtain ⟨-, info, info', hinfo, houtcome, rfl⟩ := of_serve_readable hserve
      exact .serves hbatch hfd hinfo houtcome (settles_foldl _ _)

/-- What a step does. A step that has nothing to do leaves the system as it is. -/
inductive Steps (dir : List UInt8) (system : System) : Input → System → Prop where
  | idle (input : Input) : Steps dir system input system
  | connect : Steps dir system .connect
    (flag listenfd { system with backlog := system.backlog ++ [.new] })
  | waiting (index : ℕ) (call : ClientCall) : Steps dir system (.waiting index call)
    { system with backlog := system.backlog.modify index (·.after call) }
  | arrives {connfd : ℤ} (call : ClientCall) (socket : Socket)
    (hopened : connfd ∈ system.sockets) : Steps dir system (.accepted connfd call)
    (flag connfd { system with sockets := system.sockets.insert connfd socket })
  | waits {chosen : List ℤ} (hbatch : system.batch = []) (hchosen : system.Reportable chosen) :
    Steps dir system (.wait chosen)
      { system with ready := system.ready.filter (· ∉ chosen), batch := chosen }
  | handles {accepts : Bool} {environment : Environment} {next : System}
    (hhandles : Handles dir environment system next) :
    Steps dir system (.handle accepts environment) next

theorem steps_arrive (connfd : ℤ) (call : ClientCall) :
    Steps dir system (.accepted connfd call) (system.arrive connfd call) := by
  unfold arrive
  split
  · exact .idle _
  · next socket hsocket =>
    split
    · exact .idle _
    · exact .arrives call _ (AList.lookup_isSome.mp (Option.isSome_of_mem hsocket))

theorem steps_of_step {input : Input} (hstep : step dir system input = .ok next) :
    Steps dir system input next := by
  cases input with
  | connect => exact Except.ok.inj hstep ▸ .connect
  | waiting index call => exact Except.ok.inj hstep ▸ .waiting index call
  | accepted connfd call => exact Except.ok.inj hstep ▸ steps_arrive connfd call
  | wait chosen =>
    rw [step] at hstep
    split at hstep
    · next hwait => exact Except.ok.inj hstep ▸ .waits hwait.1 hwait.2
    · exact Except.ok.inj hstep ▸ .idle _
  | handle accepts environment => exact .handles (handles_of_step hstep)

end Handles

section Recv

variable {system : System} {fd : ℤ}

/-- The sockets that `recv` leaves were there before. -/
theorem mem_of_mem_recv {connfd : ℤ} (hmem : fd ∈ (system.recv connfd).2) :
    fd ∈ system.sockets := by
  unfold recv at hmem
  split at hmem
  · next socket _ hsocket =>
    rcases (AList.mem_insert _).mp hmem with rfl | hmem
    · exact AList.lookup_isSome.mp (Option.isSome_of_mem hsocket)
    · exact hmem
  · exact hmem
  · exact hmem

theorem lookup_recv_of_ne {connfd : ℤ} (hfd : fd ≠ connfd) :
    AList.lookup fd (system.recv connfd).2 = AList.lookup fd system.sockets := by
  unfold recv
  split
  · exact AList.lookup_insert_ne hfd
  · rfl
  · rfl

/-- `recv` on a connection that is reading. -/
theorem recv_of_reading {info : ConnectionInfo} (hinfo : system.connections fd = some info)
    (hreading : info.readingState = true) :
    (system.recv fd).1 = .failed ∨ ∃ socket, system.sockets.lookup fd = some socket ∧
      system.recv fd = (socket.recv, system.sockets.insert fd socket.rest) := by
  have hreads : system.reads fd = true := by rw [reads, hinfo, Option.any_some, hreading]
  unfold recv
  rw [hreads]
  rcases hsocket : system.sockets.lookup fd with _ | socket
  · exact Or.inl rfl
  · exact Or.inr ⟨socket, rfl, rfl⟩

theorem listenfd_mem_used (system : System) : listenfd ∈ system.used :=
  List.mem_append_left _ (List.mem_append_left _ (by decide))

theorem lowestFree_ne_listenfd (system : System) : lowestFree system.used ≠ listenfd := by
  intro heq
  exact lowestFree_notMem system.used (heq ▸ listenfd_mem_used system)

end Recv

/-! ### Runs -/

/-- The array of connections is the one after a run of the loop. -/
def Loops (dir : List UInt8) (connections : Table) : Prop :=
  ∃ events trace, run (FileServer.step dir) FileServer.start events = .ok ⟨connections, trace⟩

section Loops

variable {dir : List UInt8} {system next : System} {inputs : List Input}

theorem Loops.of_serve {connections connections' : Table} {event : Event}
    {actions : List Action} (hloops : Loops dir connections)
    (hserve : serve dir connections event = .ok (connections', actions)) :
    Loops dir connections' := by
  obtain ⟨events, trace, hrun⟩ := hloops
  refine ⟨events ++ [event], trace ++ actions, ?_⟩
  rw [run_append_singleton hrun, FileServer.step, hserve]

/-- Only elements of the array are written, whatever the kernel does. -/
theorem Loops.inTable {connections : Table} {fd : ℤ} {info : ConnectionInfo}
    (hloops : Loops dir connections) (hinfo : connections fd = some info) : InTable fd := by
  obtain ⟨events, trace, hrun⟩ := hloops
  exact inTable_of_run hrun hinfo

/-- The buffers of the connections that are reading hold the data that has arrived. -/
theorem Loops.holds {connections : Table} {fd : ℤ} {info : ConnectionInfo}
    (hloops : Loops dir connections) (hinfo : connections fd = some info)
    (hreading : info.readingState = true) : ∃ chunks, Holds info chunks := by
  obtain ⟨events, trace, hrun⟩ := hloops
  exact ⟨_, tracks_run hrun fd info hinfo hreading⟩

theorem Loops.of_handles {environment : Environment} (hloops : Loops dir system.connections)
    (hhandles : Handles dir environment system next) : Loops dir next.connections := by
  cases hhandles with
  | idle hbatch => exact hloops
  | accepts hbatch hbacklog htable hsettles hflagged =>
    rw [hsettles.connections]
    exact hloops.of_serve (serve_accept htable)
  | serves hbatch hfd hinfo houtcome hsettles =>
    rw [hsettles.connections]
    exact hloops.of_serve (serve_of_outcome (hloops.inTable hinfo) hinfo houtcome)

theorem Loops.of_step {input : Input} (hloops : Loops dir system.connections)
    (hstep : step dir system input = .ok next) : Loops dir next.connections := by
  cases steps_of_step hstep with
  | idle => exact hloops
  | connect => exact hloops
  | waiting index call => exact hloops
  | arrives call socket hopened => exact hloops
  | waits hbatch hchosen => exact hloops
  | handles hhandles => exact hloops.of_handles hhandles

theorem loops_run (hrun : run (step dir) start inputs = .ok system) :
    Loops dir system.connections := by
  have hkeep : ∀ (state : System) (input : Input) (next : System), Loops dir state.connections →
      step dir state input = .ok next → Loops dir next.connections :=
    fun _ _ _ hloops hstep ↦ hloops.of_step hstep
  exact always hkeep ⟨[], [], rfl⟩ hrun

end Loops

end System

end Homework.FileServer
