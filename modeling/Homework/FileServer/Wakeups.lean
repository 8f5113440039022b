import Homework.FileServer.Indices

/-!
# Wake-ups

A descriptor is reported once for all that has arrived on it, and the loop answers with a single
`accept` or a single `recv`. What these leave behind is reported only if more arrives. As long as
they leave nothing behind, or the descriptor has been flagged again meanwhile (`Drains`), there is a
report to come for everything that has not been taken (`Flagged`), and the loop waits without one
only when there is nothing to take (`quiet_of_drains`).
-/

set_option autoImplicit false
set_option relaxedAutoImplicit false

namespace Homework.FileServer.System

open Homework.Library.CString Homework.Library.Descriptors Homework.Library.Runs

/-! ### What is left to take -/

/-- A connection that is reading has bytes that have not been read. -/
def Unread (system : System) (fd : ℤ) : Prop :=
  ∃ info socket, system.connections fd = some info ∧ info.readingState = true ∧
    system.sockets.lookup fd = some socket ∧ socket.unread ≠ []

/-- The loop is in `epoll_wait`, which has nothing to report. -/
def Blocked (system : System) : Prop := system.batch = [] ∧ system.ready = []

/-- No connection waits, and no connection that is reading has unread bytes. -/
def Quiet (system : System) : Prop := system.backlog = [] ∧ ∀ fd, ¬system.Unread fd

/-- The loop takes all there is with the next event, or the descriptor has been flagged again: at
most one connection waits, or fewer bytes than `BUFFER_SIZE` have arrived, or those that are read
complete the request. -/
def Drains (system : System) : Input → Prop
  | .handle _ _ => ∀ fd, system.batch.head? = some fd → fd ∈ system.ready ∨
    if fd = listenfd then system.backlog.length ≤ 1
    else ∀ info socket, system.connections fd = some info → info.readingState = true →
      system.sockets.lookup fd = some socket → socket.unread.length < bufferSize ∨
        crlfcrlf <:+: cString info.buffer ++ cString (socket.unread.take (bufferSize - 1))
  | .connect => True
  | .waiting _ _ => True
  | .accepted _ _ => True
  | .wait _ => True

/-- Everything that is left to take has a report to come. -/
structure Flagged (system : System) : Prop where
  backlog : system.backlog ≠ [] → listenfd ∈ system.ready ∨ listenfd ∈ system.batch
  unread : ∀ fd, system.Unread fd → fd ∈ system.ready ∨ fd ∈ system.batch

theorem Flagged.quiet {system : System} (hflagged : Flagged system) (hblocked : system.Blocked) :
    system.Quiet := by
  obtain ⟨hbatch, hready⟩ := hblocked
  have hnone {fd : ℤ} : ¬(fd ∈ system.ready ∨ fd ∈ system.batch) := by
    rw [hbatch, hready, or_self]
    exact List.not_mem_nil
  exact ⟨by_contra fun hbacklog ↦ hnone (hflagged.backlog hbacklog),
    fun fd hunread ↦ hnone (hflagged.unread fd hunread)⟩

/-! ### Handling an event -/

section Handles

variable {dir : List UInt8} {accepts : Bool} {environment : Environment} {system next : System}
  {fd : ℤ}

/-- An event on a connection closes no other descriptor. -/
theorem close_of_outcome {info info' : ConnectionInfo} {result : Received} {connfd : ℤ}
    {actions : List Action} (hloops : Loops dir system.connections)
    (hinfo : system.connections connfd = some info)
    (houtcome : Outcome environment dir connfd info result info' actions)
    (hclose : .close fd ∈ actions) : fd = connfd := by
  cases houtcome with
  | closed hreading => exact absurd hclose List.not_mem_nil
  | unread hreading hresult => exact absurd hclose List.not_mem_nil
  | ended hreading hresult => exact Action.close.inj (List.mem_singleton.mp hclose)
  | appended => exact absurd hclose List.not_mem_nil
  | completed chunk received answer responses hreading hresult hchunk hreceived hend hrequest =>
    obtain ⟨chunks, hholds⟩ := hloops.holds hinfo hreading
    have hresponse : .close fd ∈ responses := (List.mem_cons.mp hclose).resolve_left nofun
    exact close_of_handleRequest (hholds.of_receive hreceived).length_buffer hrequest hresponse

/-- After an event, a connection that still has unread bytes has more of them than one `recv`
takes, and its request is not complete. -/
theorem unread_after_outcome {info info' : ConnectionInfo} {actions : List Action}
    (hloops : Loops dir system.connections) (hinfo : system.connections fd = some info)
    (houtcome : Outcome environment dir fd info (system.recv fd).1 info' actions)
    (hreading' : info'.readingState = true) (hopen : .close fd ∉ actions) {socket' : Socket}
    (hsocket' : AList.lookup fd (system.recv fd).2 = some socket') (hunread : socket'.unread ≠ []) :
    info.readingState = true ∧ ∃ socket, system.sockets.lookup fd = some socket ∧
      bufferSize ≤ socket.unread.length ∧
        ¬crlfcrlf <:+: cString info.buffer ++ cString (socket.unread.take (bufferSize - 1)) := by
  -- what `recv` has left of a socket
  have hleft (hreading : info.readingState = true) (hfailed : (system.recv fd).1 ≠ .failed) :
      ∃ socket, system.sockets.lookup fd = some socket ∧ (system.recv fd).1 = socket.recv ∧
        socket.unread.drop (bufferSize - 1) ≠ [] := by
    rcases recv_of_reading hinfo hreading with hnone | ⟨socket, hsocket, hrecv⟩
    · exact absurd hnone hfailed
    · rw [hrecv, AList.lookup_insert] at hsocket'
      obtain rfl := Option.some.inj hsocket'
      exact ⟨socket, hsocket, congrArg Prod.fst hrecv, hunread⟩
  cases houtcome with
  | closed hreading => exact absurd hreading' (hreading ▸ Bool.false_ne_true)
  | unread hreading hresult =>
    obtain ⟨socket, -, hrecv, hrest⟩ := hleft hreading (hresult ▸ nofun)
    have hempty : socket.unread = [] :=
      Socket.unread_of_recv_eq_again (hrecv.symm.trans hresult)
    exact absurd (by rw [hempty, List.drop_nil]) hrest
  | ended hreading hresult => exact absurd (List.mem_singleton_self _) hopen
  | appended chunk received hreading hresult hchunk hreceived hend =>
    obtain ⟨socket, hsocket, hrecv, hrest⟩ := hleft hreading (hresult ▸ nofun)
    have hbytes := Socket.of_recv_eq_data (hrecv.symm.trans hresult) hchunk
    obtain ⟨chunks, hholds⟩ := hloops.holds hinfo hreading
    rw [hholds.cString_receive hreceived, hbytes] at hend
    have hlength : bufferSize - 1 < socket.unread.length :=
      not_le.mp fun hle ↦ hrest (List.drop_eq_nil_of_le hle)
    exact ⟨hreading, socket, hsocket, Nat.le_of_pred_lt hlength, hend⟩
  | completed => exact absurd hreading' Bool.false_ne_true

/-- A connection that an event leaves alone has unread bytes after it only if it had before. -/
theorem unread_frame {actions : List Action} {middle : System}
    (hsettles : Settles actions middle next) (hopen : .close fd ∉ actions)
    (hconnections : middle.connections fd = system.connections fd)
    (hsockets : middle.sockets.lookup fd = system.sockets.lookup fd) (hunread : next.Unread fd) :
    system.Unread fd := by
  obtain ⟨info, socket, hinfo, hreading, hsocket, hbytes⟩ := hunread
  rw [hsettles.connections, hconnections] at hinfo
  rw [hsettles.lookup fd hopen, hsockets] at hsocket
  exact ⟨info, socket, hinfo, hreading, hsocket, hbytes⟩

/-- A report to come stays, except for the event that is handled and for a descriptor that is
closed. -/
theorem reported_kept {actions : List Action} {middle : System} {first : ℤ} {rest : List ℤ}
    (hbatch : system.batch = first :: rest) (hsettles : Settles actions middle next)
    (hmiddle : middle.ready = system.ready ∧ middle.batch = rest) (hfd : fd ≠ first)
    (hopen : .close fd ∉ actions) (hreported : fd ∈ system.ready ∨ fd ∈ system.batch) :
    fd ∈ next.ready ∨ fd ∈ next.batch := by
  rcases hreported with hready | hmem
  · rw [← hmiddle.1] at hready
    exact Or.inl (hsettles.ready fd hready hopen)
  · rw [hbatch, List.mem_cons] at hmem
    rw [hsettles.batch, hmiddle.2]
    exact Or.inr (hmem.resolve_left hfd)

theorem Unread.mem_sockets (hunread : system.Unread fd) : fd ∈ system.sockets := by
  obtain ⟨info, socket, hinfo, hreading, hsocket, hbytes⟩ := hunread
  exact AList.lookup_isSome.mp (Option.isSome_of_mem hsocket)

/-- The connection that has been served is flagged if it still has unread bytes. -/
theorem ready_of_unread {info info' : ConnectionInfo} {actions : List Action} {rest : List ℤ}
    (hloops : Loops dir system.connections)
    (hdrains : Drains system (.handle accepts environment))
    (hbatch : system.batch = fd :: rest) (hfd : fd ≠ listenfd)
    (hinfo : system.connections fd = some info)
    (houtcome : Outcome environment dir fd info (system.recv fd).1 info' actions)
    (hsettles : Settles actions
      { system with
        connections := Function.update system.connections fd (some info')
        sockets := (system.recv fd).2
        batch := rest } next)
    (hunread : next.Unread fd) : fd ∈ next.ready := by
  have hkept : .close fd ∉ actions := fun hclose ↦
    hsettles.closed fd hclose hunread.mem_sockets
  obtain ⟨found, socket, hfound, hreading, hsocket, hbytes⟩ := hunread
  have hafter : next.connections fd = some info' :=
    (congrFun hsettles.connections fd).trans (Function.update_self _ _ _)
  obtain rfl := Option.some.inj (hfound.symm.trans hafter)
  rw [hsettles.lookup fd hkept] at hsocket
  obtain ⟨hbefore, socket', hsocket', hlength, hend⟩ :=
    unread_after_outcome hloops hinfo houtcome hreading hkept hsocket hbytes
  rcases hdrains fd (by rw [hbatch, List.head?_cons]) with hready | htaken
  · exact hsettles.ready fd hready hkept
  · rw [if_neg hfd] at htaken
    rcases htaken info socket' hinfo hbefore hsocket' with hshort | hcomplete
    · exact absurd hlength (not_le.mpr hshort)
    · exact absurd hcomplete hend

theorem Flagged.of_handles (hflagged : Flagged system) (hawaited : Awaited system)
    (hloops : Loops dir system.connections)
    (hdrains : Drains system (.handle accepts environment))
    (hhandles : Handles dir environment system next) : Flagged next := by
  cases hhandles with
  | idle hbatch => exact hflagged
  | @accepts socket queue rest _ hbatch hbacklog htable hsettles hreports =>
    have hopen (fd : ℤ) : .close fd ∉ [Action.register (lowestFree system.used)] := nofun
    refine ⟨fun hqueue ↦ ?_, fun fd hunread ↦ ?_⟩
    · rw [hsettles.backlog] at hqueue
      rcases hdrains listenfd (by rw [hbatch, List.head?_cons]) with hready | hlength
      · exact Or.inl (hsettles.ready listenfd hready (hopen _))
      · rw [if_pos rfl, hbacklog, List.length_cons] at hlength
        exact absurd (List.eq_nil_of_length_eq_zero (Nat.eq_zero_of_le_zero
          (Nat.le_of_succ_le_succ hlength))) hqueue
    · by_cases hfd : fd = lowestFree system.used
      · subst hfd
        obtain ⟨info, found, -, -, hfound, hbytes⟩ := hunread
        have hsocket : next.sockets.lookup (lowestFree system.used) = some socket :=
          (hsettles.lookup _ (hopen _)).trans (AList.lookup_insert _)
        obtain rfl := Option.some.inj (hfound.symm.trans hsocket)
        exact Or.inl (hreports (Or.inl hbytes))
      · have hbefore : system.Unread fd := unread_frame hsettles (hopen fd)
          (Function.update_of_ne hfd _ _) (AList.lookup_insert_ne hfd) hunread
        have hlisten : fd ≠ listenfd := fun heq ↦ hawaited.listening (heq ▸ hbefore.mem_sockets)
        exact reported_kept hbatch hsettles ⟨rfl, rfl⟩ hlisten (hopen fd)
          (hflagged.unread fd hbefore)
  | @serves connfd rest info info' actions _ hbatch hfd hinfo houtcome hsettles =>
    have hopen {fd : ℤ} (hne : fd ≠ connfd) : .close fd ∉ actions := fun hclose ↦
      hne (close_of_outcome hloops hinfo houtcome hclose)
    refine ⟨fun hbacklog ↦ ?_, fun fd hunread ↦ ?_⟩
    · rw [hsettles.backlog] at hbacklog
      exact reported_kept hbatch hsettles ⟨rfl, rfl⟩ (Ne.symm hfd) (hopen (Ne.symm hfd))
        (hflagged.backlog hbacklog)
    · by_cases hne : fd = connfd
      · subst hne
        exact Or.inl (ready_of_unread hloops hdrains hbatch hfd hinfo houtcome hsettles hunread)
      · have hbefore : system.Unread fd := unread_frame hsettles (hopen hne)
          (Function.update_of_ne hne _ _) (lookup_recv_of_ne hne) hunread
        exact reported_kept hbatch hsettles ⟨rfl, rfl⟩ hne (hopen hne)
          (hflagged.unread fd hbefore)

end Handles

/-! ### Runs -/

section Runs

variable {dir : List UInt8} {system next : System} {input : Input} {inputs : List Input}

theorem Flagged.of_step (hflagged : Flagged system) (hawaited : Awaited system)
    (hloops : Loops dir system.connections) (hdrains : Drains system input)
    (hstep : step dir system input = .ok next) : Flagged next := by
  cases steps_of_step hstep with
  | idle => exact hflagged
  | connect =>
    refine ⟨fun _ ↦ Or.inl List.mem_insert_self, fun fd hunread ↦ ?_⟩
    exact (hflagged.unread fd hunread).imp_left List.mem_insert_of_mem
  | waiting index call =>
    refine ⟨fun hbacklog ↦ hflagged.backlog fun hnone ↦ hbacklog ?_, hflagged.unread⟩
    change system.backlog.modify index (·.after call) = []
    rw [hnone, List.modify_nil]
  | @arrives connfd call socket hopened =>
    refine ⟨fun hbacklog ↦ ?_, fun fd hunread ↦ ?_⟩
    · exact (hflagged.backlog hbacklog).imp_left List.mem_insert_of_mem
    · by_cases hfd : fd = connfd
      · exact Or.inl (List.mem_insert_iff.mpr (Or.inl hfd))
      · obtain ⟨info, found, hinfo, hreading, hfound, hbytes⟩ := hunread
        have hbefore : system.Unread fd :=
          ⟨info, found, hinfo, hreading, (AList.lookup_insert_ne hfd).symm.trans hfound, hbytes⟩
        exact (hflagged.unread fd hbefore).imp_left List.mem_insert_of_mem
  | @waits chosen hbatch hchosen =>
    -- what is reported moves from `ready` to the batch, which was empty
    have hmoved {fd : ℤ} (hmem : fd ∈ system.ready ∨ fd ∈ system.batch) :
        fd ∈ system.ready.filter (· ∉ chosen) ∨ fd ∈ chosen := by
      have hready : fd ∈ system.ready := hmem.resolve_right (hbatch ▸ List.not_mem_nil)
      by_cases hreported : fd ∈ chosen
      · exact Or.inr hreported
      · exact Or.inl (List.mem_filter.mpr ⟨hready, decide_eq_true hreported⟩)
    exact ⟨fun hbacklog ↦ hmoved (hflagged.backlog hbacklog),
      fun fd hunread ↦ hmoved (hflagged.unread fd hunread)⟩
  | handles hhandles => exact hflagged.of_handles hawaited hloops hdrains hhandles

theorem flagged_start : Flagged start :=
  ⟨fun hbacklog ↦ absurd rfl hbacklog, fun _ hunread ↦ absurd hunread.mem_sockets
    (AList.notMem_empty _)⟩

/-- In a run in which the loop drains what it handles, everything that is left to take has a report
to come. -/
theorem flagged_run (halong : Along (step dir) Drains start inputs)
    (hrun : run (step dir) start inputs = .ok system) : Flagged system := by
  have hkeep : ∀ (system : System) (input : Input) (next : System),
      (Flagged system ∧ Listed system ∧ Awaited system ∧ Loops dir system.connections) →
      Drains system input → step dir system input = .ok next →
        Flagged next ∧ Listed next ∧ Awaited next ∧ Loops dir next.connections := by
    intro system input next ⟨hflagged, horderly⟩ hdrains hstep
    exact ⟨hflagged.of_step horderly.2.1 horderly.2.2 hdrains hstep,
      orderly_of_step horderly hstep⟩
  exact (invariant hkeep ⟨flagged_start, orderly_start⟩ halong hrun).1

end Runs

/-- In a run in which the loop drains what it handles, whenever it waits with nothing to be
reported, no connection waits and no connection that is reading has unread bytes. -/
theorem quiet_of_drains {dir : List UInt8} {inputs : List Input}
    (halong : Along (step dir) Drains start inputs) {before : List Input}
    (hbefore : before <+: inputs) {system : System}
    (hrun : run (step dir) start before = .ok system) (hblocked : system.Blocked) :
    system.Quiet := by
  obtain ⟨after, rfl⟩ := hbefore
  exact (flagged_run halong.of_append hrun).quiet hblocked

/-! ### A client that leaves -/

section Drains

variable {accepts : Bool} {environment : Environment} {system : System} {fd : ℤ}

theorem drains_of_waiting (hbatch : system.batch.head? = some listenfd)
    (hlength : system.backlog.length ≤ 1) : Drains system (.handle accepts environment) := by
  intro found hfound
  obtain rfl := Option.some.inj (hbatch.symm.trans hfound)
  rw [if_pos rfl]
  exact Or.inr hlength

theorem drains_of_unread {socket : Socket} (hbatch : system.batch.head? = some fd)
    (hfd : fd ≠ listenfd) (hsocket : system.sockets.lookup fd = some socket)
    (hlength : socket.unread.length < bufferSize) :
    Drains system (.handle accepts environment) := by
  intro found hfound
  obtain rfl := Option.some.inj (hbatch.symm.trans hfound)
  rw [if_neg hfd]
  refine Or.inr fun info other _ _ hother ↦ Or.inl ?_
  obtain rfl := Option.some.inj (hsocket.symm.trans hother)
  exact hlength

end Drains

/-- A client connects and closes its end; the loop handles one event after the other. -/
def visitor : List Input :=
  client ++ [.accepted 5 .close, .wait [5], .handle true noFiles]

theorem visitor_drains : Along (step (ascii "/srv")) Drains start visitor := by
  refine (along_cons_of_ok rfl _).mpr ⟨trivial, (along_cons_of_ok rfl _).mpr ⟨trivial,
    (along_cons_of_ok rfl _).mpr ⟨?_, (along_cons_of_ok rfl _).mpr ⟨trivial,
      (along_cons_of_ok rfl _).mpr ⟨trivial, (along_cons_of_ok rfl _).mpr ⟨?_, trivial⟩⟩⟩⟩⟩⟩
  · exact drains_of_waiting rfl (le_refl 1)
  · exact drains_of_unread rfl (by decide) rfl (by decide)

theorem visitor_quiet : ∃ system, run (step (ascii "/srv")) start visitor = .ok system ∧
    system.Blocked ∧ system.Quiet :=
  ⟨_, rfl, ⟨rfl, rfl⟩,
    quiet_of_drains visitor_drains (List.prefix_refl _) rfl ⟨rfl, rfl⟩⟩

/-! ### Two clients at a time -/

/-- Two clients connect before the loop has handled the event of the first, and one of them is never
accepted. -/
theorem twoClients_not_quiet : ∃ system, run (step (ascii "/srv")) start
    [.connect, .connect, .wait [listenfd], .handle true noFiles] = .ok system ∧
      system.Blocked ∧ ¬system.Quiet := by
  refine ⟨_, rfl, ⟨rfl, rfl⟩, fun hquiet ↦ ?_⟩
  exact absurd hquiet.1 (List.cons_ne_nil _ _)

end Homework.FileServer.System
