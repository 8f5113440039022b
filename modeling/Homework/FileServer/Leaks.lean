import Homework.FileServer.Indices

/-!
# Descriptors after a request

`handle_request` closes the descriptor of its client on every path, and the file that it has sent.
What it does not close is a file that it has opened and then denies access to, since it is not a
regular one. So its calls leave the descriptors in use that were in use before, without that of the
client, exactly in the runs in which no request is for something else than a regular file that can
be opened (`descriptors_released_iff`).
-/

set_option autoImplicit false
set_option relaxedAutoImplicit false

namespace Homework.FileServer.System

open Homework.Library.CString Homework.Library.Descriptors Homework.Library.Runs

/-! ### The descriptors in use -/

/-- The descriptors of the sockets are none of the others. -/
def Apart (system : System) : Prop := ∀ fd ∈ system.sockets, fd ∉ standard ++ system.files

section Apart

variable {dir : List UInt8} {system next : System} {fd : ℤ}

theorem mem_used_iff :
    fd ∈ system.used ↔ fd ∈ standard ++ system.files ∨ fd ∈ system.sockets := by
  rw [used, List.mem_append, AList.mem_keys]

theorem Apart.act (hapart : Apart system) (action : Action) : Apart (system.act action) := by
  cases action with
  | register connfd =>
    rw [System.act]
    split
    · exact hapart
    · exact hapart
  | request connfd text => exact hapart
  | write connfd bytes => exact hapart
  | fopen path =>
    intro fd hsocket hmem
    change fd ∈ standard ++ lowestFree system.used :: system.files at hmem
    rcases List.mem_append.mp hmem with hstandard | hfile
    · exact hapart fd hsocket (List.mem_append_left _ hstandard)
    · rcases List.mem_cons.mp hfile with rfl | hfile
      · exact lowestFree_notMem system.used (mem_used_iff.mpr (Or.inr hsocket))
      · exact hapart fd hsocket (List.mem_append_right _ hfile)
  | fclose =>
    intro fd hsocket hmem
    change fd ∈ standard ++ system.files.tail at hmem
    rcases List.mem_append.mp hmem with hstandard | hfile
    · exact hapart fd hsocket (List.mem_append_left _ hstandard)
    · exact hapart fd hsocket (List.mem_append_right _ (List.mem_of_mem_tail hfile))
  | close connfd => exact fun fd hsocket ↦ hapart fd (AList.mem_erase.mp hsocket).2

theorem Apart.foldl (hapart : Apart system) (actions : List Action) :
    Apart (actions.foldl System.act system) := by
  induction actions generalizing system with
  | nil => exact hapart
  | cons action actions ih => exact ih (hapart.act action)

theorem Apart.serveEvent {event : Event} (hapart : Apart system)
    (hserve : serveEvent dir event system = .ok next) : Apart next := by
  obtain ⟨connections, actions, -, rfl⟩ := of_serveEvent hserve
  have hmiddle : Apart { system with connections := connections } := hapart
  exact hmiddle.foldl actions

/-- The socket of a new connection has a descriptor that was not in use. -/
theorem Apart.accept (hapart : Apart system) (accepts : Bool) :
    Apart (system.accept accepts).2 := by
  rcases accept_eq_or accepts system with ⟨-, haccept⟩ | ⟨socket, queue, -, -, haccept⟩
  · rw [haccept]
    exact hapart
  · rw [haccept]
    intro fd hsocket hmem
    rcases (AList.mem_insert _).mp hsocket with rfl | hsocket
    · exact lowestFree_notMem system.used (mem_used_iff.mpr (Or.inl hmem))
    · exact hapart fd hsocket hmem

theorem Apart.step {input : Input} (hapart : Apart system)
    (hstep : step dir system input = .ok next) : Apart next := by
  cases input with
  | connect => exact Except.ok.inj hstep ▸ hapart
  | waiting index call => exact Except.ok.inj hstep ▸ hapart
  | accepted connfd call =>
    obtain rfl := Except.ok.inj hstep
    rw [arrive]
    split
    · exact hapart
    · next socket hsocket =>
      split
      · exact hapart
      · intro fd hmem
        rcases (AList.mem_insert _).mp hmem with rfl | hmem
        · exact hapart fd (AList.lookup_isSome.mp (Option.isSome_of_mem hsocket))
        · exact hapart fd hmem
  | wait chosen =>
    rw [System.step] at hstep
    split at hstep
    · exact Except.ok.inj hstep ▸ hapart
    · exact Except.ok.inj hstep ▸ hapart
  | handle accepts environment =>
    rw [System.step] at hstep
    split at hstep
    · exact Except.ok.inj hstep ▸ hapart
    · next connfd rest hbatch =>
      rw [serveNext] at hstep
      split at hstep
      · have hrest : Apart { system with batch := rest } := hapart
        exact (hrest.accept accepts).serveEvent hstep
      · have hmiddle : Apart { system with
            batch := rest
            sockets := (recv connfd { system with batch := rest }).2 } :=
          fun fd hmem ↦ hapart fd (mem_of_mem_recv hmem)
        exact hmiddle.serveEvent hstep

/-- `close` takes the descriptor of a socket from those in use, and no other. -/
theorem mem_used_act_close_iff (hapart : Apart system) (hsocket : fd ∈ system.sockets)
    (other : ℤ) : other ∈ (system.act (.close fd)).used ↔ other ∈ system.used ∧ other ≠ fd := by
  have hfd := hapart fd hsocket
  rw [mem_used_iff, mem_used_iff]
  change other ∈ standard ++ system.files ∨ other ∈ system.sockets.erase fd ↔ _
  rw [AList.mem_erase]
  constructor
  · rintro (hmem | ⟨hne, hmem⟩)
    · exact ⟨Or.inl hmem, fun heq ↦ hfd (heq ▸ hmem)⟩
    · exact ⟨Or.inr hmem, hne⟩
  · rintro ⟨hmem | hmem, hne⟩
    · exact Or.inl hmem
    · exact Or.inr ⟨hne, hmem⟩

end Apart

theorem apart_start : Apart start := fun fd hsocket ↦ absurd hsocket (AList.notMem_empty fd)

/-! ### A call of `handle_request` -/

/-- The loop handles an event of a connection whose data completes a request; `received` is the
connection with this data. -/
structure Completes (system : System) (fd : ℤ) (received : ConnectionInfo) : Prop where
  next : ∃ rest, system.batch = fd :: rest
  ne : fd ≠ listenfd
  data : ∃ info chunk, system.connections fd = some info ∧ info.readingState = true ∧
    (system.recv fd).1 = .data chunk ∧ chunk.val ≠ [] ∧ receive info chunk.val = .ok received
  ends : crlfcrlf <:+: cString received.buffer

/-- After the call of `handle_request` that a step makes, if it makes one, the descriptors in use
are those before it without that of the client. -/
def Releases (dir : List UInt8) (system : System) (input : Input) : Prop :=
  ∀ accepts environment fd received next, input = .handle accepts environment →
    Completes system fd received → step dir system input = .ok next →
      ∀ other, other ∈ next.used ↔ other ∈ system.used ∧ other ≠ fd

/-- The request that a step completes is a GET request for something else than a regular file,
which `fopen` opens. -/
def OpensIrregular (dir : List UInt8) (system : System) : Input → Prop
  | .handle _ environment => ∃ fd received uri, Completes system fd received ∧
    requestLine environment received.buffer = .ok (ascii "GET", uri) ∧
      environment.stat (fullPath dir uri) = some false ∧
        (environment.fopen (fullPath dir uri)).isSome
  | .connect => False
  | .waiting _ _ => False
  | .accepted _ _ => False
  | .wait _ => False

section Call

variable {dir request : List UInt8} {accepts : Bool} {environment : Environment}
  {system next : System} {fd : ℤ} {received : ConnectionInfo}

/-- The connection that has been served, before the system calls of `handle_request`. -/
def served (system : System) (fd : ℤ) (info : ConnectionInfo) : System :=
  { system with
    connections := Function.update system.connections fd (some info)
    sockets := (system.recv fd).2
    batch := system.batch.tail }

/-- The step that completes a request makes the system calls of `handle_request`. -/
theorem Completes.step_eq (hcompletes : Completes system fd received)
    (hloops : Loops dir system.connections) (accepts : Bool) (environment : Environment) :
    step dir system (.handle accepts environment) =
      match handleRequest environment fd dir received.buffer with
      | .error fault => .error (.request fault)
      | .ok (answer, actions) => .ok (actions.foldl act
          (system.served fd { received with buffer := answer, readingState := false })) := by
  obtain ⟨rest, hbatch⟩ := hcompletes.next
  obtain ⟨info, chunk, hinfo, hreading, hrecv, hchunk, hreceived⟩ := hcompletes.data
  have hrecv' : recv fd { system with batch := rest } = system.recv fd := rfl
  have htable := hloops.inTable hinfo
  simp only [step, hbatch, serveNext, if_neg hcompletes.ne, hrecv', hrecv, serveEvent, serve,
    if_pos htable, hinfo, serveConnection, if_pos hreading, if_neg hchunk, receiveData, hreceived,
    if_pos hcompletes.ends]
  rcases handleRequest environment fd dir received.buffer with fault | ⟨answer, actions⟩
  · rfl
  · simp only [served, hbatch, List.foldl_cons, act, List.tail_cons]

/-- Data comes from a socket. -/
theorem Completes.mem_sockets (hcompletes : Completes system fd received) :
    fd ∈ system.sockets ∧ ∀ other, other ∈ (system.recv fd).2 ↔ other ∈ system.sockets := by
  obtain ⟨info, chunk, hinfo, hreading, hrecv, hchunk, hreceived⟩ := hcompletes.data
  rcases recv_of_reading hinfo hreading with hfailed | ⟨socket, hsocket, hdata⟩
  · exact absurd (hfailed.symm.trans hrecv) nofun
  · have hmem : fd ∈ system.sockets := AList.lookup_isSome.mp (Option.isSome_of_mem hsocket)
    refine ⟨hmem, fun other ↦ ?_⟩
    rw [hdata, AList.mem_insert]
    exact or_iff_right_of_imp fun heq ↦ heq ▸ hmem

theorem Apart.served (hapart : Apart system) (hcompletes : Completes system fd received)
    (info : ConnectionInfo) : Apart (system.served fd info) :=
  fun other hmem ↦ hapart other ((hcompletes.mem_sockets.2 other).mp hmem)

theorem Completes.mem_used_served_iff (hcompletes : Completes system fd received)
    (info : ConnectionInfo) (other : ℤ) :
    other ∈ (system.served fd info).used ↔ other ∈ system.used := by
  rw [mem_used_iff, mem_used_iff]
  exact or_congr_right (hcompletes.mem_sockets.2 other)

/-- Writes keep the descriptors. -/
theorem foldl_act_write (chunks : List (List UInt8)) :
    (chunks.map (Action.write fd)).foldl act system = system := by
  induction chunks with
  | nil => rfl
  | cons chunk chunks ih => exact ih

/-- A file that is sent is closed. -/
theorem foldl_act_sendFile (path : List UInt8) (file : File) :
    (Action.fopen path :: sendFile file fd ++ [Action.close fd]).foldl act system =
      system.act (.close fd) := by
  simp only [sendFile, List.cons_append, List.foldl_cons, List.foldl_append, foldl_act_write,
    List.foldl_nil, act, List.tail_cons]

/-- The answer to a GET request leaves the descriptors in use, without that of the client, unless it
opens something else than a regular file. -/
theorem used_answers_iff {path : List UInt8} {actions : List Action}
    (hanswers : Answers environment fd path actions) (hapart : Apart system)
    (hsocket : fd ∈ system.sockets) :
    (∀ other, other ∈ (actions.foldl act system).used ↔ other ∈ system.used ∧ other ≠ fd) ↔
      ¬(environment.stat path = some false ∧ (environment.fopen path).isSome) := by
  cases hanswers with
  | notFound hstat =>
    refine iff_of_true (mem_used_act_close_iff hapart hsocket) fun hopens ↦ ?_
    exact absurd (hstat.symm.trans hopens.1) nofun
  | file file hstat hopen =>
    rw [foldl_act_sendFile]
    refine iff_of_true (mem_used_act_close_iff hapart hsocket) fun hopens ↦ ?_
    exact absurd (Option.some.inj (hstat.symm.trans hopens.1)) nofun
  | notRegular file hstat hopen =>
    refine iff_of_false (fun hall ↦ ?_) (not_not.mpr ⟨hstat, by rw [hopen]; rfl⟩)
    -- the descriptor of the file, which is still open
    have hnew : lowestFree system.used ≠ fd := fun heq ↦
      lowestFree_notMem system.used (heq ▸ mem_used_iff.mpr (Or.inr hsocket))
    have hopened : lowestFree system.used ∈ (system.act (.fopen path)).used :=
      mem_used_iff.mpr (Or.inl (List.mem_append_right _ List.mem_cons_self))
    have hkept := (mem_used_act_close_iff (hapart.act (.fopen path)) hsocket _).mpr
      ⟨hopened, hnew⟩
    exact lowestFree_notMem system.used ((hall _).mp hkept).1
  | notOpened regular hstat hopen =>
    refine iff_of_true (mem_used_act_close_iff hapart hsocket) fun hopens ↦ ?_
    rw [hopen] at hopens
    exact absurd hopens.2 Bool.false_ne_true

/-- The buffer of a connection that completes a request. -/
theorem Completes.length_buffer (hcompletes : Completes system fd received)
    (hloops : Loops dir system.connections) : received.buffer.length = bufferSize := by
  obtain ⟨info, chunk, hinfo, hreading, -, -, hreceived⟩ := hcompletes.data
  obtain ⟨chunks, hholds⟩ := hloops.holds hinfo hreading
  exact (hholds.of_receive hreceived).length_buffer

/-- A request for something else than a regular file leaves a descriptor in use. -/
theorem not_releases_of_opensIrregular {input : Input} (hloops : Loops dir system.connections)
    (hapart : Apart system) (hopens : OpensIrregular dir system input) :
    ¬Releases dir system input := by
  intro hreleases
  cases input with
  | handle accepts environment =>
    obtain ⟨fd, received, uri, hcompletes, hline, hirregular⟩ := hopens
    obtain ⟨answer, actions, hhandle, hspec⟩ :=
      handleRequest_spec fd dir hline (hcompletes.length_buffer hloops)
    rw [if_pos rfl] at hspec
    have hstep := hcompletes.step_eq hloops accepts environment
    simp only [hhandle] at hstep
    have hused := hreleases accepts environment fd received _ rfl hcompletes hstep
    have hserved : Apart (system.served fd { received with
        buffer := answer, readingState := false }) := hapart.served hcompletes _
    have hsocket : fd ∈ (system.recv fd).2 :=
      (hcompletes.mem_sockets.2 fd).mpr hcompletes.mem_sockets.1
    refine (used_answers_iff hspec hserved hsocket).mp (fun other ↦ ?_) hirregular
    rw [hcompletes.mem_used_served_iff]
    exact hused other
  | connect => exact hopens
  | waiting index call => exact hopens
  | accepted fd call => exact hopens
  | wait chosen => exact hopens

theorem releases_iff {input : Input} (hloops : Loops dir system.connections)
    (hapart : Apart system) : Releases dir system input ↔ ¬OpensIrregular dir system input := by
  constructor
  · exact fun hreleases hopens ↦ not_releases_of_opensIrregular hloops hapart hopens hreleases
  · rintro hregular accepts environment fd received next rfl hcompletes hstep other
    rw [hcompletes.step_eq hloops] at hstep
    have hsocket : fd ∈ (system.recv fd).2 :=
      (hcompletes.mem_sockets.2 fd).mpr hcompletes.mem_sockets.1
    split at hstep
    · exact absurd hstep nofun
    · next answer actions hhandle =>
      obtain rfl := Except.ok.inj hstep
      obtain ⟨method, uri, hline, hspec⟩ :=
        of_handleRequest (hcompletes.length_buffer hloops) hhandle
      rw [← hcompletes.mem_used_served_iff]
      split at hspec
      · next hmethod =>
        subst hmethod
        refine (used_answers_iff hspec (hapart.served hcompletes _) hsocket).mpr ?_ other
        exact fun hirregular ↦ hregular ⟨fd, received, uri, hcompletes, hline, hirregular⟩
      · rw [hspec]
        exact mem_used_act_close_iff (hapart.served hcompletes _) hsocket other

end Call

/-! ### Runs -/

/-- In a run of the server, all calls of `handle_request` leave the descriptors in use that were in
use before, without that of the client, exactly when no request is for something else than a regular
file that can be opened. -/
theorem descriptors_released_iff (dir : List UInt8) (inputs : List Input) :
    Along (step dir) (Releases dir) start inputs ↔
      Along (step dir) (fun system input ↦ ¬OpensIrregular dir system input) start inputs := by
  have hcongr : ∀ (system : System) (input : Input),
      Loops dir system.connections ∧ Apart system →
        (Releases dir system input ↔ ¬OpensIrregular dir system input) :=
    fun _ _ hinv ↦ releases_iff hinv.1 hinv.2
  exact along_congr hcongr
    (fun _ _ _ hinv hstep ↦ ⟨hinv.1.of_step hstep, hinv.2.step hstep⟩)
    ⟨⟨[], [], rfl⟩, apart_start⟩ inputs

/-- There is a directory at every path. -/
def directories : Environment where
  stat := fun _ ↦ some false
  fopen := fun _ ↦ some ⟨4096, []⟩
  method := []
  uri := []
  beyond := List.replicate 5 0
  length_beyond := length_zeros

/-- A client connects and asks for the root. -/
def rootRequest : List Input :=
  client ++ [.accepted 5 (.send (ascii "GET / HTTP/1.1\r\n\r\n")), .wait [5]]

/-- The descriptor of the directory stays in use. -/
theorem rootRequest_not_released : ¬Along (step (ascii "/srv")) (Releases (ascii "/srv")) start
    (rootRequest ++ [.handle true directories]) := by
  obtain ⟨system, hrun⟩ : ∃ system, run (step (ascii "/srv")) start rootRequest = .ok system :=
    ⟨_, rfl⟩
  have hloops := loops_run hrun
  have hapart : Apart system := always (fun _ _ _ hapart hstep ↦ hapart.step hstep) apart_start hrun
  obtain ⟨received, hreceived, hreading, hholds⟩ := (holds_newConnection 5).receive
    (show ([] ++ [ascii "GET / HTTP/1.1\r\n\r\n"]).flatten.length < bufferSize by decide)
  have htext : cString received.buffer = ascii "GET / HTTP/1.1\r\n\r\n" := by
    rw [hholds.cString_buffer]
    decide
  have hcompletes : Completes system 5 received := by
    obtain rfl := Except.ok.inj hrun
    refine ⟨⟨[], rfl⟩, by decide, ⟨newConnection 5,
      ⟨ascii "GET / HTTP/1.1\r\n\r\n", by decide⟩, rfl, rfl, rfl, by decide, hreceived⟩, ?_⟩
    rw [htext]
    decide
  have hline : requestLine directories received.buffer = .ok (ascii "GET", ascii "/") := by
    rw [requestLine, htext]
    decide
  have hopens : OpensIrregular (ascii "/srv") system (.handle true directories) :=
    ⟨5, received, ascii "/", hcompletes, hline, rfl, rfl⟩
  intro halong
  exact not_releases_of_opensIrregular hloops hapart hopens (halong.last hrun)

end Homework.FileServer.System
