import Homework.FileServer.Kernel

/-!
# Indices of the array of connections

The array has an element for each event that one `epoll_wait` reports, and is indexed by
descriptors. A descriptor that is reported is the listening socket or one under which a connection
was accepted (`Listed`), and there is a connection for every event of the listening socket
(`Awaited`). So an index lies outside the array only when a connection is accepted: when `accept`
fails, or when the descriptors below `MAX_EVENTS` are in use (`indices_inTable_iff`).
-/

set_option autoImplicit false
set_option relaxedAutoImplicit false

namespace Homework.FileServer.System

open Homework.Library.CString Homework.Library.Descriptors Homework.Library.Runs

/-! ### What is reported -/

/-- What is reported is the listening socket or an element of the array that was written, and so are
the sockets that are open. -/
structure Listed (system : System) : Prop where
  ready : ∀ fd ∈ system.ready, fd = listenfd ∨ (system.connections fd).isSome
  batch : ∀ fd ∈ system.batch, fd = listenfd ∨ (system.connections fd).isSome
  sockets : ∀ fd ∈ system.sockets, (system.connections fd).isSome

section Listed

variable {dir : List UInt8} {system next : System} {input : Input}

theorem isSome_update {connections : Table} {fd connfd : ℤ} {info : ConnectionInfo}
    (hfd : fd = connfd ∨ (connections fd).isSome) :
    (Function.update connections connfd (some info) fd).isSome := by
  by_cases heq : fd = connfd
  · rw [heq, Function.update_self, Option.isSome_some]
  · rw [Function.update_of_ne heq]
    exact hfd.resolve_left heq

theorem Listed.of_settles {actions : List Action} (hlisted : Listed system)
    (hsettles : Settles actions system next) : Listed next where
  ready := fun fd hmem ↦ by
    rw [hsettles.connections]
    rcases hsettles.reported fd hmem with hready | hsocket
    · exact hlisted.ready fd hready
    · exact Or.inr (hlisted.sockets fd hsocket)
  batch := fun fd hmem ↦ by
    rw [hsettles.batch] at hmem
    rw [hsettles.connections]
    exact hlisted.batch fd hmem
  sockets := fun fd hmem ↦ by
    rw [hsettles.connections]
    exact hlisted.sockets fd (hsettles.sockets fd hmem)

theorem Listed.of_handles {environment : Environment} (hlisted : Listed system)
    (hhandles : Handles dir environment system next) : Listed next := by
  cases hhandles with
  | idle hbatch => exact hlisted
  | @accepts socket queue rest _ hbatch hbacklog htable hsettles hflagged =>
    refine Listed.of_settles ⟨fun fd hmem ↦ ?_, fun fd hmem ↦ ?_, fun fd hmem ↦ ?_⟩ hsettles
    · exact (hlisted.ready fd hmem).imp_right fun hsome ↦ isSome_update (Or.inr hsome)
    · have hbefore := hlisted.batch fd (hbatch ▸ List.mem_cons_of_mem _ hmem)
      exact hbefore.imp_right fun hsome ↦ isSome_update (Or.inr hsome)
    · exact isSome_update (((AList.mem_insert _).mp hmem).imp_right (hlisted.sockets fd))
  | @serves connfd rest info info' actions _ hbatch hfd hinfo houtcome hsettles =>
    refine Listed.of_settles ⟨fun fd hmem ↦ ?_, fun fd hmem ↦ ?_, fun fd hmem ↦ ?_⟩ hsettles
    · exact (hlisted.ready fd hmem).imp_right fun hsome ↦ isSome_update (Or.inr hsome)
    · have hbefore := hlisted.batch fd (hbatch ▸ List.mem_cons_of_mem _ hmem)
      exact hbefore.imp_right fun hsome ↦ isSome_update (Or.inr hsome)
    · exact isSome_update (Or.inr (hlisted.sockets fd (mem_of_mem_recv hmem)))

theorem Listed.of_step (hlisted : Listed system) (hstep : step dir system input = .ok next) :
    Listed next := by
  cases steps_of_step hstep with
  | idle => exact hlisted
  | connect =>
    refine ⟨fun fd hmem ↦ ?_, hlisted.batch, hlisted.sockets⟩
    exact (List.mem_insert_iff.mp hmem).elim Or.inl (hlisted.ready fd)
  | waiting index call => exact ⟨hlisted.ready, hlisted.batch, hlisted.sockets⟩
  | arrives call socket hopened =>
    refine ⟨fun fd hmem ↦ ?_, hlisted.batch, fun fd hmem ↦ ?_⟩
    · rcases List.mem_insert_iff.mp hmem with rfl | hready
      · exact Or.inr (hlisted.sockets fd hopened)
      · exact hlisted.ready fd hready
    · rcases (AList.mem_insert _).mp hmem with rfl | hbefore
      · exact hlisted.sockets fd hopened
      · exact hlisted.sockets fd hbefore
  | waits hbatch hchosen =>
    refine ⟨fun fd hmem ↦ ?_, fun fd hmem ↦ ?_, hlisted.sockets⟩
    · exact hlisted.ready fd (List.mem_of_mem_filter hmem)
    · exact hlisted.ready fd (hchosen.2.1 hmem)
  | handles hhandles => exact hlisted.of_handles hhandles

end Listed

/-- There is a connection for every event of the listening socket. -/
structure Awaited (system : System) : Prop where
  nodup : system.batch.Nodup
  listening : listenfd ∉ system.sockets
  once : listenfd ∈ system.ready ∨ listenfd ∈ system.batch → 1 ≤ system.backlog.length
  twice : listenfd ∈ system.ready → listenfd ∈ system.batch → 2 ≤ system.backlog.length

section Awaited

variable {dir : List UInt8} {system next : System} {input : Input}

theorem Awaited.of_settles {actions : List Action} (hawaited : Awaited system)
    (hsettles : Settles actions system next) : Awaited next := by
  have hready (hmem : listenfd ∈ next.ready) : listenfd ∈ system.ready :=
    (hsettles.reported listenfd hmem).resolve_right hawaited.listening
  refine ⟨hsettles.batch ▸ hawaited.nodup,
    fun hmem ↦ hawaited.listening (hsettles.sockets _ hmem), fun hmem ↦ ?_, fun hmem hbatch ↦ ?_⟩
  · rw [hsettles.batch] at hmem
    rw [hsettles.backlog]
    exact hawaited.once (hmem.imp_left hready)
  · rw [hsettles.batch] at hbatch
    rw [hsettles.backlog]
    exact hawaited.twice (hready hmem) hbatch

theorem Awaited.of_handles {environment : Environment} (hawaited : Awaited system)
    (hhandles : Handles dir environment system next) : Awaited next := by
  cases hhandles with
  | idle hbatch => exact hawaited
  | @accepts socket queue rest _ hbatch hbacklog htable hsettles hflagged =>
    have hnodup : (listenfd :: rest).Nodup := hbatch ▸ hawaited.nodup
    have hnotMem : listenfd ∉ rest := (List.nodup_cons.mp hnodup).1
    refine Awaited.of_settles ⟨(List.nodup_cons.mp hnodup).2, fun hmem ↦ ?_, fun hmem ↦ ?_,
      fun _ hmem ↦ absurd hmem hnotMem⟩ hsettles
    · rcases (AList.mem_insert _).mp hmem with heq | hbefore
      · exact lowestFree_ne_listenfd system heq.symm
      · exact hawaited.listening hbefore
    · have hready : listenfd ∈ system.ready := hmem.resolve_right hnotMem
      have hlength := hawaited.twice hready (hbatch ▸ List.mem_cons_self)
      rw [hbacklog, List.length_cons] at hlength
      exact Nat.le_of_succ_le_succ hlength
  | @serves connfd rest info info' actions _ hbatch hfd hinfo houtcome hsettles =>
    have hnodup : (connfd :: rest).Nodup := hbatch ▸ hawaited.nodup
    have hrest (hmem : listenfd ∈ rest) : listenfd ∈ system.batch :=
      hbatch ▸ List.mem_cons_of_mem _ hmem
    refine Awaited.of_settles ⟨(List.nodup_cons.mp hnodup).2, fun hmem ↦ ?_, fun hmem ↦ ?_,
      fun hready hmem ↦ ?_⟩ hsettles
    · exact hawaited.listening (mem_of_mem_recv hmem)
    · exact hawaited.once (hmem.imp_right hrest)
    · exact hawaited.twice hready (hrest hmem)

theorem Awaited.of_step (hawaited : Awaited system) (hstep : step dir system input = .ok next) :
    Awaited next := by
  cases steps_of_step hstep with
  | idle => exact hawaited
  | connect =>
    have hlength : (system.backlog ++ [Socket.new]).length = system.backlog.length + 1 :=
      List.length_append
    refine ⟨hawaited.nodup, hawaited.listening, fun _ ↦ ?_, fun _ hmem ↦ ?_⟩
    · exact hlength ▸ Nat.le_add_left 1 _
    · exact hlength ▸ Nat.succ_le_succ (hawaited.once (Or.inr hmem))
  | waiting index call =>
    have hlength : (system.backlog.modify index (·.after call)).length = system.backlog.length :=
      List.length_modify ..
    exact ⟨hawaited.nodup, hawaited.listening, fun hmem ↦ hlength ▸ hawaited.once hmem,
      fun hready hbatch ↦ hlength ▸ hawaited.twice hready hbatch⟩
  | @arrives connfd call socket hopened =>
    have hne : listenfd ≠ connfd := fun heq ↦ hawaited.listening (heq ▸ hopened)
    have hready (hmem : listenfd ∈ system.ready.insert connfd) : listenfd ∈ system.ready :=
      (List.mem_insert_iff.mp hmem).resolve_left hne
    exact ⟨hawaited.nodup,
      fun hmem ↦ hawaited.listening (((AList.mem_insert _).mp hmem).resolve_left hne),
      fun hmem ↦ hawaited.once (hmem.imp_left hready),
      fun hmem hbatch ↦ hawaited.twice (hready hmem) hbatch⟩
  | waits hbatch hchosen =>
    refine ⟨hchosen.1, hawaited.listening, fun hmem ↦ hawaited.once (Or.inl ?_),
      fun hready hmem ↦ ?_⟩
    · exact hmem.elim List.mem_of_mem_filter fun hmem ↦ hchosen.2.1 hmem
    · exact absurd hmem (of_decide_eq_true (List.mem_filter.mp hready).2)
  | handles hhandles => exact hawaited.of_handles hhandles

end Awaited

/-! ### Accepting -/

/-- When the loop is about to accept a connection, `accept` succeeds, and a descriptor that is an
index of the array is not in use. -/
def HasRoom (system : System) : Input → Prop
  | .handle accepts _ => system.batch.head? = some listenfd →
    accepts = true ∧ ∃ fd, InTable fd ∧ fd ∉ system.used
  | .connect => True
  | .waiting _ _ => True
  | .accepted _ _ => True
  | .wait _ => True

section HasRoom

variable {dir : List UInt8} {system : System} {input : Input}

theorem inTable_lowestFree_iff :
    InTable (lowestFree system.used) ↔ ∃ fd, InTable fd ∧ fd ∉ system.used := by
  constructor
  · exact fun htable ↦ ⟨_, htable, lowestFree_notMem system.used⟩
  · rintro ⟨fd, ⟨hnonneg, hlt⟩, hnotMem⟩
    exact ⟨lowestFree_nonneg _, (lowestFree_lt_iff _).mpr ⟨fd, hnonneg, hlt, hnotMem⟩⟩

theorem serveEvent_eq_table_iff {event : Event} :
    (∃ index, serveEvent dir event system = .error (.table index)) ↔ ¬InTable event.fd := by
  have hserve : (∃ index, serve dir system.connections event = .error (.table index)) ↔
      ¬InTable event.fd := serve_eq_table_iff
  rw [← hserve]
  refine exists_congr fun index ↦ ?_
  unfold serveEvent
  split
  · next fault hserve => rw [hserve, Except.error.injEq, Except.error.injEq]
  · next connections actions hserve => rw [hserve]; exact iff_of_false nofun nofun

/-- A step indexes the array outside its bounds exactly when a connection is accepted without
room. -/
theorem step_eq_table_iff (hlisted : Listed system) (hawaited : Awaited system)
    (hloops : Loops dir system.connections) :
    (∃ index, step dir system input = .error (.table index)) ↔ ¬HasRoom system input := by
  cases input with
  | connect => exact iff_of_false (by rintro ⟨index, ⟨⟩⟩) (not_not.mpr trivial)
  | waiting index call => exact iff_of_false (by rintro ⟨index, ⟨⟩⟩) (not_not.mpr trivial)
  | accepted fd call => exact iff_of_false (by rintro ⟨index, ⟨⟩⟩) (not_not.mpr trivial)
  | wait chosen =>
    rw [step]
    split
    · exact iff_of_false (by rintro ⟨index, ⟨⟩⟩) (not_not.mpr trivial)
    · exact iff_of_false (by rintro ⟨index, ⟨⟩⟩) (not_not.mpr trivial)
  | handle accepts environment =>
    rw [step, HasRoom]
    rcases hbatch : system.batch with _ | ⟨fd, rest⟩
    · exact iff_of_false (by rintro ⟨index, ⟨⟩⟩) (not_not.mpr (by rintro ⟨⟩))
    · simp only [serveNext, List.head?_cons, Option.some.injEq]
      by_cases hfd : fd = listenfd
      · rw [if_pos hfd, serveEvent_eq_table_iff, Event.fd, not_iff_not, forall_prop_of_true hfd]
        have hmem : listenfd ∈ system.batch := by
          rw [hbatch, hfd]
          exact List.mem_cons_self
        have hbacklog : system.backlog ≠ [] :=
          List.ne_nil_of_length_pos (hawaited.once (Or.inr hmem))
        rcases accept_eq_or accepts { system with batch := rest } with
          ⟨hnone, haccept⟩ | ⟨socket, queue, haccepts, -, haccept⟩
        · rw [haccept]
          have hfailed : ¬InTable (-1) := by decide
          exact iff_of_false hfailed fun hroom ↦ hnone ⟨hroom.1, hbacklog⟩
        · rw [haccept, and_iff_right haccepts]
          exact inTable_lowestFree_iff
      · rw [if_neg hfd, serveEvent_eq_table_iff, Event.fd, not_iff_not]
        have hsome := (hlisted.batch fd (hbatch ▸ List.mem_cons_self)).resolve_left hfd
        obtain ⟨info, hinfo⟩ := Option.isSome_iff_exists.mp hsome
        exact iff_of_true (hloops.inTable hinfo) fun heq ↦ absurd heq hfd

/-- Everything that holds in all states of a run. -/
theorem orderly_of_step {next : System}
    (horderly : Listed system ∧ Awaited system ∧ Loops dir system.connections)
    (hstep : step dir system input = .ok next) :
    Listed next ∧ Awaited next ∧ Loops dir next.connections :=
  ⟨horderly.1.of_step hstep, horderly.2.1.of_step hstep, horderly.2.2.of_step hstep⟩

theorem orderly_start :
    Listed start ∧ Awaited start ∧ Loops dir start.connections := by
  refine ⟨⟨nofun, nofun, fun fd hmem ↦ ?_⟩, ⟨List.nodup_nil, ?_, ?_, nofun⟩, [], [], rfl⟩
  · exact absurd hmem (AList.notMem_empty fd)
  · exact AList.notMem_empty listenfd
  · rintro (hmem | hmem)
    · exact absurd hmem List.not_mem_nil
    · exact absurd hmem List.not_mem_nil

end HasRoom

/-- In a run of the server, for every order of what the clients do, no index is outside the array of
connections exactly when there is room for every connection that the loop accepts. -/
theorem indices_inTable_iff (dir : List UInt8) (inputs : List Input) :
    (∀ index, run (step dir) start inputs ≠ .error (.table index)) ↔
      Along (step dir) HasRoom start inputs := by
  have hbad : ∀ (system : System) (input : Input),
      (Listed system ∧ Awaited system ∧ Loops dir system.connections) →
      ((∃ error, step dir system input = .error error ∧ ∃ index, error = .table index) ↔
        ¬HasRoom system input) := by
    intro system input ⟨hlisted, hawaited, hloops⟩
    rw [← step_eq_table_iff hlisted hawaited hloops]
    constructor
    · rintro ⟨error, hstep, index, rfl⟩
      exact ⟨index, hstep⟩
    · rintro ⟨index, hstep⟩
      exact ⟨.table index, hstep, index, rfl⟩
  rw [← never_bad_iff (fun _ _ _ ↦ orderly_of_step) hbad orderly_start inputs]
  constructor
  · rintro hinside error hrun ⟨index, rfl⟩
    exact hinside index hrun
  · exact fun hnever index hrun ↦ hnever _ hrun ⟨index, rfl⟩

/-! ### Six clients -/

/-- A client connects, and the loop accepts the connection. -/
def client : List Input := [.connect, .wait [listenfd], .handle true noFiles]

/-- The sixth connection that is open at a time is accepted under the descriptor 10. -/
theorem sixClients_outside : ¬∀ index, run (step (ascii "/srv")) start
    (List.replicate 6 client).flatten ≠ .error (.table index) := by
  intro hinside
  exact hinside 10 rfl

end Homework.FileServer.System
