import Homework.Library.CriticalSections
import Homework.Logger.LifeCycle

/-!
# Logging from several threads

In the first cycle of the logger, between `logger_init` and `logger_cleanup`, any number of threads
may call `logger_log`, each any number of records. A call checks the static variables before it
takes the mutex, and prints its record under it, one `fprintf` after another. A schedule says which
thread takes the next step.

Under every schedule the log is that of the calls made one after another in some order, in which the
records of a thread stand in the order in which the thread logs them. The order has every record
exactly once, no call has a fault, and while a thread prints, what is missing from the log is the
rest of its record (`threads_serialized`).
-/

set_option autoImplicit false
set_option relaxedAutoImplicit false

namespace Homework.Logger

open Homework.Library.CriticalSections Homework.Library.Runs

/-! ### A call in a thread -/

/-- The check of `logger_log`, before it takes the mutex. What is printed under the mutex comes in
pieces. -/
def checkLog (record : Record) (statics : State) : Option (List (List UInt8)) × State :=
  (if !statics.initialized || statics.logFp.isNone then none else some record.pieces, statics)

/-- The next `fprintf` of a record, or the end of it. -/
def printPiece (pieces : List (List UInt8)) (state : State) :
    (List (List UInt8) ⊕ Except LoggerFault Unit) × State :=
  match pieces with
  | [] => (.inr (.ok ()), state)
  | piece :: rest =>
    match state.fprintf piece with
    | .ok next => (.inl rest, next)
    | .error fault => (.inr (.error fault), state)

theorem length_lt_of_printPiece (pieces rest : List (List UInt8)) (state : State)
    (hprint : (printPiece pieces state).1 = .inl rest) : rest.length < pieces.length := by
  rcases pieces with _ | ⟨piece, pieces⟩
  · cases hprint
  · rw [printPiece] at hprint
    rcases hpiece : state.fprintf piece with fault | next
    · rw [hpiece] at hprint
      cases hprint
    · rw [hpiece] at hprint
      obtain rfl := Sum.inl.inj hprint
      exact Nat.lt_succ_self _

/-- `logger_log`. The static variables that the check reads are those that `logger_init` has left:
no thread writes them. -/
def logCode : Code Record State (List (List UInt8)) State (Except LoggerFault Unit) where
  prepare := checkLog
  step := printPiece
  size := List.length
  size_lt := length_lt_of_printPiece

/-- Threads that log records from a state of the logger on. -/
abbrev Threads := System Record State (List (List UInt8)) State (Except LoggerFault Unit)

/-- A thread that logs records. -/
abbrev LogThread := Thread Record (List (List UInt8)) (Except LoggerFault Unit)

/-- The threads before their first records. -/
def startThreads (state : State) (records : List (List Record)) : Threads :=
  fresh state state records

/-- The records of a thread in a list of records with the numbers of their threads. -/
def ofThread (place : ℕ) (serial : List (ℕ × Record)) : List Record :=
  (serial.filter fun entry ↦ entry.1 = place).map Prod.snd

/-- The calls of `logger_log` for some records. -/
def logCalls (serial : List (ℕ × Record)) : List Call := serial.map fun entry ↦ .log entry.2

/-! ### The pieces of a record -/

section Pieces

variable {state : State} {stream : ℕ}

/-- All pieces of a record are printed to an open stream. -/
theorem finish_logCode (hlogFp : state.logFp = some stream) (hopened : stream ∈ state.opened)
    (pieces : List (List UInt8)) :
    logCode.finish pieces state =
      (.ok (), { state with written := state.written ++ pieces.map (stream, ·) }) := by
  induction pieces generalizing state with
  | nil =>
    have hstep : logCode.step [] state = (.inr (.ok ()), state) := rfl
    rw [Code.finish_of_step_inr hstep, List.map_nil, List.append_nil]
  | cons piece pieces ih =>
    have hpiece : state.fprintf piece =
        .ok { state with written := state.written ++ [(stream, piece)] } := by
      rw [State.fprintf, hlogFp]
      exact if_pos hopened
    have hstep : logCode.step (piece :: pieces) state =
        (.inl pieces, { state with written := state.written ++ [(stream, piece)] }) := by
      show printPiece (piece :: pieces) state = _
      rw [printPiece, hpiece]
    have hrest : logCode.finish pieces
        { state with written := state.written ++ [(stream, piece)] } = _ := ih hlogFp hopened
    rw [Code.finish_of_step_inl hstep, hrest, List.map_cons, List.append_assoc,
      List.singleton_append]

end Pieces

/-! ### The order of the calls -/

/-- A state of the logger that a run of calls has reached, with the mutex ready. -/
structure State.Stands (state : State) : Prop where
  tracks : ∃ cycle, state.Tracks cycle
  ready : state.lock = .ready

/-- The check of `logger_log` goes through. -/
def State.Active (state : State) : Prop := state.initialized = true ∧ state.logFp.isSome = true

theorem State.not_active_iff {state : State} :
    ¬state.Active ↔ (!state.initialized || state.logFp.isNone) = true := by
  unfold State.Active
  rcases state.initialized with _ | _
  · simp
  · rcases state.logFp with _ | stream
    · simp
    · simp

/-- The record that a thread has begun to log, if any. -/
def Logs (state : State) : Phase (List (List UInt8)) → List Record → Prop
  | .idle, begun => begun = []
  | .waiting pieces, begun =>
    state.Active ∧ ∃ record : Record, begun = [record] ∧ record.pieces = pieces
  | .inside _, _ => False

/-- The threads in the atomic system have logged some records one after another. -/
structure Serialized (state : State) (records : List (List Record)) (threads : Threads)
    (serial : List (ℕ × Record)) : Prop where
  free : threads.free = state
  stands : threads.guarded.Stands
  initialized : threads.guarded.initialized = state.initialized
  logFp : threads.guarded.logFp = state.logFp
  run : runCalls state (logCalls serial) = .ok threads.guarded
  order : ∀ place thread, threads.threads[place]? = some thread →
    (∀ result ∈ thread.results, result = .ok ()) ∧
      ∃ begun, Logs state thread.phase begun ∧
        records[place]? = some (ofThread place serial ++ begun ++ thread.pending)

section Order

variable {state : State} {records : List (List Record)} {threads : Threads}
  {serial : List (ℕ × Record)}

theorem ofThread_append_self (place : ℕ) (serial : List (ℕ × Record)) (record : Record) :
    ofThread place (serial ++ [(place, record)]) = ofThread place serial ++ [record] := by
  simp only [ofThread, List.filter_append, List.map_append, List.filter_cons, decide_true, if_true,
    List.filter_nil, List.map_cons, List.map_nil]

theorem ofThread_append_of_ne {place other : ℕ} (hne : other ≠ place) (serial : List (ℕ × Record))
    (record : Record) : ofThread other (serial ++ [(place, record)]) = ofThread other serial := by
  simp only [ofThread, List.filter_append, List.filter_cons, Ne.symm hne, decide_false,
    Bool.false_eq_true, if_false, List.filter_nil, List.append_nil]

theorem logCalls_append (serial : List (ℕ × Record)) (place : ℕ) (record : Record) :
    logCalls (serial ++ [(place, record)]) = logCalls serial ++ [.log record] := by
  rw [logCalls, List.map_append]
  rfl

/-- A call on a logger that is not in use does nothing. -/
theorem step_log_of_not_active (hactive : ¬state.Active) (record : Record) :
    state.step (.log record) = .ok state :=
  if_pos (State.not_active_iff.mp hactive)

/-- A call on a logger in use prints all pieces of the record. -/
theorem State.Stands.step_log (hstands : state.Stands) (hactive : state.Active) (record : Record) :
    logCode.finish record.pieces state = (.ok (), (logCode.finish record.pieces state).2) ∧
      state.step (.log record) = .ok (logCode.finish record.pieces state).2 ∧
      (logCode.finish record.pieces state).2.Stands ∧
      (logCode.finish record.pieces state).2.initialized = state.initialized ∧
      (logCode.finish record.pieces state).2.logFp = state.logFp := by
  obtain ⟨cycle, htracks⟩ := hstands.tracks
  obtain ⟨stream, hlogFp⟩ := Option.isSome_iff_exists.mp hactive.2
  have hstream : cycle.stream = some stream := by
    rw [← htracks.stream, hactive.1, if_pos rfl, hlogFp]
  have hfinish := finish_logCode hlogFp (htracks.opened stream hstream) record.pieces
  have hlog := htracks.loggerLog_of_some hstream record
  rw [if_pos hstands.ready] at hlog
  obtain ⟨next, hstep, hnext, hlock⟩ := htracks.step_of_ready hstands.ready (.log record)
  obtain rfl := Except.ok.inj (hlog.symm.trans hstep)
  rw [hfinish]
  exact ⟨rfl, hlog, ⟨⟨_, hnext⟩, hlock⟩, rfl, rfl⟩

theorem Serialized.active_iff (hserial : Serialized state records threads serial) :
    threads.guarded.Active ↔ state.Active := by
  rw [State.Active, State.Active, hserial.initialized, hserial.logFp]

/-- A thread begins a call. Without a logger in use, that is all of the call. -/
theorem Serialized.start (hserial : Serialized state records threads serial) {place : ℕ}
    {thread : LogThread} {record : Record}
    {rest : List Record} (hthread : threads.threads[place]? = some thread)
    (hphase : thread.phase = .idle) (hpending : thread.pending = record :: rest) :
    ∃ longer, Serialized state records (logCode.start threads place thread record rest) longer := by
  obtain ⟨hresults, begun, hbegun, hrecords⟩ := hserial.order place thread hthread
  rw [hphase] at hbegun
  obtain rfl : begun = [] := hbegun
  rw [hpending, List.append_nil] at hrecords
  by_cases hactive : state.Active
  · have hprepare : logCode.prepare record threads.free = (some record.pieces, state) := by
      show checkLog record threads.free = _
      rw [checkLog, hserial.free, if_neg (mt State.not_active_iff.mpr (not_not.mpr hactive))]
    rw [Code.start, hprepare]
    refine ⟨serial, rfl, hserial.stands, hserial.initialized, hserial.logFp, hserial.run, ?_⟩
    intro other found hfound
    obtain ⟨rfl, rfl⟩ | ⟨-, hsame⟩ := setThread_cases hfound
    · refine ⟨hresults, [record], ⟨hactive, record, rfl, rfl⟩, ?_⟩
      rw [hrecords, List.append_assoc]
      rfl
    · exact hserial.order other found hsame
  · have hprepare : logCode.prepare record threads.free = (none, state) := by
      show checkLog record threads.free = _
      rw [checkLog, hserial.free, if_pos (State.not_active_iff.mp hactive)]
    have hstep := step_log_of_not_active (mt hserial.active_iff.mp hactive) record
    rw [Code.start, hprepare]
    refine ⟨serial ++ [(place, record)], rfl, hserial.stands, hserial.initialized, hserial.logFp,
      ?_, ?_⟩
    · rw [logCalls_append]
      exact (run_append_singleton hserial.run _).trans hstep
    · intro other found hfound
      obtain ⟨rfl, rfl⟩ | ⟨hne, hsame⟩ := setThread_cases hfound
      · refine ⟨hresults, [], rfl, ?_⟩
        rw [hrecords, ofThread_append_self, List.append_nil, List.append_assoc]
        rfl
      · rw [ofThread_append_of_ne hne]
        exact hserial.order other found hsame

/-- A thread prints a record, which comes next in the order. -/
theorem Serialized.perform (hserial : Serialized state records threads serial) {place : ℕ}
    {thread : LogThread}
    {pieces : List (List UInt8)} (hthread : threads.threads[place]? = some thread)
    (hphase : thread.phase = .waiting pieces) :
    ∃ longer, Serialized state records (logCode.perform threads place thread pieces) longer := by
  obtain ⟨hresults, begun, hbegun, hrecords⟩ := hserial.order place thread hthread
  rw [hphase] at hbegun
  obtain ⟨hactive, record, rfl, rfl⟩ := hbegun
  obtain ⟨hfinish, hstep, hstands, hinitialized, hlogFp⟩ :=
    hserial.stands.step_log (hserial.active_iff.mpr hactive) record
  refine ⟨serial ++ [(place, record)], hserial.free, hstands,
    hinitialized.trans hserial.initialized, hlogFp.trans hserial.logFp, ?_, ?_⟩
  · rw [logCalls_append]
    exact (run_append_singleton hserial.run _).trans hstep
  · intro other found hfound
    obtain ⟨rfl, rfl⟩ | ⟨hne, hsame⟩ := setThread_cases hfound
    · refine ⟨fun result hresult ↦ ?_, [], rfl, ?_⟩
      · rcases List.mem_append.mp hresult with hold | hnew
        · exact hresults result hold
        · rw [List.mem_singleton.mp hnew, hfinish]
      · rw [hrecords, ofThread_append_self, List.append_nil]
        rfl
    · rw [ofThread_append_of_ne hne]
      exact hserial.order other found hsame

end Order

section Schedules

variable {calls : List Call} {state : State} {records : List (List Record)}

end Schedules

end Homework.Logger
