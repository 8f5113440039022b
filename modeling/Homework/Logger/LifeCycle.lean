import Homework.Logger.Logger

/-!
# The life cycle of the logger

What the logger is for: between a successful `logger_init` and the next `logger_cleanup` every
record is written to the stream that was opened last (`Cycle`). The logger does this as long as its
mutex is ready. `logger_cleanup` destroys the mutex, and nothing makes it ready again. So the life
cycle is kept exactly in the runs in which `logger_cleanup` is called at most once, and no record is
logged in a cycle that begins after it (`lifeCycle_iff`).
-/

set_option autoImplicit false
set_option relaxedAutoImplicit false

namespace Homework.Logger

open Homework.Library.ByteBuffer Homework.Library.Runs

/-! ### What the logger is for -/

/-- A logger that may be in a cycle: its stream then, the number of streams opened so far, and what
has been written. -/
structure Cycle where
  stream : Option ℕ
  streams : ℕ
  written : List (ℕ × List UInt8)

namespace Cycle

def start : Cycle := ⟨none, 0, []⟩

def step (cycle : Cycle) : Call → Cycle
  | .init opens =>
    if cycle.stream = none ∧ opens then
      { cycle with stream := some cycle.streams, streams := cycle.streams + 1 }
    else cycle
  | .log record =>
    match cycle.stream with
    | none => cycle
    | some stream => { cycle with written := cycle.written ++ record.pieces.map (stream, ·) }
  | .cleanup => { cycle with stream := none }

end Cycle

/-- A run of the logger has no fault, and writes the records of each cycle to its stream. -/
def LifeCycle (calls : List Call) : Prop :=
  ∃ state, runCalls start calls = .ok state ∧
    state.written = (calls.foldl Cycle.step Cycle.start).written

/-- No record is logged after a successful `logger_init`. -/
def LogsNothing (calls : List Call) : Prop :=
  ∀ before after, calls = before ++ .init true :: after → ∀ record, .log record ∉ after

/-- `logger_cleanup` is called at most once, and no record is logged in a cycle that begins after
it. -/
def CleansUpLast (calls : List Call) : Prop :=
  ∀ before after, calls = before ++ .cleanup :: after → .cleanup ∉ after ∧ LogsNothing after

/-! ### One call -/

namespace State

/-- The logger is in a cycle with a stream that is open, or in none. -/
structure Tracks (state : State) (cycle : Cycle) : Prop where
  stream : (if state.initialized then state.logFp else none) = cycle.stream
  isSome : state.initialized = true → state.logFp.isSome = true
  opened : ∀ stream ∈ cycle.stream, stream ∈ state.opened
  streams : state.streams = cycle.streams
  written : state.written = cycle.written

end State

section Calls

variable {state next : State} {cycle : Cycle} {call : Call} {calls : List Call}

theorem tracks_start : start.Tracks Cycle.start where
  stream := rfl
  isSome := nofun
  opened := nofun
  streams := rfl
  written := rfl

theorem State.Tracks.loggerInit (htracks : state.Tracks cycle) (opens : Bool) :
    (state.loggerInit opens).1.Tracks (cycle.step (.init opens)) ∧
      (state.loggerInit opens).1.lock = state.lock := by
  have hstream := htracks.stream
  rw [State.loggerInit, Cycle.step]
  rcases hinitialized : state.initialized with _ | _
  · rw [hinitialized] at hstream
    have hnone : cycle.stream = none := hstream.symm
    have hnot : ¬(cycle.stream = none ∧ false = true) := fun hand ↦ Bool.false_ne_true hand.2
    rw [if_neg Bool.false_ne_true]
    rcases opens with _ | _
    · rw [if_neg Bool.false_ne_true, if_neg hnot]
      refine ⟨⟨?_, ?_, htracks.opened, htracks.streams, htracks.written⟩, rfl⟩
      · rw [hnone]
        exact ite_self none
      · exact fun htrue ↦ absurd htrue Bool.false_ne_true
    · rw [if_pos rfl, if_pos (And.intro hnone rfl)]
      refine ⟨⟨congrArg some htracks.streams, fun _ ↦ rfl, fun stream hstream ↦ ?_,
        congrArg (· + 1) htracks.streams, htracks.written⟩, rfl⟩
      obtain rfl := Option.some.inj hstream
      rw [← htracks.streams]
      exact List.mem_cons_self
  · rw [hinitialized, if_pos rfl] at hstream
    have hsome : cycle.stream ≠ none := fun hnone ↦ by
      have hisSome := htracks.isSome hinitialized
      rw [hstream, hnone] at hisSome
      exact Bool.false_ne_true hisSome
    rw [if_pos rfl, if_neg (not_and_of_not_left _ hsome)]
    exact ⟨htracks, rfl⟩

/-- All pieces of a record are written to an open stream. -/
theorem foldlM_fprintf {stream : ℕ} (hlogFp : state.logFp = some stream)
    (hopened : stream ∈ state.opened) (pieces : List (List UInt8)) :
    pieces.foldlM State.fprintf state =
      .ok { state with written := state.written ++ pieces.map (stream, ·) } := by
  induction pieces generalizing state with
  | nil => rw [List.map_nil, List.append_nil]; rfl
  | cons piece pieces ih =>
    have hpiece : state.fprintf piece =
        .ok { state with written := state.written ++ [(stream, piece)] } := by
      rw [State.fprintf, hlogFp]
      exact if_pos hopened
    have hrest : pieces.foldlM State.fprintf
        { state with written := state.written ++ [(stream, piece)] } = _ := ih hlogFp hopened
    rw [List.foldlM_cons, hpiece, ok_bind, hrest, List.map_cons, List.append_assoc]
    rfl

/-- Outside a cycle nothing is logged. -/
theorem State.Tracks.loggerLog_of_none (htracks : state.Tracks cycle) (hnone : cycle.stream = none)
    (record : Record) : state.loggerLog record = .ok state := by
  rw [State.loggerLog, if_pos]
  have hstream := htracks.stream
  rw [hnone] at hstream
  rcases hinitialized : state.initialized with _ | _
  · rfl
  · rw [hinitialized, if_pos rfl] at hstream
    rw [hstream]
    rfl

/-- The stream of a cycle is that of the variable. -/
theorem State.Tracks.of_stream {stream : ℕ} (htracks : state.Tracks cycle)
    (hstream : cycle.stream = some stream) :
    state.initialized = true ∧ state.logFp = some stream := by
  have heq := htracks.stream
  rw [hstream] at heq
  rcases hinitialized : state.initialized with _ | _
  · rw [hinitialized] at heq
    exact absurd heq nofun
  · rw [hinitialized, if_pos rfl] at heq
    exact ⟨rfl, heq⟩

/-- In a cycle a record is logged if the mutex is ready, and is a fault otherwise. -/
theorem State.Tracks.loggerLog_of_some {stream : ℕ} (htracks : state.Tracks cycle)
    (hstream : cycle.stream = some stream) (record : Record) :
    state.loggerLog record =
      if state.lock = .ready then
        .ok { state with written := state.written ++ record.pieces.map (stream, ·) }
      else .error (.lock state.lock) := by
  obtain ⟨hinitialized, hlogFp⟩ := htracks.of_stream hstream
  have hopened := htracks.opened stream hstream
  have hgoes : (!state.initialized || state.logFp.isNone) = false := by
    rw [hinitialized, hlogFp]
    rfl
  rw [State.loggerLog, hgoes, if_neg Bool.false_ne_true, State.mutexLock]
  split
  · next hready =>
    have hlocked : ({ state with lock := .locked } : State).logFp = some stream := hlogFp
    rw [ok_bind, foldlM_fprintf hlocked hopened record.pieces, ok_bind, State.mutexUnlock,
      if_pos rfl, hready]
  · rfl

/-- `logger_cleanup` changes nothing but the flag and the mutex, and which streams are open. -/
theorem loggerCleanup_eq (state : State) :
    ∃ opened, state.loggerCleanup =
      if state.lock = .ready then
        .ok { state with opened := opened, lock := .destroyed, initialized := false }
      else .error (.destroy state.lock) := by
  have hclosed : ∃ opened,
      (if state.initialized && state.logFp.isSome then state.fclose else state) =
        { state with opened := opened } := by
    split
    · rw [State.fclose]
      split
      · exact ⟨_, rfl⟩
      · exact ⟨_, rfl⟩
    · exact ⟨_, rfl⟩
  obtain ⟨opened, hclosed⟩ := hclosed
  refine ⟨opened, ?_⟩
  rw [State.loggerCleanup, hclosed, State.mutexDestroy]
  split
  · rfl
  · rfl

/-- A call while the mutex is ready. -/
theorem State.Tracks.step_of_ready (htracks : state.Tracks cycle) (hready : state.lock = .ready)
    (call : Call) : ∃ next, state.step call = .ok next ∧ next.Tracks (cycle.step call) ∧
      next.lock = match call with
        | .cleanup => .destroyed
        | .init _ => .ready
        | .log _ => .ready := by
  cases call with
  | init opens =>
    obtain ⟨hnext, hlock⟩ := htracks.loggerInit opens
    exact ⟨_, rfl, hnext, hlock.trans hready⟩
  | log record =>
    rcases hstream : cycle.stream with _ | stream
    · refine ⟨state, htracks.loggerLog_of_none hstream record, ?_, hready⟩
      rw [Cycle.step, hstream]
      exact htracks
    · have hlog := htracks.loggerLog_of_some hstream record
      rw [if_pos hready] at hlog
      refine ⟨_, hlog, ?_, hready⟩
      rw [Cycle.step, hstream]
      exact ⟨htracks.stream.trans hstream, htracks.isSome, fun other hother ↦
        htracks.opened other (hstream ▸ hother), htracks.streams,
        congrArg (· ++ record.pieces.map (stream, ·)) htracks.written⟩
  | cleanup =>
    obtain ⟨opened, hcleanup⟩ := loggerCleanup_eq state
    rw [if_pos hready] at hcleanup
    exact ⟨_, hcleanup, ⟨rfl, nofun, nofun, htracks.streams, htracks.written⟩, rfl⟩

/-- A call after the mutex has been destroyed. -/
theorem State.Tracks.step_of_destroyed (htracks : state.Tracks cycle)
    (hdestroyed : state.lock = .destroyed) (call : Call) :
    (∃ fault, state.step call = .error fault ∧
      (call = .cleanup ∨ cycle.stream ≠ none ∧ ∃ record, call = .log record)) ∨
    ∃ next, state.step call = .ok next ∧ next.Tracks (cycle.step call) ∧
      next.lock = .destroyed ∧ call ≠ .cleanup ∧
        (cycle.stream ≠ none → ∀ record, call ≠ .log record) := by
  have hnot : ¬state.lock = .ready := hdestroyed ▸ (by decide)
  cases call with
  | init opens =>
    obtain ⟨hnext, hlock⟩ := htracks.loggerInit opens
    exact Or.inr ⟨_, rfl, hnext, hlock.trans hdestroyed, nofun, nofun⟩
  | log record =>
    rcases hstream : cycle.stream with _ | stream
    · refine Or.inr ⟨state, htracks.loggerLog_of_none hstream record, ?_, hdestroyed, nofun,
        fun hsome ↦ absurd rfl hsome⟩
      rw [Cycle.step, hstream]
      exact htracks
    · have hlog := htracks.loggerLog_of_some hstream record
      rw [if_neg hnot] at hlog
      exact Or.inl ⟨_, hlog, Or.inr ⟨nofun, record, rfl⟩⟩
  | cleanup =>
    obtain ⟨opened, hcleanup⟩ := loggerCleanup_eq state
    rw [if_neg hnot] at hcleanup
    exact Or.inl ⟨_, hcleanup, Or.inl rfl⟩

/-! ### Runs -/

/-- A run that goes through follows the cycles. -/
theorem State.Tracks.run (htracks : state.Tracks cycle) (hmutex : state.lock ≠ .locked)
    (hrun : runCalls state calls = .ok next) :
    next.written = (calls.foldl Cycle.step cycle).written := by
  induction calls generalizing state cycle with
  | nil =>
    obtain rfl := Except.ok.inj hrun
    exact htracks.written
  | cons call calls ih =>
    obtain ⟨middle, hstep, hrest⟩ := of_run_cons_eq_ok hrun
    rcases hlock : state.lock with _ | _ | _
    · obtain ⟨found, hfound, hmiddle, hlock'⟩ := htracks.step_of_ready hlock call
      obtain rfl := Except.ok.inj (hfound.symm.trans hstep)
      refine ih hmiddle ?_ hrest
      rw [hlock']
      cases call with
      | init opens => exact nofun
      | log record => exact nofun
      | cleanup => exact nofun
    · exact absurd hlock hmutex
    · rcases htracks.step_of_destroyed hlock call with
        ⟨fault, hfault, -⟩ | ⟨found, hfound, hmiddle, hlock', -, -⟩
      · exact absurd (hfault.symm.trans hstep) nofun
      · obtain rfl := Except.ok.inj (hfound.symm.trans hstep)
        exact ih hmiddle (hlock' ▸ nofun) hrest

/-- A condition on what follows each occurrence of a call, for one call more. -/
theorem forall_cons_append_iff (found : Call) (holds : List Call → Prop) :
    (∀ before after, call :: calls = before ++ found :: after → holds after) ↔
      (call = found → holds calls) ∧
        ∀ before after, calls = before ++ found :: after → holds after := by
  constructor
  · refine fun hall ↦ ⟨fun hcall ↦ hall [] calls (hcall ▸ rfl), fun before after hcalls ↦ ?_⟩
    exact hall (call :: before) after (congrArg (call :: ·) hcalls)
  · rintro ⟨hfirst, hrest⟩ before after heq
    rcases before with _ | ⟨other, before⟩
    · obtain ⟨hcall, hcalls⟩ := List.cons.inj heq
      exact hcalls ▸ hfirst hcall
    · exact hrest before after (List.cons.inj heq).2

/-- What may not be logged, before and after a call that goes through on a destroyed mutex. -/
theorem logsNothing_step_iff (hcleanup : call ≠ .cleanup)
    (hlog : cycle.stream ≠ none → ∀ record, call ≠ .log record) :
    (LogsNothing calls ∧ ((cycle.step call).stream ≠ none → ∀ record, .log record ∉ calls)) ↔
      LogsNothing (call :: calls) ∧
        (cycle.stream ≠ none → ∀ record, .log record ∉ call :: calls) := by
  have hcons : LogsNothing (call :: calls) ↔
      (call = .init true → ∀ record, .log record ∉ calls) ∧ LogsNothing calls :=
    forall_cons_append_iff _ _
  rw [hcons]
  cases call with
  | init opens =>
    have hmem (record : Record) : Call.log record ∈ .init opens :: calls ↔ .log record ∈ calls :=
      List.mem_cons.trans (or_iff_right nofun)
    simp only [hmem, Call.init.injEq, Cycle.step]
    by_cases hopens : cycle.stream = none ∧ opens = true
    · -- the call begins a cycle
      obtain ⟨hnone, rfl⟩ := hopens
      rw [if_pos ⟨hnone, rfl⟩]
      simp only [hnone, ne_eq, reduceCtorEq, not_false_eq_true, forall_const, not_true_eq_false,
        IsEmpty.forall_iff, and_true]
      exact and_comm
    · rw [if_neg hopens]
      constructor
      · rintro ⟨hrest, hstream⟩
        exact ⟨⟨fun htrue ↦ hstream fun hnone ↦ hopens ⟨hnone, htrue⟩, hrest⟩, hstream⟩
      · rintro ⟨⟨-, hrest⟩, hstream⟩
        exact ⟨hrest, hstream⟩
  | log record =>
    have hnone : cycle.stream = none := by_contra fun hsome ↦ hlog hsome record rfl
    simp only [Cycle.step, hnone, reduceCtorEq, IsEmpty.forall_iff, true_and, ne_eq,
      not_true_eq_false, and_true]
  | cleanup => exact absurd rfl hcleanup

/-- After the mutex has been destroyed, a run goes through exactly when the logger is not cleaned up
again, and no record is logged in a cycle. -/
theorem State.Tracks.run_of_destroyed (htracks : state.Tracks cycle)
    (hdestroyed : state.lock = .destroyed) (calls : List Call) :
    (∃ next, runCalls state calls = .ok next) ↔
      .cleanup ∉ calls ∧ LogsNothing calls ∧
        (cycle.stream ≠ none → ∀ record, .log record ∉ calls) := by
  induction calls generalizing state cycle with
  | nil =>
    refine iff_of_true ⟨state, rfl⟩ ⟨nofun, fun before after hnil ↦ ?_, nofun⟩
    exact absurd hnil.symm (List.append_ne_nil_of_right_ne_nil before (List.cons_ne_nil _ after))
  | cons call calls ih =>
    rcases htracks.step_of_destroyed hdestroyed call with
      ⟨fault, hfault, hcall⟩ | ⟨next, hstep, hnext, hlock, hcleanup, hlog⟩
    · -- the run stops at the call
      refine iff_of_false ?_ ?_
      · rintro ⟨last, hrun⟩
        obtain ⟨middle, hmiddle, -⟩ := of_run_cons_eq_ok hrun
        exact absurd (hfault.symm.trans hmiddle) nofun
      · rintro ⟨hcleanup, -, hlog⟩
        rcases hcall with rfl | ⟨hstream, record, rfl⟩
        · exact hcleanup List.mem_cons_self
        · exact hlog hstream record List.mem_cons_self
    · rw [runCalls, run_cons_of_ok hstep, List.mem_cons, not_or, and_iff_right hcleanup.symm,
        ← logsNothing_step_iff hcleanup hlog]
      exact ih hnext hlock

/-- While the mutex is ready, a run goes through exactly when the logger is cleaned up last. -/
theorem State.Tracks.run_of_ready (htracks : state.Tracks cycle) (hready : state.lock = .ready)
    (calls : List Call) : (∃ next, runCalls state calls = .ok next) ↔ CleansUpLast calls := by
  induction calls generalizing state cycle with
  | nil =>
    refine iff_of_true ⟨state, rfl⟩ fun before after hnil ↦ ?_
    exact absurd hnil.symm (List.append_ne_nil_of_right_ne_nil before (List.cons_ne_nil _ after))
  | cons call calls ih =>
    rw [CleansUpLast, forall_cons_append_iff]
    obtain ⟨next, hstep, hnext, hlock⟩ := htracks.step_of_ready hready call
    rw [runCalls, run_cons_of_ok hstep]
    cases call with
    | init opens =>
      rw [and_iff_right nofun]
      exact ih hnext hlock
    | log record =>
      rw [and_iff_right nofun]
      exact ih hnext hlock
    | cleanup =>
      refine (hnext.run_of_destroyed hlock calls).trans ?_
      have hstream : (cycle.step .cleanup).stream = none := rfl
      simp only [hstream, ne_eq, not_true_eq_false, IsEmpty.forall_iff, and_true, forall_const]
      refine (and_iff_left_of_imp fun hlast before after hcalls ↦ ?_).symm
      refine absurd ?_ hlast.1
      rw [hcalls]
      exact List.mem_append_right before List.mem_cons_self

end Calls

/-- The life cycle of the logger is kept exactly in the runs in which `logger_cleanup` is called at
most once, and no record is logged in a cycle that begins after it. -/
theorem lifeCycle_iff (calls : List Call) : LifeCycle calls ↔ CleansUpLast calls := by
  rw [← tracks_start.run_of_ready rfl]
  constructor
  · rintro ⟨state, hrun, -⟩
    exact ⟨state, hrun⟩
  · rintro ⟨state, hrun⟩
    exact ⟨state, hrun, tracks_start.run (by decide) hrun⟩

/-- A record in a second cycle locks the mutex that the first `logger_cleanup` has destroyed. -/
theorem secondCycle_not_lifeCycle : ¬∀ calls, LifeCycle calls := by
  intro hall
  obtain ⟨state, hrun, -⟩ :=
    hall [.init true, .cleanup, .init true, .log ⟨.info, [], 0, [], [], []⟩]
  exact absurd hrun nofun

end Homework.Logger
