import Homework.Pomodoro.Timer

/-!
# The timeout of the timer

The main loop calls back each timeout when it is due and drops it when the callback returns `FALSE`.
Here it does so one timeout at a time, in any order with the other callbacks, and every call of
`g_source_remove` is noted with what it returns. `update_timer` always asks to be called again, so
the discipline of the timeouts (`OneSource`) is kept by each of these steps as well
(`Observed.Good.step`). A second is a turn of every active timeout (`tick_eq_foldlM`).
-/

set_option autoImplicit false
set_option relaxedAutoImplicit false

namespace Homework.Pomodoro

open Homework.Library

/-! ### The main loop -/

/-- A call of `g_source_remove`: the identifier it is given, and its return value, whether a source
with that identifier is active. -/
structure Removal where
  sourceId : ℕ
  found : Bool
deriving DecidableEq

/-- The program with the calls of `g_source_remove` so far. -/
structure Observed where
  context : AppContext
  removals : List Removal

/-- `update_timer` with its return value, which is `TRUE` at both places where it returns. -/
def updateTimerResult (context : AppContext) : Except Overflow (AppContext × Bool) :=
  (updateTimer context).map fun next ↦ (next, true)

/-- The main loop finds a timeout due. Only an active one is called back. -/
def dispatch (context : AppContext) (sourceId : ℕ) : Except Overflow AppContext := do
  if sourceId ∈ context.sources then
    let (next, again) ← updateTimerResult context
    if again then return next
    else return { next with sources := next.sources.erase sourceId }
  else return context

/-- The calls of `g_source_remove` in `toggle_timer`. -/
def toggleTimerRemovals (context : AppContext) : List Removal :=
  let timer := context.timerState
  if timer.isRunning then [⟨timer.timerId, decide (timer.timerId ∈ context.sources)⟩] else []

/-- The calls of `g_source_remove` in the callback of an event. -/
def removalsOf (context : AppContext) : Event → List Removal
  | .toggleTimer _ => if context.exit.isSome then [] else toggleTimerRemovals context
  | _ => []

/-- What the main loop does next: it finds a timeout due, or runs the callback of an event. -/
inductive Turn where
  | due (sourceId : ℕ)
  | event (event : Event)

/-- A turn of the main loop. -/
def Observed.step (observed : Observed) : Turn → Except Overflow Observed
  | .due sourceId =>
    if observed.context.exit.isSome then .ok observed
    else (dispatch observed.context sourceId).map fun context ↦ { observed with context }
  | .event event =>
    (Pomodoro.step observed.context event).map fun context ↦
      ⟨context, observed.removals ++ removalsOf observed.context event⟩

/-! ### A timeout that is due -/

theorem dispatch_eq (context : AppContext) (sourceId : ℕ) :
    dispatch context sourceId =
      if sourceId ∈ context.sources then updateTimer context else .ok context := by
  unfold dispatch updateTimerResult
  split_ifs with hactive
  · rcases updateTimer context with error | next
    · rfl
    · rfl
  · rfl

/-- While the timer stands still no timeout is called back. -/
theorem dispatch_of_stopped {context : AppContext} (hone : OneSource context)
    (hstopped : context.timerState.isRunning = false) (sourceId : ℕ) :
    dispatch context sourceId = .ok context := by
  rw [dispatch_eq, hone, hstopped]
  exact if_neg List.not_mem_nil

/-- A call of `update_timer` keeps the discipline of the timeouts: it returns `TRUE`, so its own
timeout stays. -/
theorem OneSource.updateTimer {context next : AppContext} (hone : OneSource context)
    (hupdate : Pomodoro.updateTimer context = .ok next) : OneSource next := by
  obtain ⟨isWorkTime, remaining, label, announced, rfl⟩ := updateTimer_frame hupdate
  exact hone

theorem OneSource.dispatch {context next : AppContext} (hone : OneSource context) {sourceId : ℕ}
    (hdispatch : Pomodoro.dispatch context sourceId = .ok next) : OneSource next := by
  rw [dispatch_eq] at hdispatch
  split_ifs at hdispatch
  · exact hone.updateTimer hdispatch
  · exact Except.ok.inj hdispatch ▸ hone

/-- A second is a turn of every active timeout. -/
theorem tick_eq_foldlM {context : AppContext} (hone : OneSource context) :
    tick context = context.sources.foldlM dispatch context := by
  rcases hrunning : context.timerState.isRunning
  · rw [tick_of_stopped hone hrunning, hone, hrunning]
    rfl
  · have hsources : context.sources = [context.timerState.timerId] := by
      rw [hone, if_pos hrunning]
    rw [tick_of_running hone hrunning, hsources, List.foldlM_cons, dispatch_eq,
      if_pos (hsources ▸ List.mem_singleton_self _)]
    exact (bind_pure _).symm

/-! ### The discipline -/

/-- The discipline of the timeouts, and every call of `g_source_remove` so far was given an active
source. -/
structure Observed.Good (observed : Observed) : Prop where
  oneSource : OneSource observed.context
  found : ∀ removal ∈ observed.removals, removal.found = true

/-- The calls of `g_source_remove` are given an active source. -/
theorem found_of_mem_removalsOf {context : AppContext} (hone : OneSource context) {event : Event}
    {removal : Removal} (hremoval : removal ∈ removalsOf context event) : removal.found = true := by
  unfold removalsOf toggleTimerRemovals at hremoval
  split at hremoval
  · dsimp only at hremoval
    split_ifs at hremoval with hexit hrunning
    · exact absurd hremoval List.not_mem_nil
    · have hactive : context.timerState.timerId ∈ context.sources := by
        rw [hone, if_pos hrunning]
        exact List.mem_singleton_self _
      obtain rfl := List.mem_singleton.mp hremoval
      exact decide_eq_true hactive
    · exact absurd hremoval List.not_mem_nil
  · exact absurd hremoval List.not_mem_nil

/-- Every turn of the main loop keeps the discipline. -/
theorem Observed.Good.step {observed next : Observed} {turn : Turn} (hgood : observed.Good)
    (hstep : observed.step turn = .ok next) : next.Good := by
  cases turn with
  | due sourceId =>
    unfold Observed.step at hstep
    dsimp only at hstep
    split_ifs at hstep
    · exact Except.ok.inj hstep ▸ hgood
    · obtain ⟨context, hdispatch, rfl⟩ := map_eq_ok_iff.mp hstep
      exact ⟨hgood.oneSource.dispatch hdispatch, hgood.found⟩
  | event event =>
    obtain ⟨context, hevent, rfl⟩ := map_eq_ok_iff.mp hstep
    refine ⟨hgood.oneSource.step hevent, fun removal hremoval ↦ ?_⟩
    rcases List.mem_append.mp hremoval with hearlier | hnow
    · exact hgood.found removal hearlier
    · exact found_of_mem_removalsOf hgood.oneSource hnow

/-- What the discipline says about the sources of the main loop: at most one timeout is active, the
timer runs exactly when one is, `timer_id` is its identifier, `g_source_remove` has only been given
active sources, and while the timer stands still no timeout that might be due changes anything. -/
structure Observed.Disciplined (observed : Observed) : Prop where
  length_le : observed.context.sources.length ≤ 1
  isRunning_iff : observed.context.timerState.isRunning = true ↔
    observed.context.sources.length = 1
  timerId_eq : ∀ sourceId ∈ observed.context.sources,
    observed.context.timerState.timerId = sourceId
  found : ∀ removal ∈ observed.removals, removal.found = true
  tick_eq : observed.context.timerState.isRunning = false →
    tick observed.context = .ok observed.context
  dispatch_eq : observed.context.timerState.isRunning = false →
    ∀ sourceId, dispatch observed.context sourceId = .ok observed.context

theorem Observed.Good.disciplined {observed : Observed} (hgood : observed.Good) :
    observed.Disciplined := by
  have hone := hgood.oneSource
  constructor
  · rw [hone]
    split_ifs
    · exact le_rfl
    · exact Nat.zero_le 1
  · rw [hone]
    split_ifs with hrunning
    · exact iff_of_true hrunning rfl
    · exact iff_of_false hrunning id
  · intro sourceId hactive
    rw [hone] at hactive
    split_ifs at hactive
    · exact (List.mem_singleton.mp hactive).symm
    · exact absurd hactive List.not_mem_nil
  · exact hgood.found
  · exact tick_of_stopped hone
  · exact dispatch_of_stopped hone

/-- The discipline of the timeouts holds in every state that the program reaches, in whatever order
its timeouts are due and its other callbacks run. -/
theorem disciplined_of_run {file : KeyFile} {written : Option (List Entry)} {turns : List Turn}
    {observed : Observed}
    (hrun : Runs.run Observed.step ⟨start file written, []⟩ turns = .ok observed) :
    observed.Disciplined := by
  have hstart : Observed.Good ⟨start file written, []⟩ :=
    ⟨rfl, fun removal hremoval ↦ absurd hremoval List.not_mem_nil⟩
  exact (Runs.always (fun _ _ _ hgood hstep ↦ hgood.step hstep) hstart hrun).disciplined

/-- The timer is started, counts down twice, and is stopped; then its timeout is found due once
more. -/
def twoClicks : List Turn :=
  [.event (.toggleTimer 0), .due 1, .event .tick, .event (.toggleTimer 2), .due 1]

theorem disciplined_of_twoClicks :
    ∃ observed, Runs.run Observed.step ⟨start KeyFile.empty none, []⟩ twoClicks = .ok observed ∧
      observed.removals = [⟨1, true⟩] ∧ observed.Disciplined := by
  obtain ⟨observed, hrun, hremovals⟩ : ∃ observed,
      Runs.run Observed.step ⟨start KeyFile.empty none, []⟩ twoClicks = .ok observed ∧
        observed.removals = [⟨1, true⟩] := ⟨_, rfl, rfl⟩
  exact ⟨observed, hrun, hremovals, disciplined_of_run hrun⟩

end Homework.Pomodoro
