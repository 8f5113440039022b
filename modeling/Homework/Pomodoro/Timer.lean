import Homework.Pomodoro.MainWindow

/-!
# What the callbacks do to the timer

`updateTimer_eq` and `toggleTimer_eq` say what a second and a click do to the context. The timeouts
follow a discipline (`OneSource`): while the timer runs, its own timeout is the only one, and
otherwise there is none. So a second of a running timer is one call of `updateTimer`
(`tick_of_running`), and it passes without a trace while the timer stands still.
-/

set_option autoImplicit false
set_option relaxedAutoImplicit false

namespace Homework.Pomodoro

open Homework.Library

/-- The duration of a phase, in minutes. -/
def Settings.duration (settings : Settings) (isWorkTime : Bool) : CInt :=
  if isWorkTime then settings.workDuration else settings.breakDuration

/-- The context after a change of phase. -/
def changePhase (context : AppContext) (remaining : CInt) : AppContext :=
  let isWorkTime := !context.timerState.isWorkTime
  let message := if isWorkTime then "Work time!" else "Break time!"
  announce { context with
    timerState := { context.timerState with isWorkTime, remainingSeconds := remaining }
    label := ⟨message, none⟩ } message

/-- The context after a second of a phase. -/
def countDown (context : AppContext) (remaining : CInt) : AppContext :=
  let seconds := context.timerState.remainingSeconds.val
  { context with
    timerState := { context.timerState with remainingSeconds := remaining }
    label := ⟨if context.timerState.isWorkTime then "Work" else "Break",
      some (seconds.tdiv 60, seconds.tmod 60)⟩ }

/-- The context after the timer is started. -/
def startTimer (context : AppContext) (others : ℕ) (remaining : CInt) : AppContext :=
  let timerId := context.nextSource + others
  { context with
    sources := context.sources ++ [timerId]
    nextSource := timerId + 1
    startLabel := "Stop"
    timerState := ⟨true, true, timerId, remaining⟩ }

/-- The context after the timer is stopped. -/
def stopTimer (context : AppContext) : AppContext :=
  { context with
    sources := context.sources.erase context.timerState.timerId
    startLabel := "Start"
    timerState := { context.timerState with isRunning := false } }

/-! ### The callbacks -/

section Callbacks

variable (context : AppContext)

/-- A call of `updateTimer` changes the phase when no second remains, and counts down otherwise. -/
theorem updateTimer_eq :
    updateTimer context =
      if context.timerState.remainingSeconds.val ≤ 0 then
        (checked (context.settings.duration (!context.timerState.isWorkTime) * 60)).map
          (changePhase context)
      else (checked (context.timerState.remainingSeconds - 1)).map (countDown context) := by
  rfl

theorem toggleTimer_eq (others : ℕ) :
    toggleTimer context others =
      if context.timerState.isRunning then .ok (stopTimer context)
      else (checked (context.settings.workDuration * 60)).map (startTimer context others) := by
  unfold toggleTimer stopTimer startTimer
  rcases hrunning : context.timerState.isRunning
  · simp only [hrunning, Bool.false_eq_true, if_false, Bool.not_false]
    rfl
  · simp only [hrunning, if_true, Bool.not_true]
    rfl

end Callbacks

/-! ### The timeouts -/

/-- While the timer runs its own timeout is the only one, and otherwise there is none. -/
def OneSource (context : AppContext) : Prop :=
  context.sources = if context.timerState.isRunning then [context.timerState.timerId] else []

section Sources

variable {context next : AppContext}

/-- A second of a running timer is one call of `updateTimer`. -/
theorem tick_of_running (hone : OneSource context)
    (hrunning : context.timerState.isRunning = true) :
    tick context = updateTimer context := by
  unfold tick
  rw [hone, if_pos hrunning]
  change (updateTimer context >>= pure) = _
  exact bind_pure _

theorem tick_of_stopped (hone : OneSource context)
    (hstopped : context.timerState.isRunning = false) : tick context = .ok context := by
  unfold tick
  rw [hone, hstopped]
  rfl

/-- A second passes: the timer stands still, or `updateTimer` runs once. -/
theorem tick_cases (hone : OneSource context) (htick : tick context = .ok next) :
    next = context ∨
      (context.timerState.isRunning = true ∧ updateTimer context = .ok next) := by
  rcases hrunning : context.timerState.isRunning
  · rw [tick_of_stopped hone hrunning] at htick
    exact Or.inl (Except.ok.inj htick).symm
  · rw [tick_of_running hone hrunning] at htick
    exact Or.inr ⟨rfl, htick⟩

/-- A call of `updateTimer` touches the phase, the remaining seconds, the label and the
notifications only. -/
theorem updateTimer_frame (hupdate : updateTimer context = .ok next) :
    ∃ isWorkTime remainingSeconds label announced,
      next = { context with
        timerState := { context.timerState with isWorkTime, remainingSeconds }
        label := label
        announced := announced } := by
  rw [updateTimer_eq] at hupdate
  split at hupdate
  · obtain ⟨remaining, -, rfl⟩ := map_checked_eq_ok_iff.mp hupdate
    exact ⟨_, remaining, _, _, rfl⟩
  · obtain ⟨remaining, -, rfl⟩ := map_checked_eq_ok_iff.mp hupdate
    exact ⟨_, remaining, _, _, rfl⟩

/-- A click starts the timer or stops it. -/
theorem toggleTimer_cases {others : ℕ} (htoggle : toggleTimer context others = .ok next) :
    (context.timerState.isRunning = true ∧ next = stopTimer context) ∨
      (context.timerState.isRunning = false ∧ ∃ remaining : CInt,
        (remaining : ℤ) = context.settings.workDuration * 60 ∧
          next = startTimer context others remaining) := by
  rw [toggleTimer_eq] at htoggle
  split at htoggle
  · next hrunning => exact Or.inl ⟨hrunning, (Except.ok.inj htoggle).symm⟩
  · next hstopped =>
    obtain ⟨remaining, hremaining, rfl⟩ := map_checked_eq_ok_iff.mp htoggle
    exact Or.inr ⟨Bool.eq_false_of_not_eq_true hstopped, remaining, hremaining, rfl⟩

theorem onLanguageChanged_frame (context : AppContext) (newLang : Option Language)
    (restart : Bool) :
    ∃ language written exit, onLanguageChanged context newLang restart =
      { context with settings.language := language, written := written, exit := exit } := by
  unfold onLanguageChanged
  split
  · exact ⟨_, _, _, rfl⟩
  · dsimp only
    split_ifs
    · exact ⟨_, _, _, rfl⟩
    · exact ⟨_, _, _, rfl⟩
    · exact ⟨_, _, _, rfl⟩

/-- Two contexts with the same timer and the same timeouts. -/
structure SameTimer (context next : AppContext) : Prop where
  timerState : next.timerState = context.timerState
  sources : next.sources = context.sources
  nextSource : next.nextSource = context.nextSource

/-- Two contexts with the same settings, the same spin buttons and the same file, both running or
both ended in the same way. -/
structure SameSettings (context next : AppContext) : Prop where
  settings : next.settings = context.settings
  workSpin : next.workSpin = context.workSpin
  breakSpin : next.breakSpin = context.breakSpin
  written : next.written = context.written
  exit : next.exit = context.exit

/-- The events whose callback acts on the timer. -/
def Event.IsTimer : Event → Prop
  | .tick | .toggleTimer _ => True
  | _ => False

/-- The callbacks of the other events involve no arithmetic. -/
theorem handle_ok_of_not_isTimer (context : AppContext) {event : Event}
    (hevent : ¬event.IsTimer) : ∃ next, handle context event = .ok next := by
  unfold handle
  split
  · exact absurd trivial hevent
  · exact absurd trivial hevent
  all_goals exact ⟨_, rfl⟩

/-- The callbacks of the other events leave the timer alone. Each duration stays with its spin
button as they are, or becomes what its spin button shows. -/
theorem step_settings_frame {event : Event} (hevent : ¬event.IsTimer)
    (hstep : step context event = .ok next) :
    ∃ settings workSpin breakSpin revealed written exit,
      next = { context with settings, workSpin, breakSpin, revealed, written, exit } ∧
      (settings.workDuration = workSpin.value ∨
        settings.workDuration = context.settings.workDuration ∧ workSpin = context.workSpin) ∧
      (settings.breakDuration = breakSpin.value ∨
        settings.breakDuration = context.settings.breakDuration ∧
          breakSpin = context.breakSpin) := by
  unfold step at hstep
  split at hstep
  · obtain rfl := Except.ok.inj hstep
    exact ⟨_, _, _, _, _, _, rfl, Or.inr ⟨rfl, rfl⟩, Or.inr ⟨rfl, rfl⟩⟩
  rcases event with _ | _ | _ | value | value | _ | _ | _ | ⟨newLang, restart⟩ | _ | _
  · exact absurd trivial hevent
  · exact absurd trivial hevent
  all_goals obtain rfl := Except.ok.inj hstep
  · exact ⟨_, _, _, _, _, _, rfl, Or.inr ⟨rfl, rfl⟩, Or.inr ⟨rfl, rfl⟩⟩
  · unfold setWorkSpin
    dsimp only
    split
    · exact ⟨_, _, _, _, _, _, rfl, Or.inr ⟨rfl, rfl⟩, Or.inr ⟨rfl, rfl⟩⟩
    · exact ⟨_, _, _, _, _, _, rfl, Or.inl rfl, Or.inr ⟨rfl, rfl⟩⟩
  · unfold setBreakSpin
    dsimp only
    split
    · exact ⟨_, _, _, _, _, _, rfl, Or.inr ⟨rfl, rfl⟩, Or.inr ⟨rfl, rfl⟩⟩
    · exact ⟨_, _, _, _, _, _, rfl, Or.inr ⟨rfl, rfl⟩, Or.inl rfl⟩
  · exact ⟨_, _, _, _, _, _, rfl, Or.inr ⟨rfl, rfl⟩, Or.inr ⟨rfl, rfl⟩⟩
  · exact ⟨_, _, _, _, _, _, rfl, Or.inr ⟨rfl, rfl⟩, Or.inr ⟨rfl, rfl⟩⟩
  · exact ⟨_, _, _, _, _, _, rfl, Or.inr ⟨rfl, rfl⟩, Or.inr ⟨rfl, rfl⟩⟩
  · obtain ⟨_, _, _, heq⟩ := onLanguageChanged_frame context newLang restart
    exact ⟨_, _, _, _, _, _, heq, Or.inr ⟨rfl, rfl⟩, Or.inr ⟨rfl, rfl⟩⟩
  · exact ⟨_, _, _, _, _, _, rfl, Or.inr ⟨rfl, rfl⟩, Or.inr ⟨rfl, rfl⟩⟩
  · exact ⟨_, _, _, _, _, _, rfl, Or.inr ⟨rfl, rfl⟩, Or.inr ⟨rfl, rfl⟩⟩

theorem step_sameTimer {event : Event} (hevent : ¬event.IsTimer)
    (hstep : step context event = .ok next) : SameTimer context next := by
  obtain ⟨_, _, _, _, _, _, rfl, -⟩ := step_settings_frame hevent hstep
  exact ⟨rfl, rfl, rfl⟩

/-- The callbacks of the timer leave the settings alone. -/
theorem step_sameSettings {event : Event} (hone : OneSource context) (hevent : event.IsTimer)
    (hstep : step context event = .ok next) : SameSettings context next := by
  unfold step at hstep
  split at hstep
  · exact Except.ok.inj hstep ▸ ⟨rfl, rfl, rfl, rfl, rfl⟩
  rcases event with _ | others | _ | _ | _ | _ | _ | _ | _ | _ | _
  · rcases tick_cases hone hstep with rfl | ⟨-, hupdate⟩
    · exact ⟨rfl, rfl, rfl, rfl, rfl⟩
    · obtain ⟨isWorkTime, remaining, label, announced, rfl⟩ := updateTimer_frame hupdate
      exact ⟨rfl, rfl, rfl, rfl, rfl⟩
  · rcases toggleTimer_cases hstep with ⟨-, rfl⟩ | ⟨-, remaining, -, rfl⟩
    · exact ⟨rfl, rfl, rfl, rfl, rfl⟩
    · exact ⟨rfl, rfl, rfl, rfl, rfl⟩
  all_goals exact absurd hevent id

theorem OneSource.stopped (hone : OneSource context)
    (hrunning : context.timerState.isRunning = true) :
    OneSource (stopTimer context) := by
  unfold OneSource at hone ⊢
  rw [if_pos hrunning] at hone
  simp [stopTimer, hone]

theorem OneSource.started (hone : OneSource context)
    (hstopped : context.timerState.isRunning = false) (others : ℕ) (remaining : CInt) :
    OneSource (startTimer context others remaining) := by
  unfold OneSource at hone ⊢
  rw [hstopped] at hone
  simp [startTimer, hone]

/-- Every callback keeps the discipline of the timeouts. -/
theorem OneSource.step {event : Event} (hone : OneSource context)
    (hstep : step context event = .ok next) : OneSource next := by
  by_cases hevent : event.IsTimer
  · unfold Pomodoro.step at hstep
    split at hstep
    · exact Except.ok.inj hstep ▸ hone
    rcases event with _ | others | _ | _ | _ | _ | _ | _ | _ | _ | _
    · rcases tick_cases hone hstep with rfl | ⟨-, hupdate⟩
      · exact hone
      · obtain ⟨isWorkTime, remaining, label, announced, rfl⟩ := updateTimer_frame hupdate
        exact hone
    · rcases toggleTimer_cases hstep with ⟨hrunning, rfl⟩ | ⟨hstopped, remaining, -, rfl⟩
      · exact hone.stopped hrunning
      · exact hone.started hstopped others remaining
    all_goals exact absurd hevent id
  · have hsame := step_sameTimer hevent hstep
    unfold OneSource
    rw [hsame.sources, hsame.timerState]
    exact hone

/-- The discipline holds in every reachable state. -/
theorem OneSource.of_run {file : KeyFile} {written : Option (List Entry)} {events : List Event}
    (hrun : run (start file written) events = .ok context) : OneSource context :=
  Runs.always (fun _ _ _ hone hstep ↦ OneSource.step hone hstep)
    (show OneSource (start file written) from rfl) hrun

end Sources

end Homework.Pomodoro
