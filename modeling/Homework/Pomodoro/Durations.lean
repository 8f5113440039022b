import Homework.Pomodoro.Timer

/-!
# The range of the durations

The spin buttons clamp what they show, but the settings take any number from `config.ini`. The two
agree in every reachable state, and the countdown stays within two hours, exactly when the file
holds no number out of the range of its spin button (`durations_legal_iff`).
-/

set_option autoImplicit false
set_option relaxedAutoImplicit false

namespace Homework.Pomodoro

open Homework.Library

/-- The settings are in range and are what the spin buttons show, and the countdown is at most the
longest phase. -/
structure LegalDurations (context : AppContext) : Prop where
  work_range : 1 ≤ context.settings.workDuration.val ∧ context.settings.workDuration.val ≤ 120
  break_range : 1 ≤ context.settings.breakDuration.val ∧ context.settings.breakDuration.val ≤ 60
  workSpin : context.settings.workDuration = context.workSpin.value
  breakSpin : context.settings.breakDuration = context.breakSpin.value
  remaining : 0 ≤ context.timerState.remainingSeconds.val ∧
    context.timerState.remainingSeconds.val ≤ 7200

/-- A loaded value in the range of its spin button: the getter reports an error, so that the default
is taken, or finds a number in the range. -/
def LoadsInRange (file : KeyFile) (key : Key) (low high : ℤ) : Prop :=
  ∀ value, file.getInteger groupName key.name = some value → low ≤ value.val ∧ value.val ≤ high

/-- The invariant: the settings are what the spin buttons show, and the countdown is at most the
longest phase. -/
structure SpinsShown (context : AppContext) : Prop where
  oneSource : OneSource context
  workSpin : context.settings.workDuration = context.workSpin.value
  breakSpin : context.settings.breakDuration = context.breakSpin.value
  remaining : 0 ≤ context.timerState.remainingSeconds.val ∧
    context.timerState.remainingSeconds.val ≤ 7200

section Legal

variable {context next : AppContext}

theorem SpinsShown.legal (hshown : SpinsShown context) : LegalDurations context where
  work_range := hshown.workSpin ▸ ⟨context.workSpin.low_le, context.workSpin.le_high⟩
  break_range := hshown.breakSpin ▸ ⟨context.breakSpin.low_le, context.breakSpin.le_high⟩
  workSpin := hshown.workSpin
  breakSpin := hshown.breakSpin
  remaining := hshown.remaining

/-- A phase of a legal duration. -/
theorem LegalDurations.phase (hlegal : LegalDurations context) (isWorkTime : Bool) :
    60 ≤ (context.settings.duration isWorkTime).val * 60 ∧
      (context.settings.duration isWorkTime).val * 60 ≤ 7200 := by
  have hwork := hlegal.work_range
  have hbreak := hlegal.break_range
  unfold Settings.duration
  split
  · omega
  · omega

/-- `updateTimer` keeps the countdown in range, without overflow. -/
theorem SpinsShown.updateTimer (hshown : SpinsShown context) :
    ∃ next, updateTimer context = .ok next ∧ SpinsShown next := by
  have hremaining := hshown.remaining
  rw [updateTimer_eq]
  split
  · have hphase := hshown.legal.phase (!context.timerState.isWorkTime)
    have hnonneg := le_trans (by decide : (0 : ℤ) ≤ 60) hphase.1
    rw [checked_of_inRange ⟨by omega, by omega⟩]
    exact ⟨_, rfl, hshown.oneSource, hshown.workSpin, hshown.breakSpin, hnonneg, hphase.2⟩
  · rw [checked_of_inRange ⟨by omega, by omega⟩]
    have hnext : 0 ≤ context.timerState.remainingSeconds.val - 1 ∧
        context.timerState.remainingSeconds.val - 1 ≤ 7200 := by omega
    exact ⟨_, rfl, hshown.oneSource, hshown.workSpin, hshown.breakSpin, hnext⟩

/-- `toggleTimer` starts a countdown in range, without overflow. -/
theorem SpinsShown.toggleTimer (hshown : SpinsShown context) (others : ℕ) :
    ∃ next, toggleTimer context others = .ok next ∧ SpinsShown next := by
  have hwork := hshown.legal.work_range
  have hphase : 0 ≤ context.settings.workDuration.val * 60 ∧
      context.settings.workDuration.val * 60 ≤ 7200 := by omega
  rw [toggleTimer_eq]
  split
  · next hrunning =>
    refine ⟨_, rfl, ?_, hshown.workSpin, hshown.breakSpin, hshown.remaining⟩
    exact hshown.oneSource.stopped hrunning
  · next hstopped =>
    rw [checked_of_inRange ⟨by omega, by omega⟩]
    refine ⟨_, rfl, ?_, hshown.workSpin, hshown.breakSpin, hphase⟩
    exact hshown.oneSource.started (Bool.eq_false_of_not_eq_true hstopped) others _

/-- The callbacks of the other events keep the settings what the spin buttons show. -/
theorem SpinsShown.settingsEvent (hshown : SpinsShown context) {event : Event}
    (hevent : ¬event.IsTimer) (hstep : Pomodoro.step context event = .ok next) :
    next.settings.workDuration = next.workSpin.value ∧
      next.settings.breakDuration = next.breakSpin.value := by
  obtain ⟨_, _, _, _, _, _, rfl, hwork, hbreak⟩ := step_settings_frame hevent hstep
  constructor
  · rcases hwork with hset | ⟨hkept, hspin⟩
    · exact hset
    · exact hkept.trans (hspin ▸ hshown.workSpin)
  · rcases hbreak with hset | ⟨hkept, hspin⟩
    · exact hset
    · exact hkept.trans (hspin ▸ hshown.breakSpin)

/-- Every event is handled without overflow and keeps the invariant. -/
theorem SpinsShown.step (hshown : SpinsShown context) (event : Event) :
    ∃ next, step context event = .ok next ∧ SpinsShown next := by
  unfold Pomodoro.step
  split
  · exact ⟨context, rfl, hshown⟩
  next hgoing =>
  by_cases hevent : event.IsTimer
  · rcases event with _ | others | _ | _ | _ | _ | _ | _ | _ | _ | _
    · show ∃ next, tick context = .ok next ∧ SpinsShown next
      rcases hrunning : context.timerState.isRunning
      · exact ⟨context, tick_of_stopped hshown.oneSource hrunning, hshown⟩
      · rw [tick_of_running hshown.oneSource hrunning]
        exact hshown.updateTimer
    · exact hshown.toggleTimer others
    all_goals exact absurd hevent id
  · obtain ⟨next, hhandle⟩ := handle_ok_of_not_isTimer context hevent
    have hstep : Pomodoro.step context event = .ok next := by
      rw [Pomodoro.step, if_neg hgoing, hhandle]
    obtain ⟨hwork, hbreak⟩ := hshown.settingsEvent hevent hstep
    refine ⟨next, hhandle, hshown.oneSource.step hstep, hwork, hbreak, ?_⟩
    rw [(step_sameTimer hevent hstep).timerState]
    exact hshown.remaining

end Legal

/-! ### The start -/

theorem loadIntOrDefault_range {file : KeyFile} {key : Key} {low high : ℤ} {default : CInt}
    (hdefault : low ≤ default.val ∧ default.val ≤ high) :
    (low ≤ (loadIntOrDefault file groupName key default).val ∧
      (loadIntOrDefault file groupName key default).val ≤ high) ↔
      LoadsInRange file key low high := by
  unfold loadIntOrDefault loadOrDefault LoadsInRange
  rcases hvalue : file.getInteger groupName key.name with _ | value
  · simpa [hvalue] using hdefault
  · simp [hvalue]

/-- The program starts with the settings shown exactly when the file holds no number out of
range. -/
theorem start_spinsShown {file : KeyFile} (hwork : LoadsInRange file .workDuration 1 120)
    (hbreak : LoadsInRange file .breakDuration 1 60) (written : Option (List Entry)) :
    SpinsShown (start file written) where
  oneSource := rfl
  workSpin := ((SpinButton.setValue_value_eq_iff minDuration_le_maxWorkDuration _).mpr
    ((loadIntOrDefault_range (by decide)).mpr hwork)).symm
  breakSpin := ((SpinButton.setValue_value_eq_iff minDuration_le_maxBreakDuration _).mpr
    ((loadIntOrDefault_range (by decide)).mpr hbreak)).symm
  remaining := ⟨le_refl (0 : ℤ), show (0 : ℤ) ≤ 7200 by decide⟩

/-- The durations stay legal, without overflow, in every reachable state exactly when the file
holds no work duration out of `[1, 120]` and no break duration out of `[1, 60]`. -/
theorem durations_legal_iff (file : KeyFile) (written : Option (List Entry)) :
    (∀ events, ∃ context, run (start file written) events = .ok context ∧
      LegalDurations context) ↔
      LoadsInRange file .workDuration 1 120 ∧ LoadsInRange file .breakDuration 1 60 := by
  constructor
  · intro hlegal
    obtain ⟨context, hrun, hcontext⟩ := hlegal []
    obtain rfl := Except.ok.inj hrun
    exact ⟨(loadIntOrDefault_range (by decide)).mp hcontext.work_range,
      (loadIntOrDefault_range (by decide)).mp hcontext.break_range⟩
  · rintro ⟨hwork, hbreak⟩ events
    have hstart := start_spinsShown hwork hbreak written
    rcases Runs.run_ok (fun state input hshown _ ↦ SpinsShown.step hshown input) hstart
      (Runs.along_true (start file written) events) with ⟨context, hrun, hshown⟩
    exact ⟨context, hrun, hshown.legal⟩

/-- A `config.ini` with `work_duration=0`: the spin button shows 1, the setting is 0. -/
theorem durations_zero_work :
    ¬∀ (file : KeyFile) (written : Option (List Entry)) (events : List Event),
      ∃ context, run (start file written) events = .ok context ∧ LegalDurations context := by
  intro hlegal
  rcases hlegal (KeyFile.ofDurations ⟨0, by decide⟩ ⟨5, by decide⟩) none [] with
    ⟨context, hrun, hcontext⟩
  obtain rfl := Except.ok.inj hrun
  exact absurd hcontext.work_range.1 (by decide)

end Homework.Pomodoro
