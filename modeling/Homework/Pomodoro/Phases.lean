import Homework.Pomodoro.Timer
import Mathlib.Tactic.Ring

/-!
# The phases of a running timer

`updateTimer` counts a phase of `60 * d` seconds down to zero and changes the phase only at the
next tick. So every phase is one second too long: the change number `k` comes `k` seconds late
(`phaseChanges_law`), and no run on the durations of the settings keeps to them (`phases_late`).

A run is left undisturbed (`Undisturbed`) when nobody touches the start button, the durations stay
as they are and the program goes on.
-/

set_option autoImplicit false
set_option relaxedAutoImplicit false

namespace Homework.Pomodoro

open Homework.Library

/-! ### The timetable -/

/-- Whether the phase after some changes is work. -/
def phase : ℕ → Bool
  | 0 => true
  | changes + 1 => !phase changes

/-- The minutes of the first phases. -/
def phaseMinutes (settings : Settings) : ℕ → ℤ
  | 0 => 0
  | count + 1 => phaseMinutes settings count + settings.duration (phase count)

/-- A change of phase: the tick at which it happens, and the phase that begins. -/
structure PhaseChange where
  tick : ℤ
  isWorkTime : Bool
deriving DecidableEq

/-- The changes of phase in a run before which some ticks have passed. -/
def phaseChanges : ℤ → AppContext → List Event → List PhaseChange
  | _, _, [] => []
  | ticks, context, event :: rest =>
    match step context event with
    | .error _ => []
    | .ok next =>
      let ticks := if event = .tick then ticks + 1 else ticks
      if next.timerState.isWorkTime = context.timerState.isWorkTime then
        phaseChanges ticks next rest
      else ⟨ticks, next.timerState.isWorkTime⟩ :: phaseChanges ticks next rest

/-- The changes follow a timetable as far as the ticks go: the change number `k` begins the phase
number `k`. -/
def Follows (timetable : ℕ → ℤ) (ticks : ℤ) (changes : List PhaseChange) : Prop :=
  ∀ k, changes[k]? =
    if timetable (k + 1) ≤ ticks then some ⟨timetable (k + 1), phase (k + 1)⟩ else none

/-- The timetable of phases that last their durations. -/
def onTime (settings : Settings) (changes : ℕ) : ℤ := 60 * phaseMinutes settings changes

/-- The timetable of the program. -/
def oneSecondLate (settings : Settings) (changes : ℕ) : ℤ :=
  60 * phaseMinutes settings changes + changes

/-- An event that neither stops the timer, nor ends the program, nor changes a duration. -/
def Undisturbed (context : AppContext) (event : Event) : Prop :=
  (∀ others, event ≠ .toggleTimer others) ∧ ∀ next, step context event = .ok next →
    next.exit = none ∧ next.settings.workDuration = context.settings.workDuration ∧
      next.settings.breakDuration = context.settings.breakDuration

/-- Durations of at least a minute whose seconds are `int` values. -/
structure GoodDurations (settings : Settings) : Prop where
  work_pos : 1 ≤ settings.workDuration.val
  break_pos : 1 ≤ settings.breakDuration.val
  work_range : InIntRange (settings.workDuration * 60)
  break_range : InIntRange (settings.breakDuration * 60)

namespace GoodDurations

variable {settings : Settings}

theorem duration_pos (hgood : GoodDurations settings) (isWorkTime : Bool) :
    1 ≤ (settings.duration isWorkTime).val := by
  unfold Settings.duration
  split
  · exact hgood.work_pos
  · exact hgood.break_pos

theorem duration_range (hgood : GoodDurations settings) (isWorkTime : Bool) :
    InIntRange (settings.duration isWorkTime * 60) := by
  unfold Settings.duration
  split
  · exact hgood.work_range
  · exact hgood.break_range

end GoodDurations

/-- Nothing but seconds is an undisturbed run. -/
theorem undisturbed_ticks {context : AppContext} (hone : OneSource context)
    (hgoing : context.exit = none) (count : ℕ) :
    Runs.Along step Undisturbed context (List.replicate count .tick) := by
  induction count generalizing context with
  | zero => trivial
  | succ count ih =>
    constructor
    · refine ⟨fun others heq ↦ Event.noConfusion heq, fun next hstep ↦ ?_⟩
      have hsame := step_sameSettings hone (show Event.tick.IsTimer from trivial) hstep
      exact ⟨hsame.exit.trans hgoing, by rw [hsame.settings], by rw [hsame.settings]⟩
    · intro next hstep
      have hsame := step_sameSettings hone (show Event.tick.IsTimer from trivial) hstep
      exact ih (hone.step hstep) (hsame.exit.trans hgoing)

/-! ### The countdown -/

/-- The timer runs, some ticks and some changes after it was started. The next change is due at the
tick after the countdown. -/
structure Counting (settings : Settings) (ticks : ℤ) (changes : ℕ) (context : AppContext) :
    Prop where
  oneSource : OneSource context
  running : context.timerState.isRunning = true
  going : context.exit = none
  duration : ∀ isWorkTime, context.settings.duration isWorkTime = settings.duration isWorkTime
  isWorkTime : context.timerState.isWorkTime = phase changes
  remaining_nonneg : 0 ≤ context.timerState.remainingSeconds.val
  due : ticks + context.timerState.remainingSeconds + 1 = oneSecondLate settings (changes + 1)

theorem oneSecondLate_succ (settings : Settings) (changes : ℕ) :
    oneSecondLate settings (changes + 1) =
      oneSecondLate settings changes + settings.duration (phase changes) * 60 + 1 := by
  unfold oneSecondLate
  rw [phaseMinutes, Nat.cast_add, Nat.cast_one]
  ring

namespace Counting

variable {settings : Settings} {ticks : ℤ} {changes : ℕ} {context next : AppContext}

theorem step_tick (hcounting : Counting settings ticks changes context) :
    step context .tick = updateTimer context := by
  unfold step
  rw [hcounting.going]
  exact tick_of_running hcounting.oneSource hcounting.running

/-- A tick while seconds remain. -/
theorem countDown (hcounting : Counting settings ticks changes context)
    (hpos : 0 < context.timerState.remainingSeconds.val) :
    ∃ next, step context .tick = .ok next ∧
      next.timerState.isWorkTime = context.timerState.isWorkTime ∧
      Counting settings (ticks + 1) changes next := by
  have hdue := hcounting.due
  have hupper := context.timerState.remainingSeconds.2.2
  rw [hcounting.step_tick, updateTimer_eq, if_neg (not_le.mpr hpos),
    checked_of_inRange ⟨by omega, by omega⟩]
  refine ⟨_, rfl, rfl, hcounting.oneSource, hcounting.running, hcounting.going,
    hcounting.duration, hcounting.isWorkTime, Int.sub_nonneg_of_le hpos, ?_⟩
  change ticks + 1 + (context.timerState.remainingSeconds.val - 1) + 1 = _
  rw [← hdue]
  ring

/-- The tick after the countdown. -/
theorem changePhase (hcounting : Counting settings ticks changes context)
    (hgood : GoodDurations settings) (hzero : context.timerState.remainingSeconds.val = 0) :
    ∃ next, step context .tick = .ok next ∧
      next.timerState.isWorkTime = phase (changes + 1) ∧
      Counting settings (ticks + 1) (changes + 1) next := by
  have hdue := hcounting.due
  have hrange := hgood.duration_range (phase (changes + 1))
  have hpos := hgood.duration_pos (phase (changes + 1))
  have hphase : (!context.timerState.isWorkTime) = phase (changes + 1) := by
    rw [hcounting.isWorkTime, phase]
  rw [hcounting.step_tick, updateTimer_eq, if_pos (le_of_eq hzero), hphase, hcounting.duration,
    checked_of_inRange hrange]
  refine ⟨_, rfl, hphase, hcounting.oneSource, hcounting.running, hcounting.going,
    hcounting.duration, hphase, ?_, ?_⟩
  · change 0 ≤ (settings.duration (phase (changes + 1))).val * 60
    omega
  · change ticks + 1 + (settings.duration (phase (changes + 1))).val * 60 + 1 = _
    rw [oneSecondLate_succ, ← hdue, hzero]
    ring

/-- An undisturbed event that is not a tick. -/
theorem other (hcounting : Counting settings ticks changes context) {event : Event}
    (htick : event ≠ .tick) (hundisturbed : Undisturbed context event) :
    ∃ next, step context event = .ok next ∧
      next.timerState.isWorkTime = context.timerState.isWorkTime ∧
      Counting settings ticks changes next := by
  have hevent : ¬event.IsTimer := by
    rintro htimer
    rcases event with _ | others | _ | _ | _ | _ | _ | _ | _ | _ | _
    · exact htick rfl
    · exact hundisturbed.1 others rfl
    all_goals exact htimer
  obtain ⟨next, hhandle⟩ := handle_ok_of_not_isTimer context hevent
  have hstep : step context event = .ok next := by
    unfold step
    rw [hcounting.going]
    exact hhandle
  obtain ⟨hexit, hwork, hbreak⟩ := hundisturbed.2 next hstep
  have hsame := step_sameTimer hevent hstep
  refine ⟨next, hstep, by rw [hsame.timerState], hcounting.oneSource.step hstep, ?_, hexit, ?_,
    ?_, ?_, ?_⟩
  · exact hsame.timerState ▸ hcounting.running
  · intro isWorkTime
    rw [← hcounting.duration isWorkTime]
    unfold Settings.duration
    rw [hwork, hbreak]
  · exact hsame.timerState ▸ hcounting.isWorkTime
  · exact hsame.timerState ▸ hcounting.remaining_nonneg
  · exact hsame.timerState ▸ hcounting.due

/-- The start of the timer. -/
theorem of_start {context : AppContext} (hone : OneSource context)
    (hstopped : context.timerState.isRunning = false) (hgoing : context.exit = none)
    (hgood : GoodDurations context.settings) (others : ℕ) :
    ∃ started, step context (.toggleTimer others) = .ok started ∧
      Counting context.settings 0 0 started := by
  have hpos := hgood.work_pos
  have htoggle : step context (.toggleTimer others) = toggleTimer context others := by
    unfold step
    rw [hgoing]
    rfl
  rw [htoggle, toggleTimer_eq, hstopped, if_neg Bool.false_ne_true,
    checked_of_inRange hgood.work_range]
  refine ⟨_, rfl, hone.started hstopped others _, rfl, hgoing, fun _ ↦ rfl, rfl, ?_, ?_⟩
  · change 0 ≤ context.settings.workDuration.val * 60
    omega
  · change 0 + context.settings.workDuration.val * 60 + 1 = 60 * (0 + _) + ((0 + 1 : ℕ) : ℤ)
    rw [zero_add, zero_add, mul_comm]
    rfl

end Counting

/-! ### The drift -/

section Law

variable {settings : Settings} {ticks : ℤ} {changes : ℕ} {context : AppContext}

theorem phaseChanges_cons {event : Event} {next : AppContext}
    (hstep : step context event = .ok next) (rest : List Event) :
    phaseChanges ticks context (event :: rest) =
      let ticks := if event = .tick then ticks + 1 else ticks
      if next.timerState.isWorkTime = context.timerState.isWorkTime then
        phaseChanges ticks next rest
      else ⟨ticks, next.timerState.isWorkTime⟩ :: phaseChanges ticks next rest := by
  rw [phaseChanges, hstep]

/-- The changes come one after the other. -/
theorem oneSecondLate_le (hgood : GoodDurations settings) {first second : ℕ}
    (hle : first ≤ second) : oneSecondLate settings first ≤ oneSecondLate settings second := by
  refine monotone_nat_of_le_succ (fun changes ↦ ?_) hle
  have hpos := hgood.duration_pos (phase changes)
  rw [oneSecondLate_succ]
  omega

/-- The changes from some point of a run on. -/
theorem getElem?_phaseChanges (hgood : GoodDurations settings) {events : List Event}
    (hcounting : Counting settings ticks changes context)
    (halong : Runs.Along step Undisturbed context events) (k : ℕ) :
    (phaseChanges ticks context events)[k]? =
      if oneSecondLate settings (changes + k + 1) ≤ ticks + events.count .tick then
        some ⟨oneSecondLate settings (changes + k + 1), phase (changes + k + 1)⟩
      else none := by
  induction events generalizing ticks changes context k with
  | nil =>
    have hdue := hcounting.due
    have hnonneg := hcounting.remaining_nonneg
    have hlate := oneSecondLate_le hgood (show changes + 1 ≤ changes + k + 1 by omega)
    rw [if_neg (by rw [List.count_nil]; omega)]
    rfl
  | cons event rest ih =>
    by_cases htick : event = .tick
    · subst htick
      have htotal : ticks + ((Event.tick :: rest).count .tick : ℕ) =
          ticks + 1 + (rest.count .tick : ℕ) := by
        rw [List.count_cons_self, Nat.cast_add, Nat.cast_one]
        ring
      rw [htotal]
      rcases hcounting.remaining_nonneg.lt_or_eq with hpos | hzero
      · obtain ⟨next, hstep, hsame, hnext⟩ := hcounting.countDown hpos
        rw [phaseChanges_cons hstep, if_pos rfl, if_pos hsame]
        exact ih hnext (halong.2 next hstep) k
      · obtain ⟨next, hstep, hphase, hnext⟩ := hcounting.changePhase hgood hzero.symm
        have hflip : next.timerState.isWorkTime ≠ context.timerState.isWorkTime := by
          rw [hphase, hcounting.isWorkTime, phase]
          exact Bool.not_ne_self _
        have hdue : ticks + 1 = oneSecondLate settings (changes + 1) := by
          rw [← hcounting.due, ← hzero, add_zero]
        rw [phaseChanges_cons hstep, if_pos rfl, if_neg hflip]
        rcases k with _ | k
        · rw [List.getElem?_cons_zero, add_zero, hphase, ← hdue, if_pos (by omega)]
        · have hrest := ih hnext (halong.2 next hstep) k
          rw [List.getElem?_cons_succ, hrest, Nat.add_right_comm changes 1 k]
          rfl
    · obtain ⟨next, hstep, hsame, hnext⟩ := hcounting.other htick halong.1
      rw [phaseChanges_cons hstep, if_neg htick, if_pos hsame, List.count_cons_of_ne htick]
      exact ih hnext (halong.2 next hstep) k

/-- The changes of an undisturbed timer come one second later with every phase. -/
theorem phaseChanges_law (hgood : GoodDurations settings) {events : List Event}
    (hcounting : Counting settings 0 0 context)
    (halong : Runs.Along step Undisturbed context events) :
    Follows (oneSecondLate settings) (events.count .tick) (phaseChanges 0 context events) := by
  intro k
  have hchange := getElem?_phaseChanges hgood hcounting halong k
  rwa [Nat.zero_add, zero_add] at hchange

/-- A run that reaches the end of its first phase does not change the phase on time. -/
theorem not_onTime (hgood : GoodDurations settings) {events : List Event}
    (hcounting : Counting settings 0 0 context)
    (halong : Runs.Along step Undisturbed context events)
    (hlong : settings.workDuration.val * 60 ≤ events.count .tick) :
    ¬Follows (onTime settings) (events.count .tick) (phaseChanges 0 context events) := by
  intro honTime
  have hlate := phaseChanges_law hgood hcounting halong 0
  have hend : onTime settings 1 ≤ events.count .tick := by
    change 60 * (0 + settings.workDuration.val) ≤ _
    omega
  rw [honTime 0, if_pos hend] at hlate
  split at hlate
  · have htick := congrArg PhaseChange.tick (Option.some.inj hlate)
    change 60 * _ = 60 * _ + ((0 + 1 : ℕ) : ℤ) at htick
    omega
  · exact absurd hlate (Option.some_ne_none _)

end Law

/-- For no durations of at least a minute do the phases last their durations: whenever the timer is
started and left undisturbed until the work duration is over, the first change of phase is already
late. Assumes: the durations fit, and the timer is started in a reachable state in which it stands
still. -/
theorem phases_late {file : KeyFile} {written : Option (List Entry)} {before : List Event}
    {context : AppContext} (hrun : run (start file written) before = .ok context)
    (hstopped : context.timerState.isRunning = false) (hgoing : context.exit = none)
    (hgood : GoodDurations context.settings) (others : ℕ) :
    ∃ started, step context (.toggleTimer others) = .ok started ∧
      (∀ count, Runs.Along step Undisturbed started (List.replicate count .tick)) ∧
      ∀ events, Runs.Along step Undisturbed started events →
        context.settings.workDuration.val * 60 ≤ events.count .tick →
        ¬Follows (onTime context.settings) (events.count .tick)
          (phaseChanges 0 started events) := by
  have hone := OneSource.of_run hrun
  obtain ⟨started, hstep, hcounting⟩ := Counting.of_start hone hstopped hgoing hgood others
  refine ⟨started, hstep, undisturbed_ticks hcounting.oneSource hcounting.going, ?_⟩
  exact fun events halong hlong ↦ not_onTime hgood hcounting halong hlong

/-- A `config.ini` with phases of one minute. -/
def minuteFile : KeyFile := .ofDurations ⟨1, inIntRange_one⟩ ⟨1, inIntRange_one⟩

theorem minuteFile_good : GoodDurations (start minuteFile none).settings := by
  constructor <;> decide

theorem phases_late_minute :
    ∃ started, step (start minuteFile none) (.toggleTimer 0) = .ok started ∧
      (∀ count, Runs.Along step Undisturbed started (List.replicate count .tick)) ∧
      ∀ events, Runs.Along step Undisturbed started events →
        (start minuteFile none).settings.workDuration.val * 60 ≤ events.count .tick →
        ¬Follows (onTime (start minuteFile none).settings) (events.count .tick)
          (phaseChanges 0 started events) :=
  phases_late (show run (start minuteFile none) [] = .ok _ from rfl) rfl rfl minuteFile_good 0

/-- A minute of work has not ended after 60 seconds. -/
theorem phases_not_onTime_minute :
    ¬∀ (file : KeyFile) (written : Option (List Entry)) (before : List Event)
      (context started : AppContext) (others : ℕ) (events : List Event),
      run (start file written) before = .ok context → context.timerState.isRunning = false →
      context.exit = none → GoodDurations context.settings →
      step context (.toggleTimer others) = .ok started →
      Runs.Along step Undisturbed started events →
      Follows (onTime context.settings) (events.count .tick) (phaseChanges 0 started events) := by
  intro hall
  have hone : OneSource (start minuteFile none) := rfl
  obtain ⟨started, hstep, hcounting⟩ := Counting.of_start hone rfl rfl minuteFile_good 0
  have halong := undisturbed_ticks hcounting.oneSource hcounting.going 60
  refine not_onTime minuteFile_good hcounting halong ?_
    (hall minuteFile none [] _ started 0 _ rfl rfl rfl minuteFile_good hstep halong)
  rw [List.count_replicate_self]
  exact le_refl _

end Homework.Pomodoro
