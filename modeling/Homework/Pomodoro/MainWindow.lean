import Homework.Pomodoro.Settings
import Homework.Library.Runs

/-!
# The main window

The callbacks of the window act on the settings, the timer, the widgets and the sources of the main
loop. A spin button carries the proof that its value is in its range. The handlers are connected
last, by `finalize_connections`, so that setting the widgets to the loaded values calls none of
them.

An event is one callback of the main loop. `step` runs it; after the program has ended nothing
happens any more.
-/

set_option autoImplicit false
set_option relaxedAutoImplicit false

namespace Homework.Pomodoro

open Homework.Library

/-! ### Widgets -/

/-- A spin button with a range. -/
structure SpinButton (low high : CInt) where
  value : CInt
  low_le : low.val ≤ value
  le_high : value ≤ high.val

namespace SpinButton

variable {low high : CInt}

@[ext]
theorem ext {first second : SpinButton low high} (hvalue : first.value = second.value) :
    first = second := by
  obtain ⟨value, hlow, hhigh⟩ := first
  obtain rfl := hvalue
  rfl

/-- `gtk_spin_button_set_value`, and what a user types: the value is clamped to the range. -/
def setValue (hrange : low.val ≤ high.val) (value : ℤ) : SpinButton low high where
  value := ⟨max low.val (min high.val value),
    le_trans low.2.1 (le_max_left _ _),
    le_trans (max_le hrange (min_le_left _ _)) high.2.2⟩
  low_le := le_max_left _ _
  le_high := max_le hrange (min_le_left _ _)

/-- A value in the range is shown as it is. -/
theorem setValue_value_eq_iff (hrange : low.val ≤ high.val) (value : CInt) :
    (setValue hrange (value : ℤ)).value = value ↔ low.val ≤ value ∧ value.val ≤ high := by
  rw [Subtype.ext_iff]
  change max low.val (min high.val value) = value ↔ _
  omega

end SpinButton

def minDuration : CInt := ⟨1, by decide⟩
def maxWorkDuration : CInt := ⟨120, by decide⟩
def maxBreakDuration : CInt := ⟨60, by decide⟩

theorem minDuration_le_maxWorkDuration : minDuration.val ≤ maxWorkDuration.val := by decide

theorem minDuration_le_maxBreakDuration : minDuration.val ≤ maxBreakDuration.val := by decide

abbrev WorkSpin := SpinButton minDuration maxWorkDuration
abbrev BreakSpin := SpinButton minDuration maxBreakDuration

/-- The entries of the language combo box. -/
inductive Language where
  | english
  | russian
deriving DecidableEq, Repr

/-- The identifier of an entry. -/
def Language.id : Language → Text
  | .english => text "en_US.UTF-8"
  | .russian => text "ru_RU.UTF-8"

/-- What the label shows: the translation of a message, and a clock of minutes and seconds. -/
structure Label where
  message : String
  clock : Option (ℤ × ℤ)
deriving DecidableEq

/-- A notification, with the sound file to be played, if any. -/
structure Announcement where
  title : String
  message : String
  sound : Option Text
deriving DecidableEq

/-! ### The context -/

structure TimerState where
  isRunning : Bool
  isWorkTime : Bool
  timerId : ℕ
  remainingSeconds : CInt
deriving DecidableEq

/-- The ways the program ends. -/
inductive Exit where
  | windowClosed
  | quit
  | restart
deriving DecidableEq, Repr

/-- The state of the program. `sources` are the identifiers of the timeouts that run `updateTimer`,
`nextSource` is the next identifier the main loop gives out, and `written` is what `saveSettings`
last wrote to `config.ini`, if it ever did. -/
structure AppContext where
  settings : Settings
  timerState : TimerState
  workSpin : WorkSpin
  breakSpin : BreakSpin
  label : Label
  startLabel : String
  revealed : Bool
  announced : List Announcement
  sources : List ℕ
  nextSource : ℕ
  written : Option (List Entry)
  exit : Option Exit

def initTimerState : TimerState where
  isRunning := false
  isWorkTime := true
  timerId := 0
  remainingSeconds := ⟨0, inIntRange_zero⟩

def initWorkSpin (settings : Settings) : WorkSpin :=
  .setValue minDuration_le_maxWorkDuration (settings.workDuration : ℤ)

def initBreakSpin (settings : Settings) : BreakSpin :=
  .setValue minDuration_le_maxBreakDuration (settings.breakDuration : ℤ)

/-- `init_context`. `written` is what an earlier run wrote last. -/
def initContext (settings : Settings) (written : Option (List Entry)) : AppContext where
  settings := settings
  timerState := initTimerState
  workSpin := initWorkSpin settings
  breakSpin := initBreakSpin settings
  label := ⟨"Ready", none⟩
  startLabel := "Start"
  revealed := false
  announced := []
  sources := []
  nextSource := 1
  written := written
  exit := none

/-- `main`, up to the main loop. -/
def start (file : KeyFile) (written : Option (List Entry)) : AppContext :=
  initContext (loadSettings file) written

/-! ### The callbacks -/

/-- `show_notification` and `play_sound_if_enabled`. -/
def announce (context : AppContext) (message : String) : AppContext :=
  let sound := if context.settings.soundEnabled then context.settings.soundPath else none
  { context with announced := context.announced ++ [⟨"Pomodoro", message, sound⟩] }

/-- `update_timer`. -/
def updateTimer (context : AppContext) : Except Overflow AppContext := do
  let timer := context.timerState
  if timer.remainingSeconds.val ≤ 0 then
    let isWorkTime := !timer.isWorkTime
    let newTime :=
      if isWorkTime then context.settings.workDuration else context.settings.breakDuration
    let remaining ← checked (newTime * 60)
    let message := if isWorkTime then "Work time!" else "Break time!"
    return announce { context with
      timerState := { timer with isWorkTime, remainingSeconds := remaining }
      label := ⟨message, none⟩ } message
  else
    let minutes := timer.remainingSeconds.val.tdiv 60
    let seconds := timer.remainingSeconds.val.tmod 60
    let remaining ← checked (timer.remainingSeconds - 1)
    return { context with
      timerState := { timer with remainingSeconds := remaining }
      label := ⟨if timer.isWorkTime then "Work" else "Break", some (minutes, seconds)⟩ }

/-- `toggle_timer`. Since the last timeout of the timer, `others` more sources of other code have
taken identifiers. -/
def toggleTimer (context : AppContext) (others : ℕ) : Except Overflow AppContext := do
  let timer := context.timerState
  if timer.isRunning then
    return { context with
      sources := context.sources.erase timer.timerId
      startLabel := "Start"
      timerState := { timer with isRunning := !timer.isRunning } }
  else
    let minutes := context.settings.workDuration
    let remaining ← checked (minutes * 60)
    let timerId := context.nextSource + others
    return { context with
      sources := context.sources ++ [timerId]
      nextSource := timerId + 1
      startLabel := "Stop"
      timerState := ⟨!timer.isRunning, true, timerId, remaining⟩ }

def toggleSettings (context : AppContext) : AppContext :=
  { context with revealed := !context.revealed }

/-- `save_settings` on the settings of the context. -/
def AppContext.save (context : AppContext) : AppContext :=
  { context with written := some (saveSettings context.settings) }

/-- `on_language_changed`. `newLang` is the active entry, `restart` the answer to the dialog. The
program does not go on after a restart, whether `execvp` succeeds or not. -/
def onLanguageChanged (context : AppContext) (newLang : Option Language) (restart : Bool) :
    AppContext :=
  match newLang with
  | none => context
  | some language =>
    if language.id = context.settings.language then context
    else
      let saved :=
        AppContext.save { context with settings.language := language.id }
      if restart then { saved with exit := some .restart } else saved

def onAutostartChanged (context : AppContext) (active : Bool) : AppContext :=
  { context with settings.autostartEnabled := active }

def onSoundChanged (context : AppContext) (active : Bool) : AppContext :=
  { context with settings.soundEnabled := active }

/-- `on_work_duration_changed`. -/
def onWorkDurationChanged (context : AppContext) : AppContext :=
  { context with settings.workDuration := context.workSpin.value }

/-- `on_break_duration_changed`. -/
def onBreakDurationChanged (context : AppContext) : AppContext :=
  { context with settings.breakDuration := context.breakSpin.value }

/-- The work spin button is set to a value. It emits "value-changed" if it then shows another one.
-/
def setWorkSpin (context : AppContext) (value : ℤ) : AppContext :=
  let workSpin : WorkSpin := .setValue minDuration_le_maxWorkDuration value
  if workSpin.value = context.workSpin.value then context
  else onWorkDurationChanged { context with workSpin }

/-- The break spin button is set to a value. -/
def setBreakSpin (context : AppContext) (value : ℤ) : AppContext :=
  let breakSpin : BreakSpin := .setValue minDuration_le_maxBreakDuration value
  if breakSpin.value = context.breakSpin.value then context
  else onBreakDurationChanged { context with breakSpin }

def onFileSet (context : AppContext) (filename : Option Text) : AppContext :=
  { context with settings.soundPath := filename }

/-- The two handlers of the window's "destroy" signal: `gtk_main_quit` and `on_window_close`. -/
def onWindowClose (context : AppContext) : AppContext :=
  { context.save with exit := some .windowClosed }

/-- The "Quit" item of the tray menu calls `gtk_main_quit`. -/
def trayQuit (context : AppContext) : AppContext :=
  { context with exit := some .quit }

/-! ### The main loop -/

/-- The callbacks of the main loop. -/
inductive Event where
  | tick
  | toggleTimer (others : ℕ)
  | toggleSettings
  | workDuration (value : ℤ)
  | breakDuration (value : ℤ)
  | sound (active : Bool)
  | soundFile (filename : Option Text)
  | autostart (active : Bool)
  | language (newLang : Option Language) (restart : Bool)
  | closeWindow
  | quit
deriving DecidableEq

/-- A second passes: each timeout runs `updateTimer`. -/
def tick (context : AppContext) : Except Overflow AppContext :=
  context.sources.foldlM (fun current _ ↦ updateTimer current) context

/-- The callback of an event. -/
def handle (context : AppContext) : Event → Except Overflow AppContext
  | .tick => tick context
  | .toggleTimer others => toggleTimer context others
  | .toggleSettings => .ok (toggleSettings context)
  | .workDuration value => .ok (setWorkSpin context value)
  | .breakDuration value => .ok (setBreakSpin context value)
  | .sound active => .ok (onSoundChanged context active)
  | .soundFile filename => .ok (onFileSet context filename)
  | .autostart active => .ok (onAutostartChanged context active)
  | .language newLang restart => .ok (onLanguageChanged context newLang restart)
  | .closeWindow => .ok (onWindowClose context)
  | .quit => .ok (trayQuit context)

/-- An event reaches the program as long as it runs. -/
def step (context : AppContext) (event : Event) : Except Overflow AppContext :=
  if context.exit.isSome then .ok context else handle context event

/-- The program after some events. -/
abbrev run : AppContext → List Event → Except Overflow AppContext := Runs.run step

end Homework.Pomodoro
