import Homework.Pomodoro.Timer

/-!
# What is saved when the program ends

Closing the window and a restart after a change of language save the settings; the "Quit" item of
the tray menu does not. After it, `config.ini` holds the settings of the last save
(`settings_kept_iff`): the changes made since are lost unless they led back to what was saved.

Which settings a run of changes leads to is read off the changes (`settingsAfter`): for a check box
or the sound file, the last value given to it; for a duration the same, except that a spin button
which is only ever set to what it shows emits no signal.
-/

set_option autoImplicit false
set_option relaxedAutoImplicit false

namespace Homework.Pomodoro

open Homework.Library

/-! ### Where changes lead -/

section Last

variable {A V : Type*}

/-- The last value that some changes give, or the one from before. -/
def lastOf (value : A → Option V) (before : V) (changes : List A) : V :=
  (changes.filterMap value).getLast?.getD before

variable {value : A → Option V}

theorem lastOf_cons_of_some {change : A} {given : V} (hsome : value change = some given)
    (before : V) (rest : List A) :
    lastOf value before (change :: rest) = lastOf value given rest := by
  unfold lastOf
  rw [List.filterMap_cons_some hsome, List.getLast?_cons, Option.getD_some]

end Last

/-- The duration after its spin button is set to some values, one after another: the one from
before if the button was only set to what it shows, and the last value, clamped, otherwise. -/
def settled (clamp : ℤ → CInt) (shown before : CInt) (values : List ℤ) : CInt :=
  if ∀ value ∈ values, clamp value = shown then before
  else (values.getLast?.map clamp).getD before

section Settled

variable {clamp : ℤ → CInt} {shown before : CInt} {value : ℤ} {rest : List ℤ}

theorem settled_nil : settled clamp shown before [] = before :=
  if_pos fun _ hmem ↦ absurd hmem List.not_mem_nil

theorem settled_cons_of_shown (hshown : clamp value = shown) :
    settled clamp shown before (value :: rest) = settled clamp shown before rest := by
  unfold settled
  by_cases hall : ∀ value ∈ rest, clamp value = shown
  · have hcons : ∀ other ∈ value :: rest, clamp other = shown := fun other hmem ↦
      (List.mem_cons.mp hmem).elim (fun heq ↦ heq ▸ hshown) (hall other)
    rw [if_pos hcons, if_pos hall]
  · have hne : rest ≠ [] := by
      rintro rfl
      exact hall fun _ hmem ↦ absurd hmem List.not_mem_nil
    rw [if_neg (fun hcons ↦ hall fun other hmem ↦ hcons other (List.mem_cons_of_mem _ hmem)),
      if_neg hall,
      List.getLast?_cons, List.getLast?_eq_some_getLast hne, Option.getD_some]

theorem settled_cons_of_ne (hne : clamp value ≠ shown) :
    settled clamp shown before (value :: rest) =
      settled clamp (clamp value) (clamp value) rest := by
  unfold settled
  rw [if_neg (fun hcons ↦ hne (hcons value List.mem_cons_self)), List.getLast?_cons,
    Option.map_some, Option.getD_some]
  rcases hlast : rest.getLast? with _ | last
  · obtain rfl := List.getLast?_eq_none_iff.mp hlast
    exact settled_nil.symm
  · split
    · next hall => exact hall last (List.mem_of_getLast? hlast)
    · rfl

end Settled

/-- The value an event sets the work spin button to. -/
def Event.workDuration? : Event → Option ℤ
  | .workDuration value => some value
  | _ => none

/-- The value an event sets the break spin button to. -/
def Event.breakDuration? : Event → Option ℤ
  | .breakDuration value => some value
  | _ => none

def Event.sound? : Event → Option Bool
  | .sound active => some active
  | _ => none

def Event.soundFile? : Event → Option (Option Text)
  | .soundFile filename => some filename
  | _ => none

def Event.autostart? : Event → Option Bool
  | .autostart active => some active
  | _ => none

/-- What the work spin button shows when it is set to a value. -/
def clampWork (value : ℤ) : CInt := (SpinButton.setValue minDuration_le_maxWorkDuration value).value

/-- What the break spin button shows when it is set to a value. -/
def clampBreak (value : ℤ) : CInt :=
  (SpinButton.setValue minDuration_le_maxBreakDuration value).value

/-- The settings to which events that save nothing lead. -/
def settingsAfter (context : AppContext) (later : List Event) : Settings where
  workDuration := settled clampWork context.workSpin.value context.settings.workDuration
    (later.filterMap Event.workDuration?)
  breakDuration := settled clampBreak context.breakSpin.value context.settings.breakDuration
    (later.filterMap Event.breakDuration?)
  language := context.settings.language
  soundEnabled := lastOf Event.sound? context.settings.soundEnabled later
  soundPath := lastOf Event.soundFile? context.settings.soundPath later
  autostartEnabled := lastOf Event.autostart? context.settings.autostartEnabled later

/-- The events whose callback saves the settings. -/
def Saves (context : AppContext) : Event → Prop
  | .closeWindow => True
  | .language (some language) _ => language.id ≠ context.settings.language
  | _ => False

/-! ### One event -/

section Step

variable {context next : AppContext} {event : Event}

theorem onLanguageChanged_of_saves {language : Language} {restart : Bool}
    (hsaves : language.id ≠ context.settings.language) :
    onLanguageChanged context (some language) restart =
      { AppContext.save { context with settings.language := language.id } with
        exit := if restart then some .restart else context.exit } := by
  unfold onLanguageChanged
  dsimp only
  rw [if_neg hsaves]
  split
  · rfl
  · rfl

theorem onLanguageChanged_of_not_saves {newLang : Option Language} {restart : Bool}
    (hsaves : ¬Saves context (.language newLang restart)) :
    onLanguageChanged context newLang restart = context := by
  unfold onLanguageChanged
  rcases newLang with _ | language
  · rfl
  · exact if_pos (not_not.mp hsaves)

/-- A saving event writes the settings it leaves. -/
theorem written_of_saves (hgoing : context.exit = none) (hsaves : Saves context event)
    (hstep : step context event = .ok next) :
    next.written = some (saveSettings next.settings) := by
  unfold step at hstep
  rw [hgoing] at hstep
  unfold Saves at hsaves
  split at hsaves
  · obtain rfl := Except.ok.inj hstep
    rfl
  · obtain rfl := Except.ok.inj hstep
    rw [onLanguageChanged_of_saves hsaves]
    rfl
  · exact absurd hsaves id

theorem settingsAfter_congr (hsettings : next.settings = context.settings)
    (hwork : next.workSpin = context.workSpin) (hbreak : next.breakSpin = context.breakSpin)
    (later : List Event) : settingsAfter next later = settingsAfter context later := by
  unfold settingsAfter
  rw [hsettings, hwork, hbreak]

theorem setWorkSpin_frame (context : AppContext) (value : ℤ) :
    ∃ workSpin work, setWorkSpin context value =
      { context with workSpin, settings.workDuration := work } := by
  unfold setWorkSpin
  dsimp only
  split
  · exact ⟨_, _, rfl⟩
  · exact ⟨_, _, rfl⟩

theorem setBreakSpin_frame (context : AppContext) (value : ℤ) :
    ∃ breakSpin pause, setBreakSpin context value =
      { context with breakSpin, settings.breakDuration := pause } := by
  unfold setBreakSpin
  dsimp only
  split
  · exact ⟨_, _, rfl⟩
  · exact ⟨_, _, rfl⟩

theorem settingsAfter_workDuration (context : AppContext) (value : ℤ) (later : List Event) :
    settingsAfter context (.workDuration value :: later) =
      settingsAfter (setWorkSpin context value) later := by
  by_cases hshown : clampWork value = context.workSpin.value
  · have hkept : setWorkSpin context value = context := if_pos hshown
    rw [hkept]
    unfold settingsAfter
    rw [List.filterMap_cons_some (show Event.workDuration? _ = some value from rfl),
      settled_cons_of_shown hshown]
    rfl
  · have hset : setWorkSpin context value = onWorkDurationChanged { context with
        workSpin := .setValue minDuration_le_maxWorkDuration value } := if_neg hshown
    rw [hset]
    unfold settingsAfter
    rw [List.filterMap_cons_some (show Event.workDuration? _ = some value from rfl),
      settled_cons_of_ne hshown]
    rfl

theorem settingsAfter_breakDuration (context : AppContext) (value : ℤ) (later : List Event) :
    settingsAfter context (.breakDuration value :: later) =
      settingsAfter (setBreakSpin context value) later := by
  by_cases hshown : clampBreak value = context.breakSpin.value
  · have hkept : setBreakSpin context value = context := if_pos hshown
    rw [hkept]
    unfold settingsAfter
    rw [List.filterMap_cons_some (show Event.breakDuration? _ = some value from rfl),
      settled_cons_of_shown hshown]
    rfl
  · have hset : setBreakSpin context value = onBreakDurationChanged { context with
        breakSpin := .setValue minDuration_le_maxBreakDuration value } := if_neg hshown
    rw [hset]
    unfold settingsAfter
    rw [List.filterMap_cons_some (show Event.breakDuration? _ = some value from rfl),
      settled_cons_of_ne hshown]
    rfl

/-- Any other event writes nothing. It changes the settings as `settingsAfter` says, and ends the
program only if it is "Quit". -/
theorem not_saves_step (hone : OneSource context) (hgoing : context.exit = none)
    (hsaves : ¬Saves context event) (hstep : step context event = .ok next) :
    next.written = context.written ∧ (next.exit = none ∨ event = .quit) ∧
      ∀ later, settingsAfter context (event :: later) = settingsAfter next later := by
  by_cases htimer : event.IsTimer
  · have hsame := step_sameSettings hone htimer hstep
    refine ⟨hsame.written, Or.inl (hsame.exit.trans hgoing), fun later ↦ ?_⟩
    rw [settingsAfter_congr hsame.settings hsame.workSpin hsame.breakSpin]
    rcases event with _ | others | _ | _ | _ | _ | _ | _ | _ | _ | _
    · rfl
    · rfl
    all_goals exact absurd htimer id
  unfold step at hstep
  rw [hgoing] at hstep
  rcases event with _ | _ | _ | value | value | active | filename | active |
    ⟨newLang, restart⟩ | _ | _
  · exact absurd trivial htimer
  · exact absurd trivial htimer
  all_goals obtain rfl := Except.ok.inj hstep
  · exact ⟨rfl, Or.inl hgoing, fun later ↦ rfl⟩
  · have hafter := settingsAfter_workDuration context value
    obtain ⟨_, _, heq⟩ := setWorkSpin_frame context value
    rw [heq] at hafter ⊢
    exact ⟨rfl, Or.inl hgoing, hafter⟩
  · have hafter := settingsAfter_breakDuration context value
    obtain ⟨_, _, heq⟩ := setBreakSpin_frame context value
    rw [heq] at hafter ⊢
    exact ⟨rfl, Or.inl hgoing, hafter⟩
  · refine ⟨rfl, Or.inl hgoing, fun later ↦ ?_⟩
    unfold settingsAfter
    rw [lastOf_cons_of_some (show Event.sound? _ = some active from rfl)]
    rfl
  · refine ⟨rfl, Or.inl hgoing, fun later ↦ ?_⟩
    unfold settingsAfter
    rw [lastOf_cons_of_some (show Event.soundFile? _ = some filename from rfl)]
    rfl
  · refine ⟨rfl, Or.inl hgoing, fun later ↦ ?_⟩
    unfold settingsAfter
    rw [lastOf_cons_of_some (show Event.autostart? _ = some active from rfl)]
    rfl
  · rw [onLanguageChanged_of_not_saves hsaves]
    exact ⟨rfl, Or.inl hgoing, fun later ↦ rfl⟩
  · exact absurd trivial hsaves
  · exact ⟨rfl, Or.inr rfl, fun later ↦ rfl⟩

end Step

/-! ### Runs -/

section Run

variable {context last : AppContext}

/-- None of the callbacks of some events saves. -/
abbrev Unsaved : AppContext → List Event → Prop :=
  Runs.Along step fun context event ↦ ¬Saves context event

theorem settingsAfter_nil (context : AppContext) : settingsAfter context [] = context.settings := by
  unfold settingsAfter
  rw [List.filterMap_nil, List.filterMap_nil, settled_nil, settled_nil]
  rfl

/-- A program that goes on after some events went on before them. -/
theorem going_of_run {events : List Event} (hrun : run context events = .ok last)
    (hgoing : last.exit = none) : context.exit = none := by
  by_contra hended
  have hkeep : ∀ state event next, state.exit ≠ none → step state event = .ok next →
      next.exit ≠ none := by
    intro state event next hstate hstep
    unfold step at hstep
    rw [if_pos (Option.isSome_iff_ne_none.mpr hstate)] at hstep
    exact Except.ok.inj hstep ▸ hstate
  exact Runs.always hkeep hended hrun hgoing

/-- A run that saves nothing leads to the settings that `settingsAfter` reads off its events. -/
theorem unsaved_run {later : List Event} (hone : OneSource context)
    (hunsaved : Unsaved context later) (hrun : run context later = .ok last)
    (hgoing : last.exit = none) :
    last.written = context.written ∧ last.settings = settingsAfter context later := by
  induction later generalizing context with
  | nil =>
    obtain rfl := Except.ok.inj hrun
    exact ⟨rfl, (settingsAfter_nil context).symm⟩
  | cons event rest ih =>
    obtain ⟨next, hstep, hrest⟩ := Runs.of_run_cons_eq_ok hrun
    have hstart := going_of_run hrun hgoing
    obtain ⟨hwritten, -, hafter⟩ := not_saves_step hone hstart hunsaved.1 hstep
    obtain ⟨hlast, hsettings⟩ := ih (hone.step hstep) (hunsaved.2 next hstep) hrest
    exact ⟨hlast.trans hwritten, hsettings.trans (hafter rest).symm⟩

end Run

/-! ### The end -/

/-- Some events end with a save, after which the settings are `target`; or there are none, and
`target` is what an earlier run saved last. -/
def EndsWithSave (file : KeyFile) (earlier : Option Settings) (kept : List Event)
    (middle : AppContext) (target : Settings) : Prop :=
  (kept = [] ∧ earlier = some target) ∨
    ∃ before event state, kept = before ++ [event] ∧
      run (start file (earlier.map saveSettings)) before = .ok state ∧ Saves state event ∧
      middle.settings = target

/-- The changes made since the last save, if any, lead back to what was saved. -/
def LeadsBack (file : KeyFile) (earlier : Option Settings) (events : List Event) : Prop :=
  ∃ kept later middle target, events = kept ++ later ∧
    run (start file (earlier.map saveSettings)) kept = .ok middle ∧
    EndsWithSave file earlier kept middle target ∧ Unsaved middle later ∧
    settingsAfter middle later = target

section End

variable {file : KeyFile} {earlier : Option Settings} {events : List Event}
  {context middle last : AppContext}

/-- What has been written when some events end with a save. -/
theorem EndsWithSave.written {kept : List Event} {target : Settings}
    (hkept : run (start file (earlier.map saveSettings)) kept = .ok middle)
    (hgoing : middle.exit = none) (hends : EndsWithSave file earlier kept middle target) :
    middle.written = some (saveSettings target) := by
  rcases hends with ⟨rfl, rfl⟩ | ⟨before, event, state, rfl, hbefore, hsaves, rfl⟩
  · obtain rfl := Except.ok.inj hkept
    rfl
  · obtain ⟨state', hstate', hstep⟩ := Runs.of_run_append_eq_ok hkept
    obtain rfl := Except.ok.inj (hbefore.symm.trans hstate')
    have hstate := going_of_run hstep hgoing
    obtain ⟨next, hnext, hend⟩ := Runs.of_run_cons_eq_ok hstep
    obtain rfl := Except.ok.inj hend
    exact written_of_saves hstate hsaves hnext

/-- Quitting from the tray menu. -/
theorem quit_kept_iff (hrun : run (start file (earlier.map saveSettings)) events = .ok context)
    (hgoing : context.exit = none) :
    context.written = some (saveSettings context.settings) ↔ LeadsBack file earlier events := by
  constructor
  · intro hwritten
    rcases Runs.exists_last_along Saves hrun with
      ⟨kept, later, middle, rfl, hmiddle, hunsaved, hlast⟩
    obtain ⟨middle', hmiddle', hlater⟩ := Runs.of_run_append_eq_ok hrun
    obtain rfl := Except.ok.inj (hmiddle.symm.trans hmiddle')
    have hone := OneSource.of_run hmiddle
    obtain ⟨hkept, hsettings⟩ := unsaved_run hone hunsaved hlater hgoing
    refine ⟨kept, later, middle, context.settings, rfl, hmiddle, ?_, hunsaved, hsettings.symm⟩
    rcases hlast with rfl | ⟨before, event, state, rfl, hbefore, hsaves⟩
    · obtain rfl := Except.ok.inj hmiddle
      rw [hwritten] at hkept
      obtain ⟨target, hearlier, htarget⟩ := Option.map_eq_some_iff.mp hkept.symm
      exact Or.inl ⟨rfl, saveSettings_injective htarget ▸ hearlier⟩
    · have hends : EndsWithSave file earlier (before ++ [event]) middle middle.settings :=
        Or.inr ⟨before, event, state, rfl, hbefore, hsaves, rfl⟩
      have hsaved := hends.written hmiddle (going_of_run hlater hgoing)
      rw [← hkept, hwritten] at hsaved
      exact Or.inr ⟨before, event, state, rfl, hbefore, hsaves,
        (saveSettings_injective (Option.some.inj hsaved)).symm⟩
  · rintro ⟨kept, later, middle, target, rfl, hmiddle, hends, hunsaved, htarget⟩
    obtain ⟨middle', hmiddle', hlater⟩ := Runs.of_run_append_eq_ok hrun
    obtain rfl := Except.ok.inj (hmiddle.symm.trans hmiddle')
    have hone := OneSource.of_run hmiddle
    obtain ⟨hkept, hsettings⟩ := unsaved_run hone hunsaved hlater hgoing
    rw [hkept, hsettings, htarget]
    exact hends.written hmiddle (going_of_run hlater hgoing)

/-- The settings that `saveSettings` last wrote when the program ends are those in memory exactly
when the program does not end through the tray menu, or the changes since the last save lead back to
what was saved. Assumes: the last event ends the program. -/
theorem settings_kept_iff {ending : Event}
    (hrun : run (start file (earlier.map saveSettings)) events = .ok context)
    (hgoing : context.exit = none) (hend : step context ending = .ok last)
    (hexit : last.exit ≠ none) :
    last.written = some (saveSettings last.settings) ↔
      ending ≠ .quit ∨ LeadsBack file earlier events := by
  by_cases hquit : ending = .quit
  · subst hquit
    have hlast : step context .quit = .ok (trayQuit context) := by
      unfold step
      rw [hgoing]
      rfl
    obtain rfl := Except.ok.inj (hlast.symm.trans hend)
    rw [or_iff_right (not_not.mpr rfl)]
    have hkept := quit_kept_iff hrun hgoing
    exact hkept
  · refine iff_of_true ?_ (Or.inl hquit)
    by_cases hsaves : Saves context ending
    · exact written_of_saves hgoing hsaves hend
    · rcases not_saves_step (OneSource.of_run hrun) hgoing hsaves hend with ⟨-, hon | hon, -⟩
      · exact absurd hon hexit
      · exact absurd hon hquit

/-- A longer work duration, and then "Quit". -/
def longerWork : AppContext :=
  setWorkSpin (start .empty (some (saveSettings (loadSettings .empty)))) 30

theorem settings_kept_longerWork :
    (trayQuit longerWork).written = some (saveSettings (trayQuit longerWork).settings) ↔
      Event.quit ≠ .quit ∨
        LeadsBack .empty (some (loadSettings .empty)) [.workDuration 30] :=
  settings_kept_iff
    (show run (start .empty ((some (loadSettings .empty)).map saveSettings)) [.workDuration 30] =
      .ok longerWork from rfl)
    rfl rfl (Option.some_ne_none _)

/-- "Quit" loses the longer work duration. -/
theorem settings_lost_longerWork :
    ¬∀ (file : KeyFile) (earlier : Option Settings) (events : List Event) (ending : Event)
      (context last : AppContext),
      run (start file (earlier.map saveSettings)) events = .ok context → context.exit = none →
      step context ending = .ok last → last.exit ≠ none →
      last.written = some (saveSettings last.settings) := by
  intro hall
  have hkept := hall .empty (some (loadSettings .empty)) [.workDuration 30] .quit longerWork
    (trayQuit longerWork) rfl rfl rfl (Option.some_ne_none _)
  have hsettings := saveSettings_injective (Option.some.inj hkept)
  exact absurd (congrArg Settings.workDuration hsettings) (by decide)

end End

end Homework.Pomodoro
