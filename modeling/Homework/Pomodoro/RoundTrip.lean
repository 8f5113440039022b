import Homework.Pomodoro.Saving

/-!
# The settings, saved and loaded again

Between `save_settings` and the next `load_settings` the entries go through a key file and a file on
disk, which are not part of the program: `reload` is what the getters answer afterwards, and
`RoundTrips` is what is assumed of it. Under these assumptions five of the six fields are always
restored. The sound file is restored only if it is a name in UTF-8: for every other name, and for
`NULL`, the default is loaded (`loadSettings_reload`). The program restores all six fields in every
state of a run exactly if each file chosen in it has such a name (`run_restored_iff`).
-/

set_option autoImplicit false
set_option relaxedAutoImplicit false

namespace Homework.Pomodoro

open Homework.Library

/-! ### Strings in a key file -/

/-- `g_utf8_validate` on a whole string: it is UTF-8 and has no NUL inside. -/
def Utf8 (value : Text) : Prop := 0 ∉ value ∧ value.toByteArray.IsValidUTF8

instance (value : Text) : Decidable (Utf8 value) := inferInstanceAs (Decidable (_ ∧ _))

/-- A string of ASCII characters is UTF-8. -/
theorem utf8_text (literal : String)
    (hascii : (literal.toList.all fun char ↦ 0 < char.toNat && char.val ≤ 0x7f) = true) :
    Utf8 (text literal) := by
  have hchars (char : Char) (hchar : char ∈ literal.toList) :
      0 < char.toNat ∧ char.val ≤ 0x7f := by
    have hand := Bool.and_eq_true_iff.mp (List.all_eq_true.mp hascii char hchar)
    exact ⟨of_decide_eq_true hand.1, of_decide_eq_true hand.2⟩
  have hencode : literal.toList.flatMap String.utf8EncodeChar = text literal := by
    rw [text, List.map_eq_flatMap]
    refine List.flatMap_congr fun char hchar ↦ ?_
    rw [String.utf8EncodeChar_eq_singleton (if_pos (hchars char hchar).2)]
    rfl
  refine ⟨fun hzero ↦ ?_, literal.toList, congrArg List.toByteArray hencode.symm⟩
  obtain ⟨char, hchar, heq⟩ := List.mem_map.mp hzero
  obtain ⟨hpos, hle⟩ := hchars char hchar
  have hmod : char.toNat % 256 = 0 := congrArg UInt8.toNat heq
  have hlt : char.toNat ≤ 127 := hle
  omega

theorem utf8_defaultSoundPath : Utf8 defaultSoundPath := utf8_text _ rfl

theorem utf8_defaultLanguage : Utf8 defaultLanguage := utf8_text _ rfl

theorem utf8_id (language : Language) : Utf8 language.id := by
  cases language with
  | english => exact utf8_text _ rfl
  | russian => exact utf8_text _ rfl

/-! ### What is assumed of key files -/

/-- The value that was last stored under a name. -/
def stored (entries : List Entry) (group name : String) : Option Value :=
  (entries.reverse.find? fun entry ↦ entry.group = group ∧ entry.key.name = name).map Entry.value

/-- What the getters answer after some entries were written to a file and read again: a value comes
back as it was stored, but for a string that is not UTF-8, and a string that was not stored is not
found. -/
structure RoundTrips (reload : List Entry → KeyFile) : Prop where
  integer : ∀ {entries group name value}, stored entries group name = some (.integer value) →
    (reload entries).getInteger group name = some value
  boolean : ∀ {entries group name value}, stored entries group name = some (.boolean value) →
    (reload entries).getBoolean group name = some value
  string : ∀ {entries group name value}, stored entries group name = some (.string value) →
    Utf8 value → (reload entries).getString group name = some value
  notUtf8 : ∀ {entries group name value}, stored entries group name = some (.string value) →
    ¬Utf8 value → (reload entries).getString group name = none
  absent : ∀ {entries group name}, stored entries group name = none →
    (reload entries).getString group name = none

/-- The strings that a key file gives are UTF-8. -/
def KeyFile.GivesUtf8 (file : KeyFile) : Prop :=
  ∀ group name value, file.getString group name = some value → Utf8 value

/-! ### One save and one load -/

/-- The value that `save_settings` stores under a key. -/
def Settings.value (settings : Settings) : Key → Option Value
  | .soundPath => settings.soundPath.map .string
  | .workDuration => some (.integer settings.workDuration)
  | .breakDuration => some (.integer settings.breakDuration)
  | .autostart => some (.boolean settings.autostartEnabled)
  | .soundEnabled => some (.boolean settings.soundEnabled)
  | .language => some (.string settings.language)

theorem Key.name_injective : Function.Injective Key.name := by
  intro first second heq
  cases first <;> cases second <;> first | rfl | exact absurd heq (by decide)

/-- `save_settings` stores each field under its own key. -/
theorem stored_saveSettings (settings : Settings) (key : Key) :
    stored (saveSettings settings) groupName key.name = settings.value key := by
  obtain ⟨work, break_, language, enabled, path, autostart⟩ := settings
  simp only [stored, saveSettings, Key.name_injective.eq_iff]
  rcases path with _ | path
  · cases key <;> rfl
  · cases key <;> rfl

/-- The sound file that is loaded after a name was saved. -/
def reloadedPath : Option Text → Text
  | none => defaultSoundPath
  | some name => if Utf8 name then name else defaultSoundPath

theorem reloadedPath_eq_iff (path : Option Text) :
    some (reloadedPath path) = path ↔ ∃ name, path = some name ∧ Utf8 name := by
  constructor
  · intro heq
    refine ⟨reloadedPath path, heq.symm, ?_⟩
    rcases path with _ | name
    · exact utf8_defaultSoundPath
    · rw [reloadedPath]
      split
      · next hname => exact hname
      · exact utf8_defaultSoundPath
  · rintro ⟨name, rfl, hname⟩
    rw [reloadedPath, if_pos hname]

section Reload

variable {reload : List Entry → KeyFile} {settings : Settings}

/-- Loading what was saved restores every field but the sound file. -/
theorem loadSettings_reload (hreload : RoundTrips reload) (hlanguage : Utf8 settings.language) :
    loadSettings (reload (saveSettings settings)) =
      { settings with soundPath := some (reloadedPath settings.soundPath) } := by
  have hstored := stored_saveSettings settings
  have hwork := hreload.integer (hstored .workDuration)
  have hbreak := hreload.integer (hstored .breakDuration)
  have hautostart := hreload.boolean (hstored .autostart)
  have hsound := hreload.boolean (hstored .soundEnabled)
  have hlang := hreload.string (hstored .language) hlanguage
  have hpath : ((reload (saveSettings settings)).getString groupName Key.soundPath.name).getD
      defaultSoundPath = reloadedPath settings.soundPath := by
    have hentry := hstored .soundPath
    rw [Settings.value] at hentry
    rcases hname : settings.soundPath with _ | name
    · rw [hname] at hentry
      rw [hreload.absent hentry]
      rfl
    · rw [hname] at hentry
      rw [reloadedPath]
      split
      · next hutf8 => rw [hreload.string hentry hutf8, Option.getD_some]
      · next hutf8 => rw [hreload.notUtf8 hentry hutf8, Option.getD_none]
  simp only [loadSettings, loadIntOrDefault, loadStringOrDefault, loadBoolOrDefault, loadOrDefault,
    hwork, hbreak, hautostart, hsound, hlang, hpath, Option.getD_some]

theorem restored_iff (hreload : RoundTrips reload) (hlanguage : Utf8 settings.language) :
    loadSettings (reload (saveSettings settings)) = settings ↔
      ∃ name, settings.soundPath = some name ∧ Utf8 name := by
  rw [loadSettings_reload hreload hlanguage, ← reloadedPath_eq_iff]
  constructor
  · exact congrArg Settings.soundPath
  · intro hpath
    rw [hpath]

end Reload

/-! ### Runs -/

section Run

variable {context next : AppContext} {event : Event} {file : KeyFile}

/-- The handler of the language leaves the sound file as it is. -/
theorem onLanguageChanged_strings (context : AppContext) (newLang : Option Language)
    (restart : Bool) :
    (onLanguageChanged context newLang restart).settings.soundPath = context.settings.soundPath ∧
      ((onLanguageChanged context newLang restart).settings.language = context.settings.language ∨
        ∃ language : Language,
          (onLanguageChanged context newLang restart).settings.language = language.id) := by
  rcases newLang with _ | language
  · exact ⟨rfl, Or.inl rfl⟩
  · rw [onLanguageChanged]
    split
    · exact ⟨rfl, Or.inl rfl⟩
    · split
      · exact ⟨rfl, Or.inr ⟨language, rfl⟩⟩
      · exact ⟨rfl, Or.inr ⟨language, rfl⟩⟩

/-- What a callback does to the two strings of the settings. -/
theorem step_strings (hone : OneSource context) (hgoing : context.exit = none)
    (hstep : step context event = .ok next) :
    next.settings.soundPath = event.soundFile?.getD context.settings.soundPath ∧
      (next.settings.language = context.settings.language ∨
        ∃ language : Language, next.settings.language = language.id) := by
  by_cases htimer : event.IsTimer
  · have hsame := step_sameSettings hone htimer hstep
    rw [hsame.settings]
    rcases event with _ | others | _ | _ | _ | _ | _ | _ | _ | _ | _
    · exact ⟨rfl, Or.inl rfl⟩
    · exact ⟨rfl, Or.inl rfl⟩
    all_goals exact absurd htimer id
  rw [step, hgoing] at hstep
  rcases event with _ | _ | _ | value | value | active | filename | active |
    ⟨newLang, restart⟩ | _ | _
  · exact absurd trivial htimer
  · exact absurd trivial htimer
  all_goals obtain rfl := Except.ok.inj hstep
  · exact ⟨rfl, Or.inl rfl⟩
  · obtain ⟨_, _, heq⟩ := setWorkSpin_frame context value
    rw [heq]
    exact ⟨rfl, Or.inl rfl⟩
  · obtain ⟨_, _, heq⟩ := setBreakSpin_frame context value
    rw [heq]
    exact ⟨rfl, Or.inl rfl⟩
  · exact ⟨rfl, Or.inl rfl⟩
  · exact ⟨rfl, Or.inl rfl⟩
  · exact ⟨rfl, Or.inl rfl⟩
  · exact onLanguageChanged_strings context newLang restart
  · exact ⟨rfl, Or.inl rfl⟩
  · exact ⟨rfl, Or.inl rfl⟩

/-- The language of the settings is UTF-8. -/
structure LanguageUtf8 (context : AppContext) : Prop where
  one : OneSource context
  language : Utf8 context.settings.language

theorem LanguageUtf8.step (hlanguage : LanguageUtf8 context)
    (hstep : step context event = .ok next) : LanguageUtf8 next := by
  refine ⟨hlanguage.one.step hstep, ?_⟩
  rcases hexit : context.exit with _ | exit
  · obtain ⟨-, hsame | ⟨language, hset⟩⟩ := step_strings hlanguage.one hexit hstep
    · exact hsame ▸ hlanguage.language
    · exact hset ▸ utf8_id language
  · rw [Pomodoro.step, hexit] at hstep
    exact Except.ok.inj hstep ▸ hlanguage.language

/-- A string from a key file is UTF-8 if the default is. -/
theorem utf8_loadString (hfile : file.GivesUtf8) {default : Text} (hdefault : Utf8 default)
    (key : Key) : Utf8 (loadStringOrDefault file groupName key default) := by
  change Utf8 ((file.getString groupName key.name).getD default)
  rcases hvalue : file.getString groupName key.name with _ | value
  · exact hdefault
  · exact hfile groupName key.name value hvalue

/-- The program restores its settings: what it loads after a save is what it has saved. -/
def Restores (reload : List Entry → KeyFile) (context : AppContext) : Prop :=
  loadSettings (reload (saveSettings context.settings)) = context.settings

/-- The program restores its settings in every state of a run. -/
def RestoresThroughout (reload : List Entry → KeyFile) (file : KeyFile)
    (written : Option (List Entry)) (events : List Event) : Prop :=
  ∀ before context, before <+: events → run (start file written) before = .ok context →
    Restores reload context

/-- If a sound file is chosen, it has a name in UTF-8. -/
def ChoosesUtf8 (context : AppContext) (event : Event) : Prop :=
  context.exit = none → ∀ filename, event = .soundFile filename →
    ∃ name, filename = some name ∧ Utf8 name

theorem step_restores_iff {reload : List Entry → KeyFile} (hreload : RoundTrips reload)
    (hlanguage : LanguageUtf8 context) (hrestores : Restores reload context) :
    (∀ next, step context event = .ok next → Restores reload next) ↔
      ChoosesUtf8 context event := by
  constructor
  · rintro hall hgoing filename rfl
    have hstep : step context (.soundFile filename) = .ok (onFileSet context filename) := by
      rw [step, hgoing]
      rfl
    exact (restored_iff hreload (hlanguage.step hstep).language).mp (hall _ hstep)
  · intro hchooses next hstep
    refine (restored_iff hreload (hlanguage.step hstep).language).mpr ?_
    have hpath := (restored_iff hreload hlanguage.language).mp hrestores
    rcases hexit : context.exit with _ | exit
    · rw [(step_strings hlanguage.one hexit hstep).1]
      cases event with
      | soundFile filename => exact hchooses hexit filename rfl
      | _ => exact hpath
    · rw [step, hexit] at hstep
      exact Except.ok.inj hstep ▸ hpath

/-- The program restores its settings in every state of a run exactly if each sound file chosen in
it has a name in UTF-8. -/
theorem run_restored_iff {reload : List Entry → KeyFile} (hreload : RoundTrips reload)
    (hfile : file.GivesUtf8) (written : Option (List Entry)) (events : List Event) :
    RestoresThroughout reload file written events ↔
      Runs.Along step ChoosesUtf8 (start file written) events := by
  have hlanguage : LanguageUtf8 (start file written) :=
    ⟨rfl, utf8_loadString hfile utf8_defaultLanguage .language⟩
  have hrestores : Restores reload (start file written) :=
    (restored_iff hreload hlanguage.language).mpr
      ⟨_, rfl, utf8_loadString hfile utf8_defaultSoundPath .soundPath⟩
  have hkeep (state : AppContext) (event : Event) (next : AppContext) (hinv : LanguageUtf8 state)
      (hstep : step state event = .ok next) : LanguageUtf8 next := hinv.step hstep
  exact Runs.everywhere_iff hkeep (fun _ _ hinv hgood ↦ step_restores_iff hreload hinv hgood)
    hlanguage hrestores events

end Run

/-! ### A key file that meets the assumptions -/

/-- A key file with some entries, as its getters see it. -/
def KeyFile.ofEntries (entries : List Entry) : KeyFile where
  getInteger := fun group name ↦
    match stored entries group name with
    | some (.integer value) => some value
    | _ => none
  getBoolean := fun group name ↦
    match stored entries group name with
    | some (.boolean value) => some value
    | _ => none
  getString := fun group name ↦
    match stored entries group name with
    | some (.string value) => if Utf8 value then some value else none
    | _ => none

theorem roundTrips_ofEntries : RoundTrips KeyFile.ofEntries where
  integer := fun hstored ↦ by simp only [KeyFile.ofEntries, hstored]
  boolean := fun hstored ↦ by simp only [KeyFile.ofEntries, hstored]
  string := fun hstored hutf8 ↦ by simp only [KeyFile.ofEntries, hstored, if_pos hutf8]
  notUtf8 := fun hstored hutf8 ↦ by simp only [KeyFile.ofEntries, hstored, if_neg hutf8]
  absent := fun hstored ↦ by simp only [KeyFile.ofEntries, hstored]

theorem givesUtf8_empty : KeyFile.empty.GivesUtf8 := nofun

/-- A run in which a sound file is chosen. -/
theorem run_restored_chosen :
    RestoresThroughout .ofEntries .empty none
      [.soundFile (some (text "/home/bell.oga")), .closeWindow] := by
  refine (run_restored_iff roundTrips_ofEntries givesUtf8_empty none _).mpr ?_
  refine ⟨?_, fun _ _ ↦ ⟨fun _ ↦ nofun, fun _ _ ↦ trivial⟩⟩
  rintro - filename heq
  exact ⟨_, (Event.soundFile.inj heq).symm, utf8_text _ rfl⟩

/-- When no file is chosen, the default is loaded. -/
theorem noFile_not_restored :
    ¬∀ (reload : List Entry → KeyFile) (file : KeyFile) (written : Option (List Entry))
      (events : List Event) (context : AppContext), RoundTrips reload → file.GivesUtf8 →
      run (start file written) events = .ok context →
      loadSettings (reload (saveSettings context.settings)) = context.settings := by
  intro hall
  have hrestored := hall .ofEntries .empty none [.soundFile none] _ roundTrips_ofEntries
    givesUtf8_empty rfl
  obtain ⟨name, hname, -⟩ := (restored_iff roundTrips_ofEntries utf8_defaultLanguage).mp hrestored
  exact absurd hname nofun

end Homework.Pomodoro
