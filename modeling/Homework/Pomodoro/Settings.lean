import Homework.Library.CInt

/-!
# The settings of the timer and their file

`loadSettings` reads each field with its own default for the case that the getter reports an error;
no value is checked against a range. `saveSettings` writes the six fields to `config.ini`. The
parsing of key files is not part of the program: a loaded file is what its getters answer, and a
saved one is the list of entries set on it.
-/

set_option autoImplicit false
set_option relaxedAutoImplicit false

namespace Homework.Pomodoro

open Homework.Library

/-- The bytes of a string. -/
abbrev Text := List UInt8

/-- The bytes of an ASCII literal. -/
def text (literal : String) : Text := literal.toList.map fun char ↦ UInt8.ofNat char.toNat

structure Settings where
  workDuration : CInt
  breakDuration : CInt
  language : Text
  soundEnabled : Bool
  /-- `none` for `NULL`. -/
  soundPath : Option Text
  autostartEnabled : Bool
deriving DecidableEq

/-! ### Names and defaults -/

def defaultSoundPath : Text := text "/usr/share/sounds/freedesktop/stereo/bell.oga"
def defaultWorkDuration : CInt := ⟨25, by decide⟩
def defaultBreakDuration : CInt := ⟨5, by decide⟩
def defaultAutostart : Bool := false
def defaultSoundEnabled : Bool := true
def defaultLanguage : Text := text "en_US.UTF-8"

def groupName : String := "Settings"

/-- The keys of the group. -/
inductive Key where
  | soundPath
  | workDuration
  | breakDuration
  | autostart
  | soundEnabled
  | language
deriving DecidableEq, Repr

def Key.name : Key → String
  | .soundPath => "sound_path"
  | .workDuration => "work_duration"
  | .breakDuration => "break_duration"
  | .autostart => "autostart"
  | .soundEnabled => "sound_enabled"
  | .language => "language"

/-! ### Loading -/

/-- A key file as its getters see it: the value of a key of a group, or `none` where the getter
reports an error. A file that could not be loaded has an error everywhere. -/
structure KeyFile where
  getInteger : String → String → Option CInt
  getString : String → String → Option Text
  getBoolean : String → String → Option Bool

/-- A key file with no entries. -/
def KeyFile.empty : KeyFile := ⟨fun _ _ ↦ none, fun _ _ ↦ none, fun _ _ ↦ none⟩

/-- A key file with the two durations and nothing else. -/
def KeyFile.ofDurations (work pause : CInt) : KeyFile :=
  { KeyFile.empty with
    getInteger := fun group name ↦
      if group ≠ groupName then none
      else if name = Key.workDuration.name then some work
      else if name = Key.breakDuration.name then some pause
      else none }

/-- The value that a getter finds, or the default: there is no key file, or the getter reports an
error. -/
def loadOrDefault {V : Type} (getter : KeyFile → String → String → Option V)
    (keyFile : Option KeyFile) (group : String) (key : Key) (default : V) : V :=
  match keyFile with
  | none => default
  | some file => (getter file group key.name).getD default

def loadIntOrDefault : Option KeyFile → String → Key → CInt → CInt :=
  loadOrDefault KeyFile.getInteger

def loadStringOrDefault : Option KeyFile → String → Key → Text → Text :=
  loadOrDefault KeyFile.getString

def loadBoolOrDefault : Option KeyFile → String → Key → Bool → Bool :=
  loadOrDefault KeyFile.getBoolean

def loadSettings (file : KeyFile) : Settings where
  workDuration := loadIntOrDefault file groupName .workDuration defaultWorkDuration
  breakDuration := loadIntOrDefault file groupName .breakDuration defaultBreakDuration
  soundEnabled := loadBoolOrDefault file groupName .soundEnabled defaultSoundEnabled
  language := loadStringOrDefault file groupName .language defaultLanguage
  soundPath := loadStringOrDefault file groupName .soundPath defaultSoundPath
  autostartEnabled := loadBoolOrDefault file groupName .autostart defaultAutostart

/-! ### Saving -/

inductive Value where
  | integer (value : CInt)
  | boolean (value : Bool)
  | string (value : Text)
deriving DecidableEq

structure Entry where
  group : String
  key : Key
  value : Value
deriving DecidableEq

/-- The entry that a setter stores. The string setter ignores `NULL`. -/
def stringEntry (key : Key) (value : Option Text) : List Entry :=
  (value.map fun bytes ↦ ⟨groupName, key, .string bytes⟩).toList

/-- The entries that `save_settings` writes to `config.ini`, in the order in which it sets them. -/
def saveSettings (settings : Settings) : List Entry :=
  [⟨groupName, .workDuration, .integer settings.workDuration⟩,
    ⟨groupName, .breakDuration, .integer settings.breakDuration⟩,
    ⟨groupName, .soundEnabled, .boolean settings.soundEnabled⟩] ++
  stringEntry .language settings.language ++ stringEntry .soundPath settings.soundPath ++
  [⟨groupName, .autostart, .boolean settings.autostartEnabled⟩]

/-- Different settings are written differently. -/
theorem saveSettings_injective : Function.Injective saveSettings := by
  intro first second heq
  obtain ⟨work, break_, language, enabled, path, autostart⟩ := first
  obtain ⟨work', break', language', enabled', path', autostart'⟩ := second
  rcases path with _ | path <;> rcases path' with _ | path' <;>
    simp_all [saveSettings, stringEntry]

end Homework.Pomodoro
