import Homework.Library.Decimal
import Homework.Library.Lines
import Homework.MouseDriver.Queue

/-!
# Whole records

The text of an event is one or two records, each a line. `simulate_mouse_data` writes it byte by
byte and stops in the middle of it when the buffer is full. What follows is the next record, so a
record that was cut stays cut: lines can be taken apart in only one way. The stream of the device,
what was read followed by what is queued, is therefore made of whole records in every state of a run
exactly when every tick finds room that ends between two records (`stream_whole_iff`).

An event that does not fit is also to be dropped entirely. An event of two records is one text, of
which the first record alone may fit, so the events are recorded whole exactly when every tick finds
room for all of its text, or none (`records_whole_iff`).
-/

set_option autoImplicit false
set_option relaxedAutoImplicit false

namespace Homework.MouseDriver

open Homework.Library Homework.Library.CString Homework.Library.Decimal Homework.Library.Lines

/-! ### Records -/

/-- A record: `MOUSE_X:` or `MOUSE_Y:`, a number, and a newline. -/
def IsRecord (text : List UInt8) : Prop :=
  ∃ value : ℤ, text = mouseX ++ intText value ++ [10] ∨ text = mouseY ++ intText value ++ [10]

/-- The bytes are whole records, one after another. -/
def Whole (bytes : List UInt8) : Prop :=
  ∃ records : List (List UInt8), (∀ text ∈ records, IsRecord text) ∧ bytes = records.flatten

/-- The records of an event. -/
def eventRecords (displayMode xValue yValue : ℤ) : List (List UInt8) :=
  match displayMode with
  | 0 => [mouseX ++ intText xValue ++ [10]]
  | 1 => [mouseY ++ intText yValue ++ [10]]
  | _ => [mouseX ++ intText xValue ++ [10], mouseY ++ intText yValue ++ [10]]

/-- The text of an event is made of its records. -/
theorem eventStr_eq_flatten (displayMode xValue yValue : ℤ) :
    eventStr displayMode xValue yValue = (eventRecords displayMode xValue yValue).flatten := by
  unfold eventStr eventRecords
  split <;> simp

theorem isRecord_eventRecords {displayMode xValue yValue : ℤ} {text : List UInt8}
    (htext : text ∈ eventRecords displayMode xValue yValue) : IsRecord text := by
  unfold eventRecords at htext
  split at htext
  · exact ⟨xValue, Or.inl (List.mem_singleton.mp htext)⟩
  · exact ⟨yValue, Or.inr (List.mem_singleton.mp htext)⟩
  · rcases List.mem_cons.mp htext with hfirst | hsecond
    · exact ⟨xValue, Or.inl hfirst⟩
    · exact ⟨yValue, Or.inr (List.mem_singleton.mp hsecond)⟩

theorem intText_eq (value : ℤ) : intText value = intBytes value := by
  unfold intText intBytes
  split_ifs
  · rfl
  · rfl

/-- A number is printed without a newline. -/
theorem newline_notMem_intText (value : ℤ) : (10 : UInt8) ∉ intText value := by
  rw [intText_eq]
  exact notMem_intBytes (by decide) (by decide) value

/-- A record is a line. -/
theorem IsRecord.isLine {text : List UInt8} (htext : IsRecord text) : IsLine 10 text := by
  obtain ⟨value, rfl | rfl⟩ := htext
  · refine isLine_append fun hmem ↦ ?_
    exact (List.mem_append.mp hmem).elim (by decide) (newline_notMem_intText value)
  · refine isLine_append fun hmem ↦ ?_
    exact (List.mem_append.mp hmem).elim (by decide) (newline_notMem_intText value)

theorem Whole.append {first second : List UInt8} (hfirst : Whole first) (hsecond : Whole second) :
    Whole (first ++ second) := by
  obtain ⟨records, hrecords, rfl⟩ := hfirst
  obtain ⟨records', hrecords', rfl⟩ := hsecond
  refine ⟨records ++ records', fun text htext ↦ ?_, List.flatten_append.symm⟩
  exact (List.mem_append.mp htext).elim (hrecords text) (hrecords' text)

/-- What follows whole records, if the bytes together are whole records. -/
theorem Whole.of_append {first second : List UInt8} (hfirst : Whole first)
    (hboth : Whole (first ++ second)) : Whole second := by
  obtain ⟨records, hrecords, rfl⟩ := hfirst
  obtain ⟨all, hall, heq⟩ := hboth
  obtain ⟨more, rfl, rfl⟩ := exists_append_of_flatten
    (fun text htext ↦ (hrecords text htext).isLine)
    (fun text htext ↦ (hall text htext).isLine) heq
  exact ⟨more, fun text htext ↦ hall text (List.mem_append_right _ htext), rfl⟩

/-! ### Room for records -/

/-- Records meet some room: there is room for all of them, or the room ends between two of them, or
there is none. -/
def FitsWhole (records : List (List UInt8)) (room : ℕ) : Prop :=
  records.flatten.length ≤ room ∨ ∃ count, room = (records.take count).flatten.length

/-- What fits of records into some room is whole exactly when the room ends between two of them. -/
theorem fitsWhole_iff (records : List (List UInt8)) (room : ℕ) : FitsWhole records room ↔
    ∃ count, records.flatten.take room = (records.take count).flatten := by
  have hsplit : ∀ count, records.flatten =
      (records.take count).flatten ++ (records.drop count).flatten := by
    intro count
    rw [← List.flatten_append, List.take_append_drop]
  constructor
  · rintro (hall | ⟨count, rfl⟩)
    · exact ⟨records.length, by rw [List.take_of_length_le hall, List.take_length]⟩
    · refine ⟨count, ?_⟩
      conv_lhs => rw [hsplit count]
      rw [List.take_left]
  · rintro ⟨count, hcount⟩
    rcases Nat.lt_or_ge room records.flatten.length with hless | hall
    · have hlength := congrArg List.length hcount
      rw [List.length_take_of_le hless.le] at hlength
      exact Or.inr ⟨count, hlength⟩
    · exact Or.inl hall

/-- What fits of records into some room, if it is whole, is the first few of them. -/
theorem exists_take_of_whole {records : List (List UInt8)}
    (hrecords : ∀ text ∈ records, IsRecord text) {room : ℕ}
    (hwhole : Whole (records.flatten.take room)) :
    ∃ count, records.flatten.take room = (records.take count).flatten := by
  obtain ⟨kept, hkept, heq⟩ := hwhole
  have hall : kept.flatten ++ records.flatten.drop room = records.flatten := by
    rw [← heq, List.take_append_drop]
  obtain ⟨more, hmore, -⟩ := exists_append_of_flatten (fun text htext ↦ (hkept text htext).isLine)
    (fun text htext ↦ (hrecords text htext).isLine) hall
  refine ⟨kept.length, ?_⟩
  rw [heq, hmore, List.take_left]

/-! ### Runs without writes -/

/-- A call of a run without `mouse_write` and without faults. -/
inductive Event where
  | timer (x y : UInt64)
  | store (parsed : Option ℤ)
  | parameter (displayMode : ℤ)
  | read (len : ℕ)

/-- The call of the driver. -/
def Event.call : Event → Call
  | .timer x y => .timer x y
  | .store parsed => .store parsed
  | .parameter displayMode => .parameter displayMode
  | .read len => .read (List.replicate len true)

/-- What events have done to a new device. -/
def outcome (mouseBuffer : ℕ → UInt8) (displayMode : ℤ) (events : List Event) : Outcome :=
  runCalls (events.map Event.call) (mouseInit mouseBuffer displayMode)

/-- What was ever read, followed by what is queued. -/
def Outcome.stream (outcome : Outcome) : List UInt8 := outcome.delivered ++ outcome.device.queue

/-- The records of a tick of a device. -/
def Device.tick (device : Device) (x y : UInt64) : List (List UInt8) :=
  eventRecords device.displayMode (randomValue x) (randomValue y)

section Runs

variable (mouseBuffer : ℕ → UInt8) (displayMode : ℤ)

theorem runCalls_append (first second : List Call) (device : Device) :
    runCalls (first ++ second) device =
      ⟨(runCalls second (runCalls first device).device).device,
        (runCalls first device).accepted ++
          (runCalls second (runCalls first device).device).accepted,
        (runCalls first device).delivered ++
          (runCalls second (runCalls first device).device).delivered⟩ := by
  induction first generalizing device with
  | nil => rfl
  | cons call rest ih =>
    rw [List.cons_append, runCalls, ih, runCalls, List.append_assoc, List.append_assoc]

/-- The outcome of one event more. -/
theorem outcome_append_singleton (events : List Event) (event : Event) :
    (outcome mouseBuffer displayMode (events ++ [event])).device =
        (event.call.exec (outcome mouseBuffer displayMode events).device).device ∧
      (outcome mouseBuffer displayMode (events ++ [event])).accepted =
        (outcome mouseBuffer displayMode events).accepted ++
          (event.call.exec (outcome mouseBuffer displayMode events).device).accepted := by
  unfold outcome
  rw [List.map_append, runCalls_append]
  exact ⟨rfl, congrArg _ (List.append_nil _)⟩

theorem valid_outcome (events : List Event) :
    (outcome mouseBuffer displayMode events).device.Valid := by
  have hsize : 0 < bufferSize := Nat.zero_lt_succ 1023
  exact (conserves_runCalls (events.map Event.call)
    (show (mouseInit mouseBuffer displayMode).Valid from ⟨hsize, hsize⟩)).valid

/-- The stream is what the events have put into the buffer. -/
theorem stream_eq_accepted (events : List Event) :
    (outcome mouseBuffer displayMode events).stream =
      (outcome mouseBuffer displayMode events).accepted := by
  have hsize : 0 < bufferSize := Nat.zero_lt_succ 1023
  exact (conserves_runCalls (events.map Event.call)
    (show (mouseInit mouseBuffer displayMode).Valid from ⟨hsize, hsize⟩)).queue_eq.symm

/-- A tick puts into the buffer what fits of its records. -/
theorem accepted_timer {device : Device} (hdevice : device.Valid) (x y : UInt64) :
    ((Event.timer x y).call.exec device).accepted =
        (device.tick x y).flatten.take device.room ∧
      (simulateMouseData x y device).2.queue =
        device.queue ++ (device.tick x y).flatten.take device.room := by
  obtain ⟨-, hcounter, hqueue⟩ := hdevice.simulateLoop
    (eventStr device.displayMode (randomValue x) (randomValue y))
  rw [eventStr_eq_flatten] at hcounter hqueue
  refine ⟨?_, ?_⟩
  · change (eventStr device.displayMode (randomValue x) (randomValue y)).take
      (simulateLoop (eventStr device.displayMode (randomValue x) (randomValue y)) device).1 = _
    rw [eventStr_eq_flatten, hcounter, Nat.min_comm, ← List.take_eq_take_min]
    rfl
  · rw [simulateMouseData, eventStr_eq_flatten, hqueue]
    rfl

/-- The other events put nothing into the buffer. -/
theorem accepted_of_ne_timer {event : Event} (hevent : ∀ x y, event ≠ .timer x y)
    (device : Device) : (event.call.exec device).accepted = [] := by
  cases event with
  | timer x y => exact absurd rfl (hevent x y)
  | store parsed => rfl
  | parameter displayMode => rfl
  | read len => rfl

/-! ### When records stay whole -/

/-- In every state of a run the stream is made of whole records. -/
def StreamWhole (events : List Event) : Prop :=
  ∀ before after, events = before ++ after → Whole (outcome mouseBuffer displayMode before).stream

/-- Every tick of a run finds room that ends between two of its records, or room for all. -/
def EveryTickEndsWhole (events : List Event) : Prop :=
  ∀ before x y after, events = before ++ .timer x y :: after →
    let device := (outcome mouseBuffer displayMode before).device
    FitsWhole (device.tick x y) device.room

/-- The events of a run are recorded whole: in every state the stream is made of whole records, and
every tick records all of its text or drops it entirely. -/
structure RecordedWhole (events : List Event) : Prop where
  stream : StreamWhole mouseBuffer displayMode events
  tick : ∀ before x y after, events = before ++ .timer x y :: after →
    let device := (outcome mouseBuffer displayMode before).device
    (simulateMouseData x y device).2.queue = device.queue ++ (device.tick x y).flatten ∨
      (simulateMouseData x y device).2.queue = device.queue

/-- Every tick of a run finds room for its whole text, or no room at all. -/
def EveryTickFits (events : List Event) : Prop :=
  ∀ before x y after, events = before ++ .timer x y :: after →
    let device := (outcome mouseBuffer displayMode before).device
    (device.tick x y).flatten.length ≤ device.room ∨ device.room = 0

variable {mouseBuffer displayMode} {events : List Event}

/-- A tick that cuts a record leaves a stream that is not made of whole records. -/
theorem everyTickEndsWhole_of_streamWhole (hwhole : StreamWhole mouseBuffer displayMode events) :
    EveryTickEndsWhole mouseBuffer displayMode events := by
  intro before x y after hevents device
  have hrecords : ∀ text ∈ device.tick x y, IsRecord text := fun text ↦ isRecord_eventRecords
  have hbefore := hwhole before (.timer x y :: after) hevents
  have hnext := hwhole (before ++ [.timer x y]) after
    (hevents.trans (List.append_cons before _ after))
  rw [stream_eq_accepted] at hbefore hnext
  rw [(outcome_append_singleton mouseBuffer displayMode before (.timer x y)).2,
    (accepted_timer (valid_outcome mouseBuffer displayMode before) x y).1] at hnext
  exact (fitsWhole_iff _ device.room).mpr
    (exists_take_of_whole hrecords (hbefore.of_append hnext))

/-- While every tick finds such room, the stream is made of whole records. -/
theorem whole_accepted (hfits : EveryTickEndsWhole mouseBuffer displayMode events)
    {before after : List Event} (hevents : events = before ++ after) :
    Whole (outcome mouseBuffer displayMode before).accepted := by
  induction before using List.reverseRecOn generalizing after with
  | nil => exact ⟨[], fun text htext ↦ absurd htext List.not_mem_nil, rfl⟩
  | append_singleton before event ih =>
    rw [List.append_assoc] at hevents
    have hbefore := ih hevents
    rw [(outcome_append_singleton mouseBuffer displayMode before event).2]
    by_cases htimer : ∀ x y, event ≠ .timer x y
    · rw [accepted_of_ne_timer htimer, List.append_nil]
      exact hbefore
    · push Not at htimer
      obtain ⟨x, y, rfl⟩ := htimer
      have hrecords : ∀ text ∈ (outcome mouseBuffer displayMode before).device.tick x y,
          IsRecord text := fun text ↦ isRecord_eventRecords
      obtain ⟨count, hcount⟩ := (fitsWhole_iff _ _).mp (hfits before x y after hevents)
      rw [(accepted_timer (valid_outcome mouseBuffer displayMode before) x y).1, hcount]
      exact hbefore.append
        ⟨_, fun text htext ↦ hrecords text (List.mem_of_mem_take htext), rfl⟩

/-- A tick with all the room or none ends between two records. -/
theorem everyTickEndsWhole_of_fits (hfits : EveryTickFits mouseBuffer displayMode events) :
    EveryTickEndsWhole mouseBuffer displayMode events :=
  fun before x y after hevents ↦
    (hfits before x y after hevents).imp_right fun hnone ↦ ⟨0, hnone⟩

variable (mouseBuffer displayMode events)

/-- The stream is made of whole records exactly in the runs in which every tick finds room for its
text, or no room, or room that ends between its two records. -/
theorem stream_whole_iff : StreamWhole mouseBuffer displayMode events ↔
    EveryTickEndsWhole mouseBuffer displayMode events := by
  refine ⟨everyTickEndsWhole_of_streamWhole, fun hfits before after hevents ↦ ?_⟩
  rw [stream_eq_accepted]
  exact whole_accepted hfits hevents

/-- Events are recorded whole exactly in the runs in which every tick finds room for its whole text,
or no room at all. -/
theorem records_whole_iff : RecordedWhole mouseBuffer displayMode events ↔
    EveryTickFits mouseBuffer displayMode events := by
  have hqueue (before : List Event) (x y : UInt64) :=
    (accepted_timer (valid_outcome mouseBuffer displayMode before) x y).2
  constructor
  · intro hwhole before x y after hevents device
    have htick := hwhole.tick before x y after hevents
    dsimp only at htick
    rw [hqueue, List.append_cancel_left_eq, List.append_right_eq_self] at htick
    rcases htick with hall | hnone
    · have hlength := congrArg List.length hall
      rw [List.length_take] at hlength
      exact Or.inl (min_eq_right_iff.mp hlength)
    · rcases List.take_eq_nil_iff.mp hnone with hroom | hempty
      · exact Or.inr hroom
      · exact Or.inl (hempty ▸ Nat.zero_le device.room)
  · intro hfits
    refine ⟨(stream_whole_iff mouseBuffer displayMode events).mpr
      (everyTickEndsWhole_of_fits hfits), ?_⟩
    intro before x y after hevents device
    rw [hqueue]
    rcases hfits before x y after hevents with hall | hnone
    · exact Or.inl (congrArg _ (List.take_of_length_le hall))
    · refine Or.inr ?_
      rw [hnone, List.take_zero, List.append_nil]

end Runs

/-! ### A reader that is too slow -/

/-- Ticks of a new device, each with the record of ten bytes for the value 0. -/
def ticks (count : ℕ) : List Event := List.replicate count (.timer 5 0)

theorem displayMode_simulateLoop (text : List UInt8) (device : Device) :
    (simulateLoop text device).2.displayMode = device.displayMode := by
  induction text generalizing device with
  | nil => rfl
  | cons ch rest ih =>
    rw [simulateLoop]
    split_ifs
    · rfl
    · exact ih (device.put ch)

theorem tick_of_mode {device : Device} (hmode : device.displayMode = 0) :
    device.tick 5 0 = [mouseX ++ [48, 10]] := by
  rw [Device.tick, hmode]
  rfl

/-- The buffer takes the records of 102 ticks. -/
theorem queue_ticks {count : ℕ} (hcount : count ≤ 102) :
    (outcome (fun _ ↦ 0) 0 (ticks count)).device.displayMode = 0 ∧
      (outcome (fun _ ↦ 0) 0 (ticks count)).device.queue.length = 10 * count := by
  induction count with
  | zero => exact ⟨rfl, rfl⟩
  | succ count ih =>
    obtain ⟨hmode, hlength⟩ := ih (Nat.le_of_succ_le hcount)
    have hdevice := valid_outcome (fun _ ↦ 0) 0 (ticks count)
    have hticks : ticks (count + 1) = ticks count ++ [.timer 5 0] := List.replicate_succ'
    have hqueue := (accepted_timer hdevice 5 0).2
    rw [hticks, (outcome_append_singleton (fun _ ↦ 0) 0 (ticks count) (.timer 5 0)).1]
    refine ⟨(displayMode_simulateLoop _ _).trans hmode, ?_⟩
    change (simulateMouseData 5 0 _).2.queue.length = _
    rw [hqueue, tick_of_mode hmode, List.length_append, List.length_take, hlength,
      Device.room, hlength]
    simp only [List.flatten_cons, List.flatten_nil, List.append_nil, List.length_append, mouseX,
      List.length_cons, List.length_nil, bufferSize]
    omega

/-- When nobody reads, the tick after 102 ticks of ten bytes records three bytes of its event. -/
theorem ticks_not_recordedWhole : ¬ RecordedWhole (fun _ ↦ 0) 0 (ticks 103) := by
  intro hwhole
  obtain ⟨hmode, hlength⟩ := queue_ticks (le_refl 102)
  have hfits := everyTickEndsWhole_of_streamWhole hwhole.stream (ticks 102) 5 0 []
    List.replicate_succ'
  have hroom : (outcome (fun _ ↦ 0) 0 (ticks 102)).device.room = 3 := by
    rw [Device.room, hlength]
    rfl
  simp only [tick_of_mode hmode, hroom] at hfits
  rcases hfits with hall | ⟨count, hthree⟩
  · exact absurd hall (by decide)
  · rcases count with _ | count
    · exact absurd hthree (by decide)
    · rw [List.take_of_length_le (Nat.succ_le_succ (Nat.zero_le count))] at hthree
      exact absurd hthree (by decide)

end Homework.MouseDriver
