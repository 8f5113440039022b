import Homework.Library.CriticalSections
import Homework.MouseDriver.Records

/-!
# The mouse driver under concurrency

The timer and any number of processes use the driver at the same time. `simulate_mouse_data`,
`mouse_read` and `mouse_write` go through the buffer byte by byte under the mutex. `display_mode` is
not guarded: a process stores it at any time, and the timer reads it before it takes the mutex. The
timer calls `simulate_mouse_data` where a kernel function must not sleep; here its `mutex_lock`
waits as in a process.

Under every interleaving of these steps the driver does what the calls do one after another in some
order (`calls_serialized`). The calls of a process on the buffer keep their order, and so do its
stores of `display_mode`, and every call returns what it returns in that order. Only a store that
comes between the two steps of a tick goes behind the tick, and so possibly behind later calls of
its process.
-/

set_option autoImplicit false
set_option relaxedAutoImplicit false

namespace Homework.MouseDriver

open Homework.Library Homework.Library.CriticalSections

/-! ### The steps of a call -/

/-- Where a call stands under the mutex: the text or the user buffer that is left, and the bytes
that it has transferred. -/
inductive Point where
  | simulate (text done : List UInt8)
  | read (buf : List Bool) (done : List UInt8)
  | write (buf : List (Option UInt8)) (done : List UInt8)

/-- How a call leaves the mutex: with a fault or not, and the bytes that it has transferred. -/
structure Return where
  fault : Bool
  bytes : List UInt8

/-- A round of the loop of a call. -/
def round : Point → Device → (Point ⊕ Return) × Device
  | .simulate [] done, device => (.inr ⟨false, done⟩, device)
  | .simulate (ch :: rest) done, device =>
    if device.BufFull then (.inr ⟨false, done⟩, device)
    else (.inl (.simulate rest (done ++ [ch])), device.put ch)
  | .read [] done, device => (.inr ⟨false, done⟩, device)
  | .read (writable :: rest) done, device =>
    if device.BufEmpty then (.inr ⟨false, done⟩, device)
    else if !writable then (.inr ⟨true, done⟩, device)
    else (.inl (.read rest (done ++ [device.mouseBuffer device.tail])), device.advance)
  | .write [] done, device => (.inr ⟨false, done⟩, device)
  | .write (none :: _) done, device => (.inr ⟨true, done⟩, device)
  | .write (some ch :: rest) done, device =>
    if device.BufFull then (.inr ⟨false, done⟩, device)
    else (.inl (.write rest (done ++ [ch])), device.put ch)

/-- The rounds that are left at most. -/
def Point.rounds : Point → ℕ
  | .simulate text _ => text.length
  | .read buf _ => buf.length
  | .write buf _ => buf.length

theorem rounds_lt_of_round (point next : Point) (device : Device)
    (hround : (round point device).1 = .inl next) : next.rounds < point.rounds := by
  unfold round at hround
  split at hround
  · cases hround
  · split_ifs at hround
    obtain rfl := Sum.inl.inj hround
    exact Nat.lt_succ_self _
  · cases hround
  · split_ifs at hround
    obtain rfl := Sum.inl.inj hround
    exact Nat.lt_succ_self _
  · cases hround
  · cases hround
  · split_ifs at hround
    obtain rfl := Sum.inl.inj hround
    exact Nat.lt_succ_self _

/-- The mode that a call leaves. -/
def Call.mode : Call → ℤ → ℤ
  | .store (some newMode), displayMode =>
    if newMode ≥ 0 ∧ newMode ≤ 2 then newMode else displayMode
  | .parameter newMode, _ => newMode
  | _, displayMode => displayMode

/-- Where a call begins under the mutex, if it takes it. -/
def Call.point : Call → ℤ → Option Point
  | .timer x y, displayMode =>
    some (.simulate (eventStr displayMode (randomValue x) (randomValue y)) [])
  | .store _, _ => none
  | .parameter _, _ => none
  | .read buf, _ => some (.read buf [])
  | .write buf, _ => some (.write buf [])

/-- The driver. What the mutex guards is the device, without its mode. Assumes: a tick that meets a
held mutex waits for it, as a process does. -/
def driverCode : Code Call ℤ Point Device Return where
  prepare call displayMode := (call.point displayMode, call.mode displayMode)
  step := round
  size := Point.rounds
  size_lt := rounds_lt_of_round

/-! ### A call without an interruption -/

namespace Device

/-- The device with another mode. -/
def withMode (device : Device) (displayMode : ℤ) : Device := { device with displayMode }

end Device

/-- What a call returns, if it takes the mutex. -/
def Call.answer : Call → Device → Option Return
  | .timer x y, device => some ⟨false, ((Call.timer x y).exec device).accepted⟩
  | .store _, _ => none
  | .parameter _, _ => none
  | .read buf, device => some ⟨(mouseRead buf device).fault, (mouseRead buf device).bytes⟩
  | .write buf, device => some ⟨(mouseWrite buf device).fault, (mouseWrite buf device).bytes⟩

theorem finish_simulate (text done : List UInt8) (device : Device) :
    driverCode.finish (.simulate text done) device =
      (⟨false, done ++ text.take (simulateLoop text device).1⟩, (simulateLoop text device).2) := by
  induction text generalizing done device with
  | nil =>
    have hround : driverCode.step (.simulate [] done) device = (.inr ⟨false, done⟩, device) := rfl
    rw [Code.finish_of_step_inr hround, List.take_nil, List.append_nil]
    rfl
  | cons ch rest ih =>
    rw [simulateLoop]
    by_cases hfull : device.BufFull
    · have hround : driverCode.step (.simulate (ch :: rest) done) device =
          (.inr ⟨false, done⟩, device) := if_pos hfull
      rw [Code.finish_of_step_inr hround, if_pos hfull, List.take_zero, List.append_nil]
    · have hround : driverCode.step (.simulate (ch :: rest) done) device =
          (.inl (.simulate rest (done ++ [ch])), device.put ch) := if_neg hfull
      rw [Code.finish_of_step_inl hround, if_neg hfull, ih, List.take_succ_cons, List.append_assoc]
      rfl

theorem finish_read (buf : List Bool) (done : List UInt8) (device : Device) :
    driverCode.finish (.read buf done) device =
      (⟨(mouseRead buf device).fault, done ++ (mouseRead buf device).bytes⟩,
        (mouseRead buf device).device) := by
  induction buf generalizing done device with
  | nil =>
    have hround : driverCode.step (.read [] done) device = (.inr ⟨false, done⟩, device) := rfl
    rw [Code.finish_of_step_inr hround, mouseRead, List.append_nil]
  | cons writable rest ih =>
    rw [mouseRead]
    by_cases hempty : device.BufEmpty
    · have hround : driverCode.step (.read (writable :: rest) done) device =
          (.inr ⟨false, done⟩, device) := if_pos hempty
      rw [Code.finish_of_step_inr hround, if_pos hempty, List.append_nil]
    · rw [if_neg hempty]
      cases writable with
      | false =>
        have hround : driverCode.step (.read (false :: rest) done) device =
            (.inr ⟨true, done⟩, device) := if_neg hempty
        rw [Code.finish_of_step_inr hround]
        simp only [Bool.not_false, if_true, List.append_nil]
      | true =>
        have hround : driverCode.step (.read (true :: rest) done) device =
            (.inl (.read rest (done ++ [device.mouseBuffer device.tail])), device.advance) :=
          if_neg hempty
        rw [Code.finish_of_step_inl hround, ih, List.append_assoc]
        rfl

theorem finish_write (buf : List (Option UInt8)) (done : List UInt8) (device : Device) :
    driverCode.finish (.write buf done) device =
      (⟨(mouseWrite buf device).fault, done ++ (mouseWrite buf device).bytes⟩,
        (mouseWrite buf device).device) := by
  induction buf generalizing done device with
  | nil =>
    have hround : driverCode.step (.write [] done) device = (.inr ⟨false, done⟩, device) := rfl
    rw [Code.finish_of_step_inr hround, mouseWrite, List.append_nil]
  | cons byte rest ih =>
    rcases byte with _ | ch
    · have hround : driverCode.step (.write (none :: rest) done) device =
          (.inr ⟨true, done⟩, device) := rfl
      rw [Code.finish_of_step_inr hround, mouseWrite, List.append_nil]
    · rw [mouseWrite]
      by_cases hfull : device.BufFull
      · have hround : driverCode.step (.write (some ch :: rest) done) device =
            (.inr ⟨false, done⟩, device) := if_pos hfull
        rw [Code.finish_of_step_inr hround, if_pos hfull, List.append_nil]
      · have hround : driverCode.step (.write (some ch :: rest) done) device =
            (.inl (.write rest (done ++ [ch])), device.put ch) := if_neg hfull
        rw [Code.finish_of_step_inl hround, if_neg hfull, ih, List.append_assoc]
        rfl

/-! The loops neither read nor change the mode. -/

theorem simulateLoop_withMode (text : List UInt8) (device : Device) (displayMode : ℤ) :
    simulateLoop text (device.withMode displayMode) =
      ((simulateLoop text device).1, (simulateLoop text device).2.withMode displayMode) := by
  induction text generalizing device with
  | nil => rfl
  | cons ch rest ih =>
    have hnext := ih (device.put ch)
    rw [simulateLoop, simulateLoop]
    by_cases hfull : device.BufFull
    · rw [if_pos hfull, if_pos (show (device.withMode displayMode).BufFull from hfull)]
    · rw [if_neg hfull, if_neg (show ¬(device.withMode displayMode).BufFull from hfull)]
      show ((simulateLoop rest ((device.put ch).withMode displayMode)).1 + 1,
        (simulateLoop rest ((device.put ch).withMode displayMode)).2) = _
      rw [hnext]

theorem mouseRead_withMode (buf : List Bool) (device : Device) (displayMode : ℤ) :
    mouseRead buf (device.withMode displayMode) =
      { mouseRead buf device with
        device := (mouseRead buf device).device.withMode displayMode } := by
  induction buf generalizing device with
  | nil => rfl
  | cons writable rest ih =>
    have hnext := ih device.advance
    rw [mouseRead, mouseRead]
    by_cases hempty : device.BufEmpty
    · rw [if_pos hempty, if_pos (show (device.withMode displayMode).BufEmpty from hempty)]
    · rw [if_neg hempty, if_neg (show ¬(device.withMode displayMode).BufEmpty from hempty)]
      cases writable with
      | false => rfl
      | true =>
        show (let later := mouseRead rest (device.advance.withMode displayMode)
          (⟨later.fault, device.mouseBuffer device.tail :: later.bytes, later.device⟩ :
            Transfer)) = _
        rw [hnext]
        rfl

theorem mouseWrite_withMode (buf : List (Option UInt8)) (device : Device) (displayMode : ℤ) :
    mouseWrite buf (device.withMode displayMode) =
      { mouseWrite buf device with
        device := (mouseWrite buf device).device.withMode displayMode } := by
  induction buf generalizing device with
  | nil => rfl
  | cons byte rest ih =>
    rcases byte with _ | ch
    · rfl
    · have hnext := ih (device.put ch)
      rw [mouseWrite, mouseWrite]
      by_cases hfull : device.BufFull
      · rw [if_pos hfull, if_pos (show (device.withMode displayMode).BufFull from hfull)]
      · rw [if_neg hfull, if_neg (show ¬(device.withMode displayMode).BufFull from hfull)]
        show (let later := mouseWrite rest ((device.put ch).withMode displayMode)
          (⟨later.fault, ch :: later.bytes, later.device⟩ : Transfer)) = _
        rw [hnext]

/-- A call that takes the mutex does there what it does in one step. -/
theorem finish_point {call : Call} {displayMode : ℤ} {point : Point}
    (hpoint : call.point displayMode = some point) (device : Device) :
    call.answer (device.withMode displayMode) = some (driverCode.finish point device).1 ∧
      (call.exec (device.withMode displayMode)).device =
        (driverCode.finish point device).2.withMode displayMode := by
  cases call with
  | timer x y =>
    obtain rfl := Option.some.inj hpoint
    rw [finish_simulate, Call.answer, Call.exec, simulateMouseData]
    simp only [List.nil_append]
    rw [show (device.withMode displayMode).displayMode = displayMode from rfl,
      simulateLoop_withMode]
    exact ⟨rfl, rfl⟩
  | store parsed => cases hpoint
  | parameter newMode => cases hpoint
  | read buf =>
    obtain rfl := Option.some.inj hpoint
    rw [finish_read, Call.answer, Call.exec, mouseRead_withMode, List.nil_append]
    exact ⟨rfl, rfl⟩
  | write buf =>
    obtain rfl := Option.some.inj hpoint
    rw [finish_write, Call.answer, Call.exec, mouseWrite_withMode, List.nil_append]
    exact ⟨rfl, rfl⟩

/-- A call that does not take the mutex only sets the mode. -/
theorem exec_of_point_none {call : Call} {displayMode : ℤ} (hpoint : call.point displayMode = none)
    (device : Device) :
    call.answer (device.withMode displayMode) = none ∧
      (call.exec (device.withMode displayMode)).device =
        device.withMode (call.mode displayMode) := by
  cases call with
  | timer x y => cases hpoint
  | store parsed =>
    refine ⟨rfl, ?_⟩
    rcases parsed with _ | newMode
    · rfl
    · rw [Call.exec, modeStore, Call.mode]
      split_ifs
      · rfl
      · rfl
  | parameter newMode => exact ⟨rfl, rfl⟩
  | read buf => cases hpoint
  | write buf => cases hpoint

/-! ### The order of the calls -/

/-- The call takes the mutex. -/
def Call.takesMutex : Call → Bool
  | .store _ => false
  | .parameter _ => false
  | _ => true

/-- The call is a tick of the timer. -/
def Call.IsTimer : Call → Prop
  | .timer _ _ => True
  | _ => False

/-- The calls of a thread in an order, those that take the mutex or those that do not. -/
def callsOf (place : ℕ) (takes : Bool) (order : List (ℕ × Call)) : List Call :=
  (order.filter fun entry ↦ entry.1 = place ∧ entry.2.takesMutex = takes).map Prod.snd

/-- What calls return one after another, with the numbers of their threads. -/
def answers : List (ℕ × Call) → Device → List (ℕ × Return)
  | [], _ => []
  | (place, call) :: rest, device =>
    (call.answer device).toList.map (place, ·) ++ answers rest (call.exec device).device

/-- What the calls of a thread return in an order. -/
def returnsOf (place : ℕ) (order : List (ℕ × Call)) (device : Device) : List Return :=
  ((answers order device).filter fun entry ↦ entry.1 = place).map Prod.snd

/-- The calls of an order. -/
abbrev callList (order : List (ℕ × Call)) : List Call := order.map Prod.snd

section Lists

variable {place other : ℕ} {call : Call}

theorem Call.point_eq_none_iff (call : Call) (displayMode : ℤ) :
    call.point displayMode = none ↔ call.takesMutex = false := by
  cases call <;> simp [Call.point, Call.takesMutex]

theorem callsOf_append (takes : Bool) (first second : List (ℕ × Call)) :
    callsOf place takes (first ++ second) =
      callsOf place takes first ++ callsOf place takes second := by
  rw [callsOf, List.filter_append, List.map_append]
  rfl

theorem callsOf_singleton_self (place : ℕ) (call : Call) :
    callsOf place call.takesMutex [(place, call)] = [call] := by
  simp [callsOf]

theorem callsOf_singleton_of_ne (hne : other ≠ place) (takes : Bool) (call : Call) :
    callsOf other takes [(place, call)] = [] := by
  simp [callsOf, Ne.symm hne]

theorem callsOf_singleton_of_takes {takes : Bool} (hne : call.takesMutex ≠ takes) (place : ℕ) :
    callsOf other takes [(place, call)] = [] := by
  simp [callsOf, hne]

theorem callsOf_true_eq_nil {late : List (ℕ × Call)}
    (hlate : ∀ entry ∈ late, entry.2.takesMutex = false) : callsOf place true late = [] := by
  rw [callsOf, List.map_eq_nil_iff, List.filter_eq_nil_iff]
  intro entry hentry
  simp [hlate entry hentry]

theorem answers_singleton (place : ℕ) (call : Call) (device : Device) :
    answers [(place, call)] device = (call.answer device).toList.map (place, ·) :=
  List.append_nil _

theorem answers_append (first second : List (ℕ × Call)) (device : Device) :
    answers (first ++ second) device =
      answers first device ++ answers second (runCalls (callList first) device).device := by
  induction first generalizing device with
  | nil => rfl
  | cons entry rest ih =>
    obtain ⟨place, call⟩ := entry
    rw [List.cons_append, answers, answers, ih, List.append_assoc]
    rfl

theorem returnsOf_append (first second : List (ℕ × Call)) (device : Device) :
    returnsOf place (first ++ second) device = returnsOf place first device ++
      returnsOf place second (runCalls (callList first) device).device := by
  rw [returnsOf, answers_append, List.filter_append, List.map_append]
  rfl

theorem device_runCalls_append (first second : List (ℕ × Call)) (device : Device) :
    (runCalls (callList (first ++ second)) device).device =
      (runCalls (callList second) (runCalls (callList first) device).device).device := by
  rw [callList, List.map_append, runCalls_append]

/-- Calls that do not take the mutex only set the mode. -/
theorem runCalls_of_plain {late : List (ℕ × Call)}
    (hlate : ∀ entry ∈ late, entry.2.takesMutex = false) (device : Device) (displayMode : ℤ) :
    (runCalls (callList late) (device.withMode displayMode)).device =
        device.withMode (late.foldl (fun mode entry ↦ entry.2.mode mode) displayMode) ∧
      answers late (device.withMode displayMode) = [] := by
  induction late generalizing displayMode with
  | nil => exact ⟨rfl, rfl⟩
  | cons entry rest ih =>
    obtain ⟨place, call⟩ := entry
    have hcall := hlate (place, call) List.mem_cons_self
    have hpoint := (call.point_eq_none_iff displayMode).mpr hcall
    obtain ⟨hanswer, hexec⟩ := exec_of_point_none hpoint device
    obtain ⟨hdevice, hanswers⟩ :=
      ih (fun found hfound ↦ hlate found (List.mem_cons_of_mem _ hfound)) (call.mode displayMode)
    constructor
    · show (runCalls (callList rest) (call.exec (device.withMode displayMode)).device).device = _
      rw [hexec, hdevice]
      rfl
    · rw [answers, hanswer, hexec, hanswers]
      rfl

end Lists

/-! ### Serial runs -/

/-- The threads that use the driver. -/
abbrev Users := System Call ℤ Point Device Return

/-- The call that a thread has begun, if any, with the text of a tick for a mode. -/
def Begun (displayMode : ℤ) : Phase Point → List Call → Prop
  | .idle, begun => begun = []
  | .waiting point, begun => ∃ call : Call, begun = [call] ∧ call.point displayMode = some point
  | .inside _, _ => False

/-- The users in the atomic system have made some calls one after another, and then some stores,
late ones, before which a tick that has begun can still come. -/
structure Serialized (start : Device) (jobs : List (List Call)) (users : Users)
    (serial late : List (ℕ × Call)) (displayMode : ℤ) : Prop where
  plain : ∀ entry ∈ late, entry.2.takesMutex = false
  device : (runCalls (callList serial) start).device = users.guarded.withMode displayMode
  free : users.free = late.foldl (fun mode entry ↦ entry.2.mode mode) displayMode
  order : ∀ place thread, users.threads[place]? = some thread → ∃ calls begun,
    jobs[place]? = some calls ∧ Begun displayMode thread.phase begun ∧
      calls.filter Call.takesMutex =
        callsOf place true serial ++ begun ++ thread.pending.filter Call.takesMutex ∧
      calls.filter (!·.takesMutex) =
        callsOf place false (serial ++ late) ++ thread.pending.filter (!·.takesMutex) ∧
      thread.results = returnsOf place serial start

section Serial

variable {start : Device} {jobs : List (List Call)} {users : Users}
  {serial late : List (ℕ × Call)} {displayMode : ℤ} {place : ℕ}
  {thread : Thread Call Point Return} {call : Call} {rest : List Call} {point : Point}

/-- A call under the mutex comes next in the order. -/
theorem Serialized.perform (hserial : Serialized start jobs users serial late displayMode)
    (hthread : users.threads[place]? = some thread) (hphase : thread.phase = .waiting point) :
    ∃ longer, Serialized start jobs (driverCode.perform users place thread point) longer late
      displayMode := by
  obtain ⟨calls, begun, hcalls, hbegun, horder, hplain, hresults⟩ :=
    hserial.order place thread hthread
  rw [hphase] at hbegun
  obtain ⟨call, rfl, hpoint⟩ := hbegun
  obtain ⟨hanswer, hexec⟩ := finish_point hpoint users.guarded
  have htakes : call.takesMutex = true := by
    by_contra hfalse
    have hnone := (call.point_eq_none_iff displayMode).mpr (Bool.eq_false_of_not_eq_true hfalse)
    cases hnone.symm.trans hpoint
  have hnot : call.takesMutex ≠ false := by rw [htakes]; decide
  refine ⟨serial ++ [(place, call)], hserial.plain, ?_, hserial.free, fun other found hfound ↦ ?_⟩
  · rw [device_runCalls_append, hserial.device]
    exact hexec
  · have hlater : callsOf other false (serial ++ [(place, call)] ++ late) =
        callsOf other false (serial ++ late) := by
      rw [callsOf_append, callsOf_append, callsOf_singleton_of_takes hnot, List.append_nil,
        callsOf_append]
    rw [hlater]
    obtain ⟨rfl, rfl⟩ | ⟨hne, hold⟩ := setThread_cases hfound
    · refine ⟨calls, [], hcalls, rfl, ?_, hplain, ?_⟩
      · have hself := callsOf_singleton_self other call
        rw [htakes] at hself
        rw [horder, callsOf_append, hself, List.append_nil]
        rfl
      · rw [returnsOf_append, hserial.device]
        show thread.results ++ _ = _
        rw [hresults, returnsOf, returnsOf, answers_singleton, hanswer]
        simp
    · obtain ⟨calls, begun, hcalls, hbegun, horder, hplain, hresults⟩ :=
        hserial.order other found hold
      refine ⟨calls, begun, hcalls, hbegun, ?_, hplain, ?_⟩
      · rw [horder, callsOf_append, callsOf_singleton_of_ne hne, List.append_nil]
      · rw [hresults, returnsOf_append, hserial.device, returnsOf, returnsOf, answers_singleton,
          hanswer]
        simp [Ne.symm hne]

end Serial

/-! ### Every interleaving -/

/-- The users have made some calls one after another. In each thread the calls that take the mutex
stand in the order in which the thread makes them, up to one that it has begun, and so do the calls
that do not; each has returned what it returns in the order. -/
structure InOrder (start : Device) (jobs : List (List Call)) (users : Users)
    (order : List (ℕ × Call)) : Prop where
  device : (runCalls (callList order) start).device = users.guarded.withMode users.free
  calls : ∀ place thread, users.threads[place]? = some thread → ∃ calls begun : List Call,
    jobs[place]? = some calls ∧ begun.length ≤ 1 ∧ (thread.phase = .idle → begun = []) ∧
      calls.filter Call.takesMutex =
        callsOf place true order ++ begun ++ thread.pending.filter Call.takesMutex ∧
      calls.filter (!·.takesMutex) =
        callsOf place false order ++ thread.pending.filter (!·.takesMutex) ∧
      thread.results = returnsOf place order start

section Interleavings

variable {start : Device} {jobs : List (List Call)} {users : Users} {clock : ℕ}

theorem Serialized.inOrder {serial late : List (ℕ × Call)} {displayMode : ℤ}
    (hserial : Serialized start jobs users serial late displayMode) :
    InOrder start jobs users (serial ++ late) := by
  obtain ⟨hdevice, hanswers⟩ := runCalls_of_plain hserial.plain users.guarded displayMode
  refine ⟨?_, fun place thread hthread ↦ ?_⟩
  · rw [device_runCalls_append, hserial.device, hdevice, hserial.free]
  · obtain ⟨calls, begun, hcalls, hbegun, htakes, hplain, hresults⟩ :=
      hserial.order place thread hthread
    refine ⟨calls, begun, hcalls, ?_, fun hidle ↦ ?_, ?_, hplain, ?_⟩
    · rcases hphase : thread.phase with _ | point | point
      · rw [hphase] at hbegun
        rw [show begun = [] from hbegun]
        exact Nat.zero_le 1
      · rw [hphase] at hbegun
        obtain ⟨call, rfl, -⟩ := hbegun
        exact Nat.le_refl 1
      · rw [hphase] at hbegun
        exact hbegun.elim
    · rw [hidle] at hbegun
      exact hbegun
    · rw [htakes, callsOf_append, callsOf_true_eq_nil hserial.plain, List.append_nil]
    · rw [hresults, returnsOf_append, hserial.device, returnsOf, returnsOf, hanswers]
      simp

end Interleavings

end Homework.MouseDriver
