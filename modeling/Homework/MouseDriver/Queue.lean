import Homework.MouseDriver.Device

/-!
# The queue of the mouse driver

The ring buffer of the driver is a queue of at most 1023 bytes. The loops of the three operations
are the loops of the ring-buffer library, up to the first byte that faults: `simulate_mouse_data`
and `mouse_write` push, `mouse_read` pops.

`runCalls` executes any sequence of calls, also of calls that fault, and collects the bytes that
were put into the buffer and the bytes that were taken out. `mouse_bounded_fifo` is the law of the
driver: in every state that a run reaches the device is a bounded queue, every call does to the
queue what it should, and nothing is lost, duplicated or reordered.
-/

set_option autoImplicit false
set_option relaxedAutoImplicit false

namespace Homework.MouseDriver

open Homework.Library RingBuffer

/-! ### The operations as operations of the ring buffer -/

/-- The loop of `simulate_mouse_data` pushes until the buffer is full. -/
theorem simulateLoop_eq (text : List UInt8) (device : Device) :
    (simulateLoop text device).1 = (pushAll bufferSize text device.ring).1 ∧
      (simulateLoop text device).2.ring = (pushAll bufferSize text device.ring).2 := by
  induction text generalizing device with
  | nil => exact ⟨rfl, rfl⟩
  | cons ch rest ih =>
    rw [simulateLoop, pushAll]
    by_cases hfull : device.BufFull
    · rw [if_pos hfull, if_pos (show device.ring.IsFull bufferSize from hfull)]
      exact ⟨rfl, rfl⟩
    · rw [if_neg hfull, if_neg (show ¬ device.ring.IsFull bufferSize from hfull)]
      obtain ⟨hcounter, hring⟩ := ih (device.put ch)
      exact ⟨congrArg (· + 1) hcounter, hring⟩

/-- The bytes of a user buffer before the first one that cannot be read. -/
def readable : List (Option UInt8) → List UInt8
  | some ch :: rest => ch :: readable rest
  | _ => []

/-- `mouse_write` pushes the bytes before the first fault until the buffer is full. -/
theorem mouseWrite_eq (buf : List (Option UInt8)) (device : Device) :
    (mouseWrite buf device).bytes =
        (readable buf).take (pushAll bufferSize (readable buf) device.ring).1 ∧
      (mouseWrite buf device).device.ring = (pushAll bufferSize (readable buf) device.ring).2 := by
  induction buf generalizing device with
  | nil => exact ⟨rfl, rfl⟩
  | cons byte rest ih =>
    rcases byte with _ | ch
    · exact ⟨rfl, rfl⟩
    · rw [mouseWrite, readable, pushAll]
      by_cases hfull : device.BufFull
      · rw [if_pos hfull, if_pos (show device.ring.IsFull bufferSize from hfull)]
        exact ⟨rfl, rfl⟩
      · rw [if_neg hfull, if_neg (show ¬ device.ring.IsFull bufferSize from hfull)]
        obtain ⟨hbytes, hring⟩ := ih (device.put ch)
        exact ⟨congrArg (ch :: ·) hbytes, hring⟩

/-- `mouse_read` pops at most as many bytes as it can write before the first fault. -/
theorem mouseRead_eq (buf : List Bool) (device : Device) :
    (mouseRead buf device).bytes =
        (popMany bufferSize (buf.takeWhile id).length device.ring).1 ∧
      (mouseRead buf device).device.ring =
        (popMany bufferSize (buf.takeWhile id).length device.ring).2 := by
  induction buf generalizing device with
  | nil => exact ⟨rfl, rfl⟩
  | cons writable rest ih =>
    rw [mouseRead]
    by_cases hempty : device.BufEmpty
    · have hring : device.ring.IsEmpty := hempty
      rw [if_pos hempty]
      rcases (writable :: rest).takeWhile id with _ | ⟨flag, flags⟩
      · exact ⟨rfl, rfl⟩
      · rw [List.length_cons, popMany, if_pos hring]
        exact ⟨rfl, rfl⟩
    · rw [if_neg hempty]
      cases writable with
      | false => exact ⟨rfl, rfl⟩
      | true =>
        obtain ⟨hbytes, hring⟩ := ih device.advance
        rw [List.takeWhile_cons_of_pos rfl, List.length_cons, popMany,
          if_neg (show ¬ device.ring.IsEmpty from hempty)]
        exact ⟨congrArg (device.mouseBuffer device.tail :: ·) hbytes, hring⟩

/-- The bytes of a user buffer without faults are all readable. -/
theorem readable_map_some (data : List UInt8) : readable (data.map some) = data := by
  induction data with
  | nil => rfl
  | cons ch rest ih => rw [List.map_cons, readable, ih]

/-- Writing from a user buffer without faults does not fault. -/
theorem fault_mouseWrite_map_some (data : List UInt8) (device : Device) :
    (mouseWrite (data.map some) device).fault = false := by
  induction data generalizing device with
  | nil => rfl
  | cons ch rest ih =>
    rw [List.map_cons, mouseWrite]
    split_ifs
    · rfl
    · exact ih (device.put ch)

/-- Reading into a user buffer without faults does not fault. -/
theorem fault_mouseRead_replicate (len : ℕ) (device : Device) :
    (mouseRead (List.replicate len true) device).fault = false := by
  induction len generalizing device with
  | zero => rfl
  | succ len ih =>
    rw [List.replicate_succ, mouseRead]
    split_ifs with hempty hwritable
    · rfl
    · exact absurd hwritable (by decide)
    · exact ih device.advance

/-! ### The operations on the queue -/

namespace Device

/-- The number of bytes that the queue can still take. -/
def room (device : Device) : ℕ := bufferSize - 1 - device.queue.length

/-- The indices are inside the buffer. -/
abbrev Valid (device : Device) : Prop := device.ring.WellFormed bufferSize

theorem room_eq (device : Device) :
    device.room = bufferSize - 1 - device.ring.count bufferSize := by
  rw [room, queue, length_contents]

variable {device : Device} (hdevice : device.Valid)
include hdevice

theorem Valid.length_queue_le : device.queue.length ≤ bufferSize - 1 := by
  have hcount := hdevice.count_lt
  rw [queue, length_contents]
  exact Nat.le_sub_one_of_lt hcount

/-- The timer appends the longest prefix of a text that fits. -/
theorem Valid.simulateLoop (text : List UInt8) :
    (simulateLoop text device).2.Valid ∧
      (simulateLoop text device).1 = min text.length device.room ∧
      (simulateLoop text device).2.queue = device.queue ++ text.take device.room := by
  obtain ⟨hcounter, hring⟩ := simulateLoop_eq text device
  obtain ⟨hwell, hnumber, hcontents⟩ := hdevice.pushAll text
  rw [room_eq]
  refine ⟨?_, hcounter.trans hnumber, ?_⟩
  · rw [Valid, hring]
    exact hwell
  · rw [queue, hring]
    exact hcontents

/-- A write appends the longest prefix that fits of the bytes before the first fault. -/
theorem Valid.mouseWrite (buf : List (Option UInt8)) :
    (mouseWrite buf device).device.Valid ∧
      (mouseWrite buf device).bytes = (readable buf).take device.room ∧
      (mouseWrite buf device).device.queue = device.queue ++ (readable buf).take device.room := by
  obtain ⟨hbytes, hring⟩ := mouseWrite_eq buf device
  obtain ⟨hwell, hnumber, hcontents⟩ := hdevice.pushAll (readable buf)
  rw [room_eq]
  refine ⟨?_, ?_, ?_⟩
  · rw [Valid, hring]
    exact hwell
  · rw [hbytes, hnumber, Nat.min_comm, ← List.take_eq_take_min]
  · rw [queue, hring]
    exact hcontents

/-- A read removes and delivers the front of the queue, up to the first fault. -/
theorem Valid.mouseRead (buf : List Bool) :
    (mouseRead buf device).device.Valid ∧
      (mouseRead buf device).bytes = device.queue.take (buf.takeWhile id).length ∧
      (mouseRead buf device).device.queue = device.queue.drop (buf.takeWhile id).length := by
  obtain ⟨hbytes, hring⟩ := mouseRead_eq buf device
  obtain ⟨hwell, hpopped, hcontents⟩ := hdevice.popMany (buf.takeWhile id).length
  refine ⟨?_, hbytes.trans hpopped, ?_⟩
  · rw [Valid, hring]
    exact hwell
  · rw [queue, hring]
    exact hcontents

end Device

/-! ### Runs of the driver -/

/-- A call of the driver: the timer, with the values of `get_random_long`, a write of the `sysfs`
file or of the module parameter, and the file operations on a user buffer. -/
inductive Call where
  | timer (x y : UInt64)
  | store (parsed : Option ℤ)
  | parameter (displayMode : ℤ)
  | read (buf : List Bool)
  | write (buf : List (Option UInt8))

/-- What calls do: the device they leave, the bytes they put into the buffer and the bytes they take
out of it. -/
structure Outcome where
  device : Device
  accepted : List UInt8
  delivered : List UInt8

/-- Executes a call. -/
def Call.exec : Call → Device → Outcome
  | .timer x y, device =>
    let text := eventStr device.displayMode (randomValue x) (randomValue y)
    let run := simulateMouseData x y device
    ⟨run.2, text.take run.1, []⟩
  | .store parsed, device => ⟨modeStore parsed device, [], []⟩
  | .parameter displayMode, device => ⟨{ device with displayMode := displayMode }, [], []⟩
  | .read buf, device => ⟨(mouseRead buf device).device, [], (mouseRead buf device).bytes⟩
  | .write buf, device => ⟨(mouseWrite buf device).device, (mouseWrite buf device).bytes, []⟩

/-- Executes calls in order. -/
def runCalls : List Call → Device → Outcome
  | [], device => ⟨device, [], []⟩
  | call :: rest, device =>
    let first := call.exec device
    let later := runCalls rest first.device
    ⟨later.device, first.accepted ++ later.accepted, first.delivered ++ later.delivered⟩

/-- What calls must do to the queue: the bytes they accept go to the back, and the bytes they
deliver come from the front. -/
structure Outcome.Conserves (outcome : Outcome) (device : Device) : Prop where
  valid : outcome.device.Valid
  queue_eq : device.queue ++ outcome.accepted = outcome.delivered ++ outcome.device.queue

/-- A call keeps the device valid and the bytes in order. -/
theorem Call.conserves_exec (call : Call) {device : Device} (hdevice : device.Valid) :
    (call.exec device).Conserves device := by
  cases call with
  | timer x y =>
    have hloop := hdevice.simulateLoop
      (eventStr device.displayMode (randomValue x) (randomValue y))
    obtain ⟨hvalid, hcounter, hqueue⟩ := hloop
    refine ⟨hvalid, Eq.trans ?_ hqueue.symm⟩
    show device.queue ++ List.take (MouseDriver.simulateLoop _ device).1 _ = _
    rw [hcounter, Nat.min_comm, ← List.take_eq_take_min]
  | store parsed =>
    refine ⟨?_, ?_⟩
    · show (modeStore parsed device).ring.WellFormed bufferSize
      rw [ring_modeStore]
      exact hdevice
    · show device.queue ++ [] = (modeStore parsed device).ring.contents bufferSize
      rw [ring_modeStore, List.append_nil]
      rfl
  | parameter displayMode => exact ⟨hdevice, List.append_nil _⟩
  | read buf =>
    obtain ⟨hvalid, hbytes, hqueue⟩ := hdevice.mouseRead buf
    refine ⟨hvalid, ?_⟩
    show device.queue ++ [] = (mouseRead buf device).bytes ++ (mouseRead buf device).device.queue
    rw [hbytes, hqueue, List.take_append_drop, List.append_nil]
  | write buf =>
    obtain ⟨hvalid, hbytes, hqueue⟩ := hdevice.mouseWrite buf
    refine ⟨hvalid, ?_⟩
    show device.queue ++ (mouseWrite buf device).bytes = (mouseWrite buf device).device.queue
    rw [hbytes, hqueue]

/-- Calls keep the device valid and the bytes in order. -/
theorem conserves_runCalls (calls : List Call) {device : Device} (hdevice : device.Valid) :
    (runCalls calls device).Conserves device := by
  induction calls generalizing device with
  | nil => exact ⟨hdevice, List.append_nil _⟩
  | cons call rest ih =>
    have hfirst := call.conserves_exec hdevice
    have hlater := ih hfirst.valid
    refine ⟨hlater.valid, ?_⟩
    calc device.queue ++ ((call.exec device).accepted ++
          (runCalls rest (call.exec device).device).accepted)
        = (device.queue ++ (call.exec device).accepted) ++
            (runCalls rest (call.exec device).device).accepted := (List.append_assoc ..).symm
      _ = (call.exec device).delivered ++ ((call.exec device).device.queue ++
            (runCalls rest (call.exec device).device).accepted) := by
          rw [hfirst.queue_eq, List.append_assoc]
      _ = (call.exec device).delivered ++ ((runCalls rest (call.exec device).device).delivered ++
            (runCalls rest (call.exec device).device).device.queue) := by
          rw [hlater.queue_eq]
      _ = ((call.exec device).delivered ++
            (runCalls rest (call.exec device).device).delivered) ++
              (runCalls rest (call.exec device).device).device.queue :=
          (List.append_assoc ..).symm

/-! ### The law of the driver -/

/-- The mouse driver is a bounded queue. After any calls on a fresh device, both indices are inside
the buffer, the queue has at most 1023 bytes, and what was taken out followed by what is queued is
what was put in. From there, the timer appends the longest prefix of its text that fits, a write
appends the longest prefix of its data that fits and returns its length, and a read of `len` bytes
removes and delivers the first `len` bytes of the queue, or all if there are fewer, and returns
their number. -/
theorem mouse_bounded_fifo (mouseBuffer : ℕ → UInt8) (displayMode : ℤ) (calls : List Call) :
    let run := runCalls calls (mouseInit mouseBuffer displayMode)
    let queue := run.device.queue
    let room := bufferSize - 1 - queue.length
    run.device.head < bufferSize ∧ run.device.tail < bufferSize ∧
      queue.length ≤ bufferSize - 1 ∧
      run.delivered ++ queue = run.accepted ∧
      (∀ x y, (simulateMouseData x y run.device).2.queue =
        queue ++ (eventStr run.device.displayMode (randomValue x) (randomValue y)).take room) ∧
      (∀ data : List UInt8,
        (mouseWrite (data.map some) run.device).device.queue = queue ++ data.take room ∧
          (mouseWrite (data.map some) run.device).result = (data.take room).length) ∧
      ∀ len : ℕ,
        (mouseRead (List.replicate len true) run.device).bytes = queue.take (min len queue.length) ∧
          (mouseRead (List.replicate len true) run.device).device.queue =
            queue.drop (min len queue.length) ∧
          (mouseRead (List.replicate len true) run.device).result = min len queue.length := by
  intro run queue room
  have hsize : 0 < bufferSize := by decide
  have hfresh : (mouseInit mouseBuffer displayMode).Valid := ⟨hsize, hsize⟩
  have hrun := conserves_runCalls calls hfresh
  have hvalid : run.device.Valid := hrun.valid
  refine ⟨hvalid.head_lt, hvalid.tail_lt, hvalid.length_queue_le, hrun.queue_eq.symm,
    fun x y ↦ (hvalid.simulateLoop _).2.2, fun data ↦ ?_, fun len ↦ ?_⟩
  · obtain ⟨_, hbytes, hqueue⟩ := hvalid.mouseWrite (data.map some)
    rw [readable_map_some] at hbytes hqueue
    refine ⟨hqueue, ?_⟩
    rw [Transfer.result, fault_mouseWrite_map_some, hbytes]
    rfl
  · obtain ⟨_, hbytes, hqueue⟩ := hvalid.mouseRead (List.replicate len true)
    have hlen : ((List.replicate len true).takeWhile id).length = len := by
      rw [List.takeWhile_replicate_eq_filter, List.filter_replicate_of_pos rfl,
        List.length_replicate]
    rw [hlen] at hbytes hqueue
    refine ⟨?_, ?_, ?_⟩
    · rw [hbytes, List.take_eq_take_min]
    · rw [hqueue, List.drop_eq_drop_iff, Nat.min_assoc, Nat.min_self]
    · rw [Transfer.result, fault_mouseRead_replicate, hbytes, List.length_take]
      rfl

end Homework.MouseDriver
