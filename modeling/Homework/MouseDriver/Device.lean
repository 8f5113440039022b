import Homework.Library.RingBuffer
import Mathlib.Algebra.Order.Group.Unbundled.Int

/-!
# The mouse driver

The driver keeps the text of simulated mouse events in a ring buffer. A timer appends the text of an
event (`simulate_mouse_data`), a process appends bytes of its own (`mouse_write`), and a process
takes bytes out (`mouse_read`). Each of the three runs under the mutex of the driver, so a call is
one step.

A user buffer is given byte by byte: `none` in a buffer to write stands for a byte that
`copy_from_user` cannot read, and `false` in a buffer to read into for a byte that `put_user` cannot
write.
-/

set_option autoImplicit false
set_option relaxedAutoImplicit false

namespace Homework.MouseDriver

open Homework.Library

/-! ### The device -/

/-- `buffer_size`, which nothing changes. -/
def bufferSize : ℕ := 1024

/-- The static variables of the driver. The buffer is the memory from `mouse_buffer` on. -/
structure Device where
  mouseBuffer : ℕ → UInt8
  head : ℕ
  tail : ℕ
  displayMode : ℤ

namespace Device

/-- `BUF_EMPTY`. -/
def BufEmpty (device : Device) : Prop := device.head = device.tail

/-- `BUF_FULL`. -/
def BufFull (device : Device) : Prop := (device.head + 1) % bufferSize = device.tail

instance (device : Device) : Decidable device.BufEmpty :=
  inferInstanceAs (Decidable (device.head = device.tail))

instance (device : Device) : Decidable device.BufFull :=
  inferInstanceAs (Decidable ((device.head + 1) % bufferSize = device.tail))

/-- `mouse_buffer[head] = ch` and `head = (head + 1) % buffer_size`. -/
def put (device : Device) (ch : UInt8) : Device :=
  { device with
    mouseBuffer := Function.update device.mouseBuffer device.head ch
    head := (device.head + 1) % bufferSize }

/-- `tail = (tail + 1) % buffer_size`. -/
def advance (device : Device) : Device :=
  { device with tail := (device.tail + 1) % bufferSize }

/-- The ring buffer of the device. -/
def ring (device : Device) : RingBuffer UInt8 :=
  ⟨device.mouseBuffer, device.head, device.tail⟩

/-- The queue of the device: the bytes from `tail` to `head`, cyclically. -/
def queue (device : Device) : List UInt8 := device.ring.contents bufferSize

end Device

/-- The device after `mouse_init`: memory from `kmalloc`, and an empty buffer. -/
def mouseInit (mouseBuffer : ℕ → UInt8) (displayMode : ℤ) : Device :=
  ⟨mouseBuffer, 0, 0, displayMode⟩

/-! ### Simulated events -/

/-- `"MOUSE_X:"`. -/
def mouseX : List UInt8 := [77, 79, 85, 83, 69, 95, 88, 58]

/-- `"MOUSE_Y:"`. -/
def mouseY : List UInt8 := [77, 79, 85, 83, 69, 95, 89, 58]

/-- The conversion `%d`. -/
def intText (value : ℤ) : List UInt8 :=
  (if value < 0 then [45] else []) ++
    (Nat.toDigits 10 value.natAbs).map fun digit ↦ UInt8.ofNat digit.toNat

/-- `get_random_long() % 10 - 5`, computed in `unsigned long` and stored in an `int`. -/
def randomValue (random : UInt64) : ℤ := (random % 10 - 5).toUInt32.toInt32.toInt

/-- The text that `simulate_mouse_data` prints to `event_str`. -/
def eventStr (displayMode xValue yValue : ℤ) : List UInt8 :=
  match displayMode with
  | 0 => mouseX ++ intText xValue ++ [10]
  | 1 => mouseY ++ intText yValue ++ [10]
  | _ => mouseX ++ intText xValue ++ [10] ++ mouseY ++ intText yValue ++ [10]

/-- The random values are between `-5` and `4`. -/
theorem randomValue_eq (random : UInt64) : randomValue random = random.toNat % 10 - 5 := by
  have hlt : (random % 10).toNat < 10 := by
    rw [UInt64.toNat_mod]
    exact Nat.mod_lt _ (by decide)
  have hcases : ∀ small : ℕ, small < 10 →
      (UInt64.ofNat small - 5).toUInt32.toInt32.toInt = (small : ℤ) - 5 := by decide
  have hsmall := hcases _ hlt
  rw [UInt64.ofNat_toNat] at hsmall
  unfold randomValue
  rw [hsmall, UInt64.toNat_mod]
  rfl

/-- The text of an event fits in `event_str`, which has 100 bytes with the terminating zero, so
`snprintf` cuts nothing off. -/
theorem length_eventStr_lt (displayMode : ℤ) (x y : UInt64) :
    (eventStr displayMode (randomValue x) (randomValue y)).length < 100 := by
  have hvalue : ∀ random : UInt64, (intText (randomValue random)).length ≤ 2 := by
    intro random
    have hcases : ∀ small : Fin 10, (intText ((small : ℤ) - 5)).length ≤ 2 := by decide
    have hsmall := hcases ⟨random.toNat % 10, Nat.mod_lt _ (by decide)⟩
    rw [randomValue_eq]
    exact hsmall
  have hx := hvalue x
  have hy := hvalue y
  unfold eventStr
  split <;> simp only [List.length_append, mouseX, mouseY, List.length_cons, List.length_nil] <;>
    omega

/-- The loop of `simulate_mouse_data`. Gives the loop counter at the exit and the device. -/
def simulateLoop : List UInt8 → Device → ℕ × Device
  | [], device => (0, device)
  | ch :: rest, device =>
    if device.BufFull then (0, device)
    else ((simulateLoop rest (device.put ch)).1 + 1, (simulateLoop rest (device.put ch)).2)

/-- `simulate_mouse_data`, for the values of the two calls of `get_random_long`. -/
def simulateMouseData (x y : UInt64) (device : Device) : ℕ × Device :=
  simulateLoop (eventStr device.displayMode (randomValue x) (randomValue y)) device

/-! ### The file operations -/

/-- How the loop of a file operation exits: with a fault or not, the bytes transferred, and the
device. -/
structure Transfer where
  fault : Bool
  bytes : List UInt8
  device : Device

/-- The return value of a file operation: the number of bytes, or `-EFAULT`. -/
def Transfer.result (transfer : Transfer) : ℤ :=
  if transfer.fault then -14 else transfer.bytes.length

/-- `mouse_read` into a user buffer. The counter `copied` is the number of bytes transferred. -/
def mouseRead : List Bool → Device → Transfer
  | [], device => ⟨false, [], device⟩
  | writable :: rest, device =>
    if device.BufEmpty then ⟨false, [], device⟩
    else if !writable then ⟨true, [], device⟩
    else
      let later := mouseRead rest device.advance
      ⟨later.fault, device.mouseBuffer device.tail :: later.bytes, later.device⟩

/-- `mouse_write` from a user buffer. The counter `i` is the number of bytes transferred to the
ring buffer. -/
def mouseWrite : List (Option UInt8) → Device → Transfer
  | [], device => ⟨false, [], device⟩
  | none :: _, device => ⟨true, [], device⟩
  | some ch :: rest, device =>
    if device.BufFull then ⟨false, [], device⟩
    else
      let later := mouseWrite rest (device.put ch)
      ⟨later.fault, ch :: later.bytes, later.device⟩

/-- `mode_store`, for what `kstrtoint` makes of the text. -/
def modeStore (parsed : Option ℤ) (device : Device) : Device :=
  match parsed with
  | none => device
  | some newMode =>
    if newMode ≥ 0 ∧ newMode ≤ 2 then { device with displayMode := newMode } else device

/-- The mode is not part of the ring buffer. -/
theorem ring_modeStore (parsed : Option ℤ) (device : Device) :
    (modeStore parsed device).ring = device.ring := by
  rcases parsed with _ | newMode
  · rfl
  · rw [modeStore]
    split_ifs <;> rfl

end Homework.MouseDriver
