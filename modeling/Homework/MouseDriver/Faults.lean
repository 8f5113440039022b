import Homework.MouseDriver.Queue

/-!
# Faults of the user buffer

`mouse_read` and `mouse_write` transfer byte by byte and return `-EFAULT` at the first byte that the
user buffer does not take or give, without a word about the bytes before it. Those have left the
queue or are in it. So an error leaves the device as it was exactly when the first byte already
faults (`error_unchanged_iff`).

A call only faults if it gets to the bad byte: a read stops before it when the queue is empty, and a
write when the queue is full. But `mouse_write` fetches a byte before it looks for room, so a bad
byte for which there is no room is a fault as well.
-/

set_option autoImplicit false
set_option relaxedAutoImplicit false

namespace Homework.MouseDriver

open Homework.Library RingBuffer

/-- A device has the indices and the queue of another. -/
structure Device.Unchanged (before after : Device) : Prop where
  head_eq : after.head = before.head
  tail_eq : after.tail = before.tail
  queue_eq : after.queue = before.queue

theorem Device.unchanged_self (device : Device) : device.Unchanged device :=
  ⟨rfl, rfl, rfl⟩

/-- The number of bytes that a user buffer takes before the first one that cannot be written. -/
def writable (buf : List Bool) : ℕ := (buf.takeWhile id).length

theorem Transfer.result_eq_efault_iff (transfer : Transfer) :
    transfer.result = -14 ↔ transfer.fault = true := by
  unfold Transfer.result
  split_ifs with hfault
  · exact iff_of_true rfl hfault
  · refine iff_of_false (fun hcount ↦ ?_) hfault
    omega

/-! ### When a call faults -/

namespace Device

/-- A read faults exactly when it gets to a byte that cannot be written. -/
theorem Valid.fault_mouseRead_iff {device : Device} (hdevice : device.Valid) (buf : List Bool) :
    (MouseDriver.mouseRead buf device).fault = true ↔
      writable buf < buf.length ∧ writable buf < device.queue.length := by
  induction buf generalizing device with
  | nil => exact iff_of_false Bool.false_ne_true fun hboth ↦ absurd hboth.1 (Nat.not_lt_zero _)
  | cons flag rest ih =>
    rw [MouseDriver.mouseRead]
    by_cases hempty : device.BufEmpty
    · have hqueue : device.queue = [] := hdevice.contents_eq_nil_iff.mpr hempty
      rw [if_pos hempty, hqueue]
      exact iff_of_false Bool.false_ne_true fun hboth ↦ absurd hboth.2 (Nat.not_lt_zero _)
    · have hqueue : device.queue.length = device.advance.queue.length + 1 :=
        congrArg List.length (hdevice.contents_eq_cons hempty)
      rw [if_neg hempty, hqueue]
      cases flag with
      | false => exact iff_of_true rfl ⟨Nat.zero_lt_succ _, Nat.zero_lt_succ _⟩
      | true =>
        have hrest := ih (show device.advance.Valid from hdevice.pop)
        have hflags : writable (true :: rest) = writable rest + 1 := rfl
        rw [hflags, List.length_cons, Nat.add_lt_add_iff_right, Nat.add_lt_add_iff_right]
        exact hrest

/-- A write faults exactly when it gets to a byte that cannot be read, which may be one that there
is no room for. -/
theorem Valid.fault_mouseWrite_iff {device : Device} (hdevice : device.Valid)
    (buf : List (Option UInt8)) : (MouseDriver.mouseWrite buf device).fault = true ↔
      (readable buf).length < buf.length ∧ (readable buf).length ≤ device.room := by
  induction buf generalizing device with
  | nil => exact iff_of_false Bool.false_ne_true fun hboth ↦ absurd hboth.1 (Nat.not_lt_zero _)
  | cons byte rest ih =>
    rcases byte with _ | ch
    · exact iff_of_true rfl ⟨Nat.zero_lt_succ _, Nat.zero_le _⟩
    · have hbytes : (readable (some ch :: rest)).length = (readable rest).length + 1 := rfl
      rw [MouseDriver.mouseWrite, hbytes, List.length_cons, Nat.add_lt_add_iff_right]
      have hcount := hdevice.count_lt
      by_cases hfull : device.BufFull
      · have hlast := hdevice.isFull_iff.mp hfull
        rw [if_pos hfull, room_eq]
        exact iff_of_false Bool.false_ne_true fun hboth ↦ by omega
      · have hmore : (device.put ch).ring.count bufferSize = device.ring.count bufferSize + 1 :=
          hdevice.count_push ch hfull
        have hlast := mt hdevice.isFull_iff.mpr hfull
        have hroom : device.room = (device.put ch).room + 1 := by
          rw [room_eq, room_eq, hmore]
          omega
        rw [if_neg hfull, hroom, Nat.add_le_add_iff_right]
        exact ih (show (device.put ch).Valid from hdevice.push ch)

end Device

/-! ### What an error has done -/

/-- A read whose first byte cannot be written does nothing. -/
theorem mouseRead_of_writable_eq_zero {buf : List Bool} (hzero : writable buf = 0)
    (device : Device) : (mouseRead buf device).device = device := by
  rcases buf with _ | ⟨_ | _, rest⟩
  · rfl
  · rw [mouseRead]
    split_ifs with hempty hbad
    · rfl
    · rfl
    · exact absurd rfl hbad
  · exact absurd hzero (Nat.succ_ne_zero _)

/-- A write whose first byte cannot be read does nothing. -/
theorem mouseWrite_of_readable_eq_nil {buf : List (Option UInt8)}
    (hzero : (readable buf).length = 0) (device : Device) :
    (mouseWrite buf device).device = device := by
  rcases buf with _ | ⟨_ | ch, rest⟩
  · rfl
  · rfl
  · exact absurd hzero (Nat.succ_ne_zero _)

/-- When a call faults if it gets to a bad byte, and an error is clean only if that byte is the
first, then errors are clean exactly if a bad byte is the first or out of reach. -/
theorem clean_iff {fault clean bad reached first : Prop} (hfault : fault ↔ bad ∧ reached)
    (hclean : fault → (clean ↔ first)) : (fault → clean) ↔ (bad → first ∨ ¬ reached) := by
  constructor
  · intro herror hbad
    by_cases hreached : reached
    · have hfaults := hfault.mpr ⟨hbad, hreached⟩
      exact Or.inl ((hclean hfaults).mp (herror hfaults))
    · exact Or.inr hreached
  · intro hfirst hfaults
    obtain ⟨hbad, hreached⟩ := hfault.mp hfaults
    exact (hclean hfaults).mpr ((hfirst hbad).resolve_right (not_not.mpr hreached))

section Errors

variable {device : Device} (hdevice : device.Valid)
include hdevice

/-- A faulting read leaves the device as it was exactly when its first byte faults. -/
theorem unchanged_mouseRead_iff {buf : List Bool} (hfault : (mouseRead buf device).fault = true) :
    device.Unchanged (mouseRead buf device).device ↔ writable buf = 0 := by
  obtain ⟨-, hqueue⟩ := (hdevice.fault_mouseRead_iff buf).mp hfault
  constructor
  · intro hunchanged
    have hlength := congrArg List.length
      (hunchanged.queue_eq.symm.trans (hdevice.mouseRead buf).2.2)
    rw [List.length_drop] at hlength
    unfold writable at hqueue ⊢
    omega
  · intro hzero
    rw [mouseRead_of_writable_eq_zero hzero]
    exact device.unchanged_self

/-- A faulting write leaves the device as it was exactly when its first byte faults. -/
theorem unchanged_mouseWrite_iff {buf : List (Option UInt8)}
    (hfault : (mouseWrite buf device).fault = true) :
    device.Unchanged (mouseWrite buf device).device ↔ (readable buf).length = 0 := by
  obtain ⟨-, hroom⟩ := (hdevice.fault_mouseWrite_iff buf).mp hfault
  constructor
  · intro hunchanged
    have hlength := congrArg List.length
      (hunchanged.queue_eq.symm.trans (hdevice.mouseWrite buf).2.2)
    rw [List.length_append, List.length_take] at hlength
    omega
  · intro hzero
    rw [mouseWrite_of_readable_eq_nil hzero]
    exact device.unchanged_self

/-- An error leaves the device as it was exactly when the first byte faults. For every device, a
read that returns `-EFAULT` does so if the first byte that cannot be written is the first byte of
the buffer, or is not reached because the queue is empty before; a write does so if the first byte
that cannot be read is the first byte of the buffer, or is not reached because the queue is full
before. -/
theorem error_unchanged_iff :
    (∀ buf, ((mouseRead buf device).result = -14 →
        device.Unchanged (mouseRead buf device).device) ↔
      (writable buf < buf.length → writable buf = 0 ∨ device.queue.length ≤ writable buf)) ∧
      ∀ buf, ((mouseWrite buf device).result = -14 →
          device.Unchanged (mouseWrite buf device).device) ↔
        ((readable buf).length < buf.length →
          (readable buf).length = 0 ∨ device.room < (readable buf).length) := by
  refine ⟨fun buf ↦ ?_, fun buf ↦ ?_⟩
  · rw [Transfer.result_eq_efault_iff, ← @not_lt _ _ _ device.queue.length]
    exact clean_iff (hdevice.fault_mouseRead_iff buf) fun hfault ↦
      unchanged_mouseRead_iff hdevice hfault
  · rw [Transfer.result_eq_efault_iff, ← @not_le _ _ _ device.room]
    exact clean_iff (hdevice.fault_mouseWrite_iff buf) fun hfault ↦
      unchanged_mouseWrite_iff hdevice hfault

end Errors

/-! ### Two bytes in the queue -/

/-- A device with two bytes in its queue. -/
def twoBytes : Device := ⟨fun _ ↦ 65, 2, 0, 0⟩

/-- A read into a buffer whose first byte cannot be written leaves the bytes in the queue. -/
theorem twoBytes_unchanged : twoBytes.Unchanged (mouseRead [false] twoBytes).device :=
  ((error_unchanged_iff (show twoBytes.Valid from ⟨by decide, by decide⟩)).1 [false]).mpr
    (fun _ ↦ Or.inl rfl) rfl

/-- A read into a buffer whose second byte cannot be written returns an error and loses the first
byte; a write from such a buffer returns an error and has stored the first byte. -/
theorem twoBytes_changed :
    (mouseRead [true, false] twoBytes).result = -14 ∧
      ¬ twoBytes.Unchanged (mouseRead [true, false] twoBytes).device ∧
      (mouseWrite [some 66, none] twoBytes).result = -14 ∧
      ¬ twoBytes.Unchanged (mouseWrite [some 66, none] twoBytes).device :=
  ⟨rfl, fun hsame ↦ absurd hsame.tail_eq (by decide), rfl, fun hsame ↦
    absurd hsame.head_eq (by decide)⟩

end Homework.MouseDriver
