import Homework.Library.ByteBuffer

/-!
# Little-endian reads and DOS timestamps

The helpers of `detail.c` that the ZIP reader is written with: `read16le` and `read32le` decode the
fields of a record, `dos2ctime` its timestamp. `mktime` belongs to the C library and to the time
zone the program runs in, so it is a parameter.

`word16` and `word32` are the decoded words without the bounds check. `read16_of_inside` and
`read32_of_inside` say that a read inside the buffer gives them and advances the pointer.
-/

set_option autoImplicit false
set_option relaxedAutoImplicit false

namespace Homework.Zip

open Library.ByteBuffer

/-! ### Reads -/

/-- `read16le`: the 16-bit word stored at `p`, least significant byte first. -/
def read16le (buffer : List UInt8) (p : ℤ) : Except Fault UInt16 := do
  let b0 ← readByte buffer p
  let b1 ← readByte buffer (p + 1)
  return b0.toUInt16 ||| b1.toUInt16 <<< 8

/-- `read32le`: the 32-bit word stored at `p`, least significant byte first. -/
def read32le (buffer : List UInt8) (p : ℤ) : Except Fault UInt32 := do
  let b0 ← readByte buffer p
  let b1 ← readByte buffer (p + 1)
  let b2 ← readByte buffer (p + 2)
  let b3 ← readByte buffer (p + 3)
  return b0.toUInt32 ||| b1.toUInt32 <<< 8 ||| b2.toUInt32 <<< 16 ||| b3.toUInt32 <<< 24

/-- The macro `READ16(p)`: the word at `p`, and `p` moved past it. -/
def read16 (buffer : List UInt8) (p : ℤ) : Except Fault (UInt16 × ℤ) := do
  let value ← read16le buffer p
  return (value, p + 2)

/-- The macro `READ32(p)`: the word at `p`, and `p` moved past it. -/
def read32 (buffer : List UInt8) (p : ℤ) : Except Fault (UInt32 × ℤ) := do
  let value ← read32le buffer p
  return (value, p + 4)

/-- The 16-bit word at `p`, with zero bytes outside the buffer. -/
def word16 (buffer : List UInt8) (p : ℤ) : UInt16 :=
  (byte buffer p).toUInt16 ||| (byte buffer (p + 1)).toUInt16 <<< 8

/-- The 32-bit word at `p`, with zero bytes outside the buffer. -/
def word32 (buffer : List UInt8) (p : ℤ) : UInt32 :=
  (byte buffer p).toUInt32 ||| (byte buffer (p + 1)).toUInt32 <<< 8 |||
    (byte buffer (p + 2)).toUInt32 <<< 16 ||| (byte buffer (p + 3)).toUInt32 <<< 24

theorem read16_of_inside {buffer : List UInt8} {p : ℤ} (hlow : 0 ≤ p)
    (hhigh : p + 2 ≤ buffer.length) : read16 buffer p = .ok (word16 buffer p, p + 2) := by
  rw [read16, read16le, readByte_of_inside hlow (by omega), ok_bind,
    readByte_of_inside (by omega) (by omega)]
  rfl

theorem read32_of_inside {buffer : List UInt8} {p : ℤ} (hlow : 0 ≤ p)
    (hhigh : p + 4 ≤ buffer.length) : read32 buffer p = .ok (word32 buffer p, p + 4) := by
  rw [read32, read32le, readByte_of_inside hlow (by omega), ok_bind,
    readByte_of_inside (by omega) (by omega), ok_bind,
    readByte_of_inside (by omega) (by omega), ok_bind, readByte_of_inside (by omega) (by omega)]
  rfl

theorem read32_of_neg {buffer : List UInt8} {p : ℤ} (hlow : p < 0) :
    read32 buffer p = .error (.outside p) := by
  rw [read32, read32le, readByte_of_neg hlow]
  rfl

theorem word16_append (front buffer : List UInt8) {p : ℤ} (hlow : 0 ≤ p) :
    word16 (front ++ buffer) (front.length + p) = word16 buffer p := by
  simp only [word16, add_assoc, byte_append front buffer hlow,
    byte_append front buffer (show 0 ≤ p + 1 by omega)]

theorem word32_append (front buffer : List UInt8) {p : ℤ} (hlow : 0 ≤ p) :
    word32 (front ++ buffer) (front.length + p) = word32 buffer p := by
  simp only [word32, add_assoc, byte_append front buffer hlow,
    byte_append front buffer (show 0 ≤ p + 1 by omega),
    byte_append front buffer (show 0 ≤ p + 2 by omega),
    byte_append front buffer (show 0 ≤ p + 3 by omega)]

/-! ### Timestamps -/

/-- The fields of `struct tm` that `dos2ctime` sets. -/
structure Tm where
  tmSec : ℤ
  tmMin : ℤ
  tmHour : ℤ
  tmMday : ℤ
  tmMon : ℤ
  tmYear : ℤ
  tmIsdst : ℤ
  deriving DecidableEq, Repr

/-- `dos2ctime`: the time a DOS date and time stand for, by the C library's `mktime`. -/
def dos2ctime (mktime : Tm → ℤ) (dosDate dosTime : UInt16) : ℤ :=
  mktime {
    tmSec := (dosTime &&& 0x1f).toNat * 2
    tmMin := ((dosTime >>> 5) &&& 0x3f).toNat
    tmHour := (dosTime >>> 11).toNat
    tmMday := (dosDate &&& 0x1f).toNat
    tmMon := ((dosDate >>> 5) &&& 0xf).toNat - 1
    tmYear := (dosDate >>> 9).toNat + 80
    tmIsdst := -1 }

end Homework.Zip
