import Mathlib.Data.List.GetD
import Mathlib.Tactic.Linarith

/-!
# Checked reads from a byte buffer

A C function that walks a buffer through pointers can go wrong in two ways that its return value
does not show: it inspects a byte outside the buffer, or one of its assertions fails. `Fault` names
the two, and a function is modelled in `Except Fault`, so a run that ends in a value inspected only
bytes of the buffer. Pointers are integers, counted from the start of the buffer, because pointer
arithmetic can also step in front of it.

`readByte` is the checked read and `byte` the total one. `readByte_of_inside` and
`readByte_of_neg` connect the two, and everything read through `byte` and `slice` moves with the
buffer when bytes are put in front of it (`byte_append`, `slice_append`). The last part encodes
16-bit and 32-bit words in little-endian order, with the round trips `le16_roundtrip` and
`le32_roundtrip`.
-/

set_option autoImplicit false
set_option relaxedAutoImplicit false

namespace Homework.Library.ByteBuffer

/-! ### Faults and checked reads -/

/-- What can go wrong in a run: a byte outside the buffer is inspected, at an index counted from
the start of the buffer, or an assertion fails. -/
inductive Fault
  | outside (index : ℤ)
  | assertion
  deriving DecidableEq, Repr

/-- An assertion of the program: the run stops with a fault when the condition is false. -/
def assert (condition : Prop) [Decidable condition] : Except Fault Unit :=
  if condition then .ok () else .error .assertion

/-- The byte at an index, and zero outside the buffer. -/
def byte (buffer : List UInt8) (index : ℤ) : UInt8 :=
  buffer.getD index.toNat 0

/-- The checked read of one byte. -/
def readByte (buffer : List UInt8) (index : ℤ) : Except Fault UInt8 :=
  if 0 ≤ index ∧ index < buffer.length then .ok (byte buffer index) else .error (.outside index)

/-- The `length` bytes from an index on. -/
def slice (buffer : List UInt8) (index : ℤ) (length : ℕ) : List UInt8 :=
  (buffer.drop index.toNat).take length

@[simp] theorem ok_bind {E α β : Type} (value : α) (next : α → Except E β) :
    ((Except.ok value : Except E α) >>= next) = next value :=
  rfl

@[simp] theorem error_bind {E α β : Type} (fault : E) (next : α → Except E β) :
    ((Except.error fault : Except E α) >>= next) = .error fault :=
  rfl

@[simp] theorem pure_eq_ok {E α : Type} (value : α) :
    (pure value : Except E α) = .ok value :=
  rfl

/-- A run of two steps that ends in a value ends the first step in a value. -/
theorem bind_eq_ok {E α β : Type} {first : Except E α} {next : α → Except E β} {result : β}
    (h : (first >>= next) = .ok result) : ∃ value, first = .ok value ∧ next value = .ok result := by
  cases first with
  | error fault => cases h
  | ok value => exact ⟨value, rfl, h⟩

theorem assert_of_true {condition : Prop} [Decidable condition] (h : condition) :
    assert condition = .ok () :=
  if_pos h

theorem readByte_of_inside {buffer : List UInt8} {index : ℤ} (hlow : 0 ≤ index)
    (hhigh : index < buffer.length) : readByte buffer index = .ok (byte buffer index) :=
  if_pos ⟨hlow, hhigh⟩

theorem readByte_of_neg {buffer : List UInt8} {index : ℤ} (hlow : index < 0) :
    readByte buffer index = .error (.outside index) :=
  if_neg fun h ↦ absurd h.1 (not_le.mpr hlow)

/-! ### Bytes in front of the buffer -/

theorem byte_append (front buffer : List UInt8) {index : ℤ} (hlow : 0 ≤ index) :
    byte (front ++ buffer) (front.length + index) = byte buffer index := by
  have hnat : ((front.length : ℤ) + index).toNat = front.length + index.toNat := by omega
  rw [byte, byte, hnat, List.getD_append_right _ _ _ _ (Nat.le_add_right _ _),
    Nat.add_sub_cancel_left]

theorem slice_append (front buffer : List UInt8) {index : ℤ} (hlow : 0 ≤ index) (length : ℕ) :
    slice (front ++ buffer) (front.length + index) length = slice buffer index length := by
  have hnat : ((front.length : ℤ) + index).toNat = front.length + index.toNat := by omega
  rw [slice, slice, hnat, ← List.drop_drop, List.drop_left]

/-- A slice that lies inside the buffer has the length asked for. -/
theorem length_slice {buffer : List UInt8} {index : ℤ} {length : ℕ} (hlow : 0 ≤ index)
    (hhigh : index + length ≤ buffer.length) : (slice buffer index length).length = length := by
  rw [slice, List.length_take, List.length_drop]
  omega

/-- The slice that begins where a front part ends and spells a middle part. -/
theorem slice_middle (front middle back : List UInt8) :
    slice (front ++ (middle ++ back)) front.length middle.length = middle := by
  rw [slice, Int.toNat_natCast, List.drop_left, List.take_left]

/-- A slice starts with its first byte. -/
theorem slice_succ {buffer : List UInt8} {index : ℤ} {length : ℕ} (hlow : 0 ≤ index)
    (hhigh : index < buffer.length) :
    slice buffer index (length + 1) = byte buffer index :: slice buffer (index + 1) length := by
  have hin : index.toNat < buffer.length := by omega
  have hnext : (index + 1).toNat = index.toNat + 1 := by omega
  rw [slice, slice, byte, hnext, List.drop_eq_getElem_cons hin, List.take_succ_cons,
    List.getD_eq_getElem _ _ hin]

theorem mem_slice_iff {buffer : List UInt8} {index : ℤ} {length : ℕ} {value : UInt8}
    (hlow : 0 ≤ index) (hhigh : index + length ≤ buffer.length) :
    value ∈ slice buffer index length ↔ ∃ step < length, byte buffer (index + step) = value := by
  have hget (step : ℕ) (hstep : step < length) :
      (slice buffer index length)[step]? = some (byte buffer (index + step)) := by
    have hnat : (index + (step : ℤ)).toNat = index.toNat + step := by omega
    have hin : index.toNat + step < buffer.length := by omega
    rw [slice, List.getElem?_take_of_lt hstep, List.getElem?_drop, byte, hnat,
      List.getD_eq_getElem?_getD, List.getElem?_eq_getElem hin, Option.getD_some]
  rw [List.mem_iff_getElem?]
  constructor
  · rintro ⟨step, hstep⟩
    have hlt : step < length := by
      have hbound := (List.getElem?_eq_some_iff.mp hstep).1
      rwa [length_slice hlow hhigh] at hbound
    refine ⟨step, hlt, ?_⟩
    rw [hget step hlt] at hstep
    exact Option.some.inj hstep
  · rintro ⟨step, hlt, rfl⟩
    exact ⟨step, hget step hlt⟩

/-- A slice holds its first byte and the bytes of the slice after it. -/
theorem mem_slice_succ_iff {buffer : List UInt8} {index : ℤ} {length : ℕ} {value : UInt8}
    (hlow : 0 ≤ index) (hhigh : index + (length + 1 : ℕ) ≤ buffer.length) :
    value ∈ slice buffer index (length + 1) ↔
      byte buffer index = value ∨ value ∈ slice buffer (index + 1) length := by
  rw [mem_slice_iff hlow hhigh, mem_slice_iff (by omega) (by omega)]
  constructor
  · rintro ⟨step, hstep, hvalue⟩
    cases step with
    | zero => left; simpa using hvalue
    | succ step =>
      right
      refine ⟨step, by omega, ?_⟩
      rwa [add_assoc, add_comm (1 : ℤ), ← Nat.cast_succ]
  · rintro (hvalue | ⟨step, hstep, hvalue⟩)
    · exact ⟨0, Nat.succ_pos _, by simpa using hvalue⟩
    · refine ⟨step + 1, by omega, ?_⟩
      rwa [Nat.cast_succ, add_comm (step : ℤ), ← add_assoc]

/-! ### Little-endian words -/

/-- The two bytes of a 16-bit word, least significant first. -/
def le16 (word : UInt16) : List UInt8 :=
  [word.toUInt8, (word >>> 8).toUInt8]

/-- The four bytes of a 32-bit word, least significant first. -/
def le32 (word : UInt32) : List UInt8 :=
  [word.toUInt8, (word >>> 8).toUInt8, (word >>> 16).toUInt8, (word >>> 24).toUInt8]

/-- A disjunction with a number shifted past it is a sum. -/
theorem or_shiftLeft_eq_add {low width : ℕ} (hlow : low < 2 ^ width) (high : ℕ) :
    low ||| high <<< width = low + high * 2 ^ width := by
  rw [Nat.or_comm, ← Nat.shiftLeft_add_eq_or_of_lt hlow, Nat.shiftLeft_eq, Nat.add_comm]

/-- The number that two bytes spell, least significant first. -/
theorem toNat_or_bytes16 (b0 b1 : UInt8) :
    (b0.toUInt16 ||| b1.toUInt16 <<< 8).toNat = b0.toNat + b1.toNat * 2 ^ 8 := by
  have hb1 := b1.toNat_lt
  have hshift : b1.toNat <<< 8 % 2 ^ 16 = b1.toNat <<< 8 := by
    rw [Nat.shiftLeft_eq]
    exact Nat.mod_eq_of_lt (by omega)
  simp only [UInt16.toNat_or, UInt16.toNat_shiftLeft, UInt8.toNat_toUInt16, UInt16.reduceToNat,
    Nat.reduceMod]
  rw [hshift, or_shiftLeft_eq_add b0.toNat_lt]

/-- The number that four bytes spell, least significant first. -/
theorem toNat_or_bytes32 (b0 b1 b2 b3 : UInt8) :
    (b0.toUInt32 ||| b1.toUInt32 <<< 8 ||| b2.toUInt32 <<< 16 ||| b3.toUInt32 <<< 24).toNat =
      b0.toNat + b1.toNat * 2 ^ 8 + b2.toNat * 2 ^ 16 + b3.toNat * 2 ^ 24 := by
  have hshift (b : UInt8) (width : ℕ) (hwidth : width ≤ 24) :
      b.toNat <<< width % 2 ^ 32 = b.toNat <<< width := by
    rw [Nat.shiftLeft_eq]
    refine Nat.mod_eq_of_lt ?_
    calc b.toNat * 2 ^ width
        < 2 ^ 8 * 2 ^ width := Nat.mul_lt_mul_of_pos_right b.toNat_lt (by positivity)
      _ ≤ 2 ^ 8 * 2 ^ 24 := Nat.mul_le_mul_left _ (Nat.pow_le_pow_right (by norm_num) hwidth)
      _ = 2 ^ 32 := by norm_num
  simp only [UInt32.toNat_or, UInt32.toNat_shiftLeft, UInt8.toNat_toUInt32, UInt32.reduceToNat,
    Nat.reduceMod]
  have hb0 := b0.toNat_lt
  have hb1 := b1.toNat_lt
  have hb2 := b2.toNat_lt
  have hlow : b0.toNat + b1.toNat * 2 ^ 8 < 2 ^ 16 := by omega
  have hmiddle : b0.toNat + b1.toNat * 2 ^ 8 + b2.toNat * 2 ^ 16 < 2 ^ 24 := by omega
  rw [hshift b1 8 (by norm_num), hshift b2 16 (by norm_num), hshift b3 24 (by norm_num),
    or_shiftLeft_eq_add hb0, or_shiftLeft_eq_add hlow, or_shiftLeft_eq_add hmiddle]

/-- Putting the two bytes of a 16-bit word together again gives the word. -/
theorem le16_roundtrip (word : UInt16) :
    word.toUInt8.toUInt16 ||| (word >>> 8).toUInt8.toUInt16 <<< 8 = word := by
  apply UInt16.toNat_inj.mp
  have hword := word.toNat_lt
  simp only [toNat_or_bytes16, UInt16.toNat_shiftRight, UInt16.toNat_toUInt8, UInt16.reduceToNat,
    Nat.reduceMod, Nat.shiftRight_eq_div_pow]
  omega

/-- Putting the four bytes of a 32-bit word together again gives the word. -/
theorem le32_roundtrip (word : UInt32) :
    word.toUInt8.toUInt32 ||| (word >>> 8).toUInt8.toUInt32 <<< 8 |||
      (word >>> 16).toUInt8.toUInt32 <<< 16 ||| (word >>> 24).toUInt8.toUInt32 <<< 24 = word := by
  apply UInt32.toNat_inj.mp
  have hword := word.toNat_lt
  simp only [toNat_or_bytes32, UInt32.toNat_shiftRight, UInt32.toNat_toUInt8, UInt32.reduceToNat,
    Nat.reduceMod, Nat.shiftRight_eq_div_pow]
  omega

end Homework.Library.ByteBuffer
