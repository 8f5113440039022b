import Homework.Library.CString
import Mathlib.Algebra.Order.Ring.Int

/-!
# Text input

`fgets` takes a text up to and with the next newline, as far as its buffer has room, so a text is
read in pieces, each of which is a line or fills the buffer. The conversions of `scanf` for signed
numbers skip blanks and take a sign in front of the digits, and a number that is no `long` is stored
as the nearest one.
-/

set_option autoImplicit false
set_option relaxedAutoImplicit false

namespace Homework.Library.TextInput

/-! ### `fgets` -/

/-- The newline. -/
def newline : UInt8 := 10

/-- `fgets` into a buffer with room for `room` bytes and the terminating zero: the bytes it takes,
up to and with a newline, and the bytes it leaves. -/
def fgets : ℕ → List UInt8 → List UInt8 × List UInt8
  | 0, content => ([], content)
  | _ + 1, [] => ([], [])
  | room + 1, byte :: rest =>
    if byte = newline then ([byte], rest)
    else (byte :: (fgets room rest).1, (fgets room rest).2)

/-- What `fgets` takes fits in the buffer. -/
theorem length_fst_fgets_le (room : ℕ) (content : List UInt8) :
    (fgets room content).1.length ≤ room := by
  induction content generalizing room with
  | nil => cases room <;> exact Nat.zero_le _
  | cons byte rest ih =>
    cases room with
    | zero => exact Nat.le_refl 0
    | succ room =>
      rw [fgets]
      split_ifs
      · exact Nat.succ_le_succ (Nat.zero_le room)
      · exact Nat.succ_le_succ (ih room)

theorem length_fgets_le (room : ℕ) (content : List UInt8) :
    (fgets room content).2.length ≤ content.length := by
  induction content generalizing room with
  | nil => cases room <;> exact Nat.le_refl 0
  | cons byte rest ih =>
    cases room with
    | zero => exact Nat.le_refl _
    | succ room =>
      rw [fgets]
      split_ifs
      · exact Nat.le_succ _
      · exact Nat.le_succ_of_le (ih room)

/-- `fgets` takes a byte when there is one and the buffer has room. -/
theorem length_fgets_lt (room : ℕ) (byte : UInt8) (rest : List UInt8) :
    (fgets (room + 1) (byte :: rest)).2.length < (byte :: rest).length := by
  rw [fgets]
  split_ifs
  · exact Nat.lt_succ_self _
  · exact Nat.lt_succ_of_le (length_fgets_le room rest)

/-- `fgets` takes what stands before the next newline as far as it has room, and goes on behind. -/
theorem fgets_append {front : List UInt8} (hfront : newline ∉ front) {room : ℕ}
    (hroom : front.length ≤ room) (rest : List UInt8) :
    fgets room (front ++ rest) =
      (front ++ (fgets (room - front.length) rest).1, (fgets (room - front.length) rest).2) := by
  induction front generalizing room with
  | nil => rfl
  | cons byte more ih =>
    obtain ⟨hbyte, hmore⟩ := List.ne_and_not_mem_of_not_mem_cons hfront
    obtain ⟨less, rfl⟩ := Nat.exists_eq_succ_of_ne_zero (Nat.ne_of_gt
      (Nat.zero_lt_of_lt (Nat.lt_of_succ_le hroom)))
    rw [List.cons_append, fgets, if_neg hbyte.symm, ih hmore (Nat.le_of_succ_le_succ hroom),
      List.length_cons, Nat.succ_sub_succ]
    rfl

/-- `fgets` loses nothing. -/
theorem fgets_fst_append_snd {room : ℕ} (hroom : 0 < room) (content : List UInt8) :
    (fgets room content).1 ++ (fgets room content).2 = content := by
  induction content generalizing room with
  | nil =>
    obtain ⟨less, rfl⟩ := Nat.exists_eq_add_one.mpr hroom
    rfl
  | cons byte rest ih =>
    obtain ⟨less, rfl⟩ := Nat.exists_eq_add_one.mpr hroom
    rw [fgets]
    split_ifs
    · rfl
    · rcases less with _ | less
      · rfl
      · exact congrArg (byte :: ·) (ih (Nat.succ_pos less))

/-! ### Numbers of `scanf` -/

/-- The sign in front of the digits of a number, with the text after it. -/
def scanSign : List UInt8 → ℤ × List UInt8
  | 43 :: rest => (1, rest)
  | 45 :: rest => (-1, rest)
  | text => (1, text)

/-- A text that starts with no sign. -/
theorem scanSign_of_ne {byte : UInt8} (hplus : byte ≠ 43) (hminus : byte ≠ 45)
    (rest : List UInt8) : scanSign (byte :: rest) = (1, byte :: rest) := by
  rw [scanSign]
  · exact fun _ heq ↦ hplus (List.cons.inj heq).1
  · exact fun _ heq ↦ hminus (List.cons.inj heq).1

theorem scanSign_append {text : List UInt8} (htext : text ≠ []) (more : List UInt8) :
    scanSign (text ++ more) = ((scanSign text).1, (scanSign text).2 ++ more) := by
  obtain ⟨byte, rest, rfl⟩ := List.exists_cons_of_ne_nil htext
  by_cases hplus : byte = 43
  · rw [hplus]
    rfl
  · by_cases hminus : byte = 45
    · rw [hminus]
      rfl
    · rw [scanSign_of_ne hplus hminus, List.cons_append, scanSign_of_ne hplus hminus]

/-- What the library stores for a number that `%ld` reads: the nearest `long`. -/
def toLong (number : ℤ) : ℤ := max (-2 ^ 63) (min number (2 ^ 63 - 1))

theorem le_toLong (number : ℤ) : -2 ^ 63 ≤ toLong number :=
  Int.le_max_left _ _

theorem toLong_le (number : ℤ) : toLong number ≤ 2 ^ 63 - 1 :=
  Int.max_le.mpr ⟨by decide, Int.min_le_right _ _⟩

/-- A number that is a `long` is stored as it is. -/
theorem toLong_of_le {number : ℤ} (hlow : -2 ^ 63 ≤ number) (hhigh : number ≤ 2 ^ 63 - 1) :
    toLong number = number := by
  rw [toLong, Int.min_eq_left hhigh, Int.max_eq_right hlow]

end Homework.Library.TextInput
