import Mathlib.Data.List.TakeWhile

/-!
# C strings

A C string is given by its bytes, without the zero that ends it. A buffer of bytes starts with the
C string of the bytes before its first zero.
-/

set_option autoImplicit false
set_option relaxedAutoImplicit false

namespace Homework.Library.CString

/-- The C string that starts a buffer: the bytes before the first zero. -/
def cString (buffer : List UInt8) : List UInt8 := buffer.takeWhile (· ≠ 0)

/-- The bytes of an ASCII literal. -/
def ascii (literal : String) : List UInt8 :=
  literal.toList.map fun char ↦ UInt8.ofNat char.toNat

/-- `isspace` in the C locale. -/
def isSpace (byte : UInt8) : Bool := byte = 32 || (9 ≤ byte && byte ≤ 13)

/-- `isdigit`. -/
def isDigit (byte : UInt8) : Bool := 48 ≤ byte && byte ≤ 57

/-- A C string holds no zero. -/
theorem zero_notMem_cString (buffer : List UInt8) : (0 : UInt8) ∉ cString buffer := by
  intro hzero
  have hne := List.mem_takeWhile_imp hzero
  simp at hne

/-- A buffer without zeros is a C string. -/
theorem cString_eq_self {buffer : List UInt8} (hbuffer : (0 : UInt8) ∉ buffer) :
    cString buffer = buffer := by
  rw [cString, List.takeWhile_eq_self_iff]
  intro byte hbyte
  exact decide_eq_true fun hzero ↦ hbuffer (hzero ▸ hbyte)

/-- The C string of a buffer that starts with one. -/
theorem cString_append_zero {text : List UInt8} (htext : (0 : UInt8) ∉ text)
    (rest : List UInt8) : cString (text ++ 0 :: rest) = text := by
  have hpos : ∀ byte ∈ text, decide (byte ≠ 0) = true :=
    fun byte hbyte ↦ decide_eq_true fun hzero ↦ htext (hzero ▸ hbyte)
  rw [cString, List.takeWhile_append_of_pos hpos, List.takeWhile_cons_of_neg (by decide),
    List.append_nil]

theorem cString_append_replicate {text : List UInt8} (htext : (0 : UInt8) ∉ text) (count : ℕ) :
    cString (text ++ List.replicate count 0) = text := by
  rcases count with _ | count
  · rw [List.replicate_zero, List.append_nil, cString_eq_self htext]
  · rw [List.replicate_succ, cString_append_zero htext]

/-- A text with a terminator starts with its C string and a zero. -/
theorem exists_cString_append_zero (text : List UInt8) :
    ∃ rest, text ++ [0] = cString text ++ 0 :: rest := by
  induction text with
  | nil => exact ⟨[], rfl⟩
  | cons byte text ih =>
    by_cases hbyte : byte = 0
    · refine ⟨text ++ [0], ?_⟩
      rw [cString, List.takeWhile_cons_of_neg (by simp [hbyte]), hbyte]
      rfl
    · obtain ⟨rest, hrest⟩ := ih
      refine ⟨rest, ?_⟩
      rw [List.cons_append, hrest, cString, cString,
        List.takeWhile_cons_of_pos (by simp [hbyte])]
      rfl

theorem length_cString_le (buffer : List UInt8) : (cString buffer).length ≤ buffer.length :=
  (List.takeWhile_sublist _).length_le

end Homework.Library.CString
