import Homework.Library.CString

/-!
# Decimal numerals

A number is written with the ASCII digits, and read back digit by digit. An integer has a sign in
front if it is negative (`intBytes`), and is determined by its numeral (`intBytes_inj`).
-/

set_option autoImplicit false
set_option relaxedAutoImplicit false

namespace Homework.Library.Decimal

open CString

/-- The decimal digits of a number. -/
def digitBytes (number : ℕ) : List UInt8 :=
  (Nat.toDigits 10 number).map fun digit ↦ UInt8.ofNat digit.toNat

/-- The number of a string of decimal digits. -/
def numberOf (digits : List UInt8) : ℕ :=
  digits.foldl (fun number digit ↦ 10 * number + (digit.toNat - 48)) 0

/-- The code of a digit is between those of `0` and `9`. -/
theorem toNat_of_isDigit {char : Char} (hchar : char.isDigit = true) :
    48 ≤ char.toNat ∧ char.toNat ≤ 57 := by
  unfold Char.isDigit at hchar
  simp only [ge_iff_le, Bool.and_eq_true, decide_eq_true_eq] at hchar
  exact hchar

/-- The byte of a digit is its code. -/
theorem toNat_ofNat_of_isDigit {char : Char} (hchar : char.isDigit = true) :
    (UInt8.ofNat char.toNat).toNat = char.toNat :=
  UInt8.toNat_ofNat_of_lt ((toNat_of_isDigit hchar).2.trans_lt (by decide))

theorem isDigit_of_mem_digitBytes {number : ℕ} {byte : UInt8} (hbyte : byte ∈ digitBytes number) :
    isDigit byte = true := by
  obtain ⟨char, hchar, rfl⟩ := List.mem_map.mp hbyte
  have hdigit := Nat.isDigit_of_mem_toDigits (by decide) (by decide) hchar
  rw [isDigit, Bool.and_eq_true, decide_eq_true_eq, decide_eq_true_eq, UInt8.le_iff_toNat_le,
    UInt8.le_iff_toNat_le, toNat_ofNat_of_isDigit hdigit]
  exact toNat_of_isDigit hdigit

theorem digitBytes_ne_nil (number : ℕ) : digitBytes number ≠ [] := by
  unfold digitBytes
  rw [ne_eq, List.map_eq_nil_iff]
  exact Nat.toDigits_ne_nil

/-- Reading the digits of a number gives the number. -/
theorem numberOf_digitBytes (number : ℕ) : numberOf (digitBytes number) = number := by
  have hread : ∀ (digits : List Char) (start : ℕ), (∀ char ∈ digits, char.isDigit = true) →
      (digits.map fun digit ↦ UInt8.ofNat digit.toNat).foldl
        (fun number digit ↦ 10 * number + (digit.toNat - 48)) start =
          Nat.ofDigitChars 10 digits start := by
    intro digits
    induction digits with
    | nil => exact fun start _ ↦ rfl
    | cons char rest ih =>
      intro start hdigits
      rw [List.map_cons, List.foldl_cons, Nat.ofDigitChars_cons,
        toNat_ofNat_of_isDigit (hdigits char List.mem_cons_self)]
      exact ih _ fun other hother ↦ hdigits other (List.mem_cons_of_mem _ hother)
  have hdigits : ∀ char ∈ Nat.toDigits 10 number, char.isDigit = true := fun char hchar ↦
    Nat.isDigit_of_mem_toDigits (by decide) (by decide) hchar
  rw [numberOf, digitBytes, hread _ 0 hdigits, Nat.ofDigitChars_ten_toDigits]

/-- A byte that is no digit is not among the digits of a number. -/
theorem notMem_digitBytes {byte : UInt8} (hbyte : isDigit byte = false) (number : ℕ) :
    byte ∉ digitBytes number := by
  intro hmem
  rw [isDigit_of_mem_digitBytes hmem] at hbyte
  cases hbyte

/-- Numbers with the same digits are equal. -/
theorem digitBytes_inj {first second : ℕ} :
    digitBytes first = digitBytes second ↔ first = second := by
  refine ⟨fun heq ↦ ?_, congrArg digitBytes⟩
  rw [← numberOf_digitBytes first, heq, numberOf_digitBytes]

/-- An integer as `%d` of `printf` writes it. -/
def intBytes (value : ℤ) : List UInt8 :=
  if value < 0 then ascii "-" ++ digitBytes value.natAbs else digitBytes value.natAbs

/-- A byte that is no digit and no sign is not in a numeral. -/
theorem notMem_intBytes {byte : UInt8} (hbyte : isDigit byte = false) (hsign : byte ≠ 45)
    (value : ℤ) : byte ∉ intBytes value := by
  have hdigits := notMem_digitBytes hbyte value.natAbs
  unfold intBytes
  split_ifs
  · rw [List.mem_append, not_or]
    exact ⟨fun hmem ↦ hsign (List.mem_singleton.mp hmem), hdigits⟩
  · exact hdigits

/-- A numeral with a sign is not one without. -/
theorem sign_append_ne_digitBytes (digits : List UInt8) (number : ℕ) :
    ascii "-" ++ digits ≠ digitBytes number := by
  intro heq
  have hsign : (45 : UInt8) ∉ digitBytes number := notMem_digitBytes (by decide) number
  exact hsign (heq ▸ List.mem_append_left _ (List.mem_singleton.mpr rfl))

theorem intBytes_inj {first second : ℤ} : intBytes first = intBytes second ↔ first = second := by
  refine ⟨fun heq ↦ ?_, congrArg intBytes⟩
  unfold intBytes at heq
  split_ifs at heq with hfirst hsecond hsecond
  · have habs := digitBytes_inj.mp (List.append_cancel_left heq)
    omega
  · exact absurd heq (sign_append_ne_digitBytes _ _)
  · exact absurd heq.symm (sign_append_ne_digitBytes _ _)
  · have habs := digitBytes_inj.mp heq
    omega

end Homework.Library.Decimal
