import Mathlib.Algebra.Order.Ring.Int

/-!
# Checked `int` and `long` arithmetic

A value of C's `int` or `long` carries the proof that it is in range. Arithmetic is done in `ℤ`, and
its result is stored with `checked` or `checkedLong`, which are an error where the result is out of
range: there the behaviour of a C program is undefined.
-/

set_option autoImplicit false
set_option relaxedAutoImplicit false

namespace Homework.Library

/-- The range of a 32-bit `int`. -/
def InIntRange (value : ℤ) : Prop := -2147483648 ≤ value ∧ value ≤ 2147483647

instance (value : ℤ) : Decidable (InIntRange value) :=
  inferInstanceAs (Decidable (_ ∧ _))

/-- A value of type `int`. -/
abbrev CInt := {value : ℤ // InIntRange value}

theorem inIntRange_zero : InIntRange 0 := by
  decide

theorem inIntRange_one : InIntRange 1 := by
  decide

/-- Signed overflow. -/
inductive Overflow where
  | overflow
deriving DecidableEq, Repr

/-- The result of an `int` operation. -/
def checked (value : ℤ) : Except Overflow CInt :=
  if hrange : InIntRange value then .ok ⟨value, hrange⟩ else .error .overflow

theorem checked_of_inRange {value : ℤ} (hrange : InIntRange value) :
    checked value = .ok ⟨value, hrange⟩ :=
  dif_pos hrange

theorem checked_eq_ok_iff {value : ℤ} {result : CInt} :
    checked value = .ok result ↔ (result : ℤ) = value := by
  constructor
  · intro hok
    unfold checked at hok
    split at hok
    · exact congrArg Subtype.val (Except.ok.inj hok).symm
    · exact absurd hok (by simp)
  · rintro rfl
    exact checked_of_inRange result.2

/-- The range of a 64-bit `long`. -/
def InLongRange (value : ℤ) : Prop := -9223372036854775808 ≤ value ∧ value ≤ 9223372036854775807

instance (value : ℤ) : Decidable (InLongRange value) :=
  inferInstanceAs (Decidable (_ ∧ _))

/-- A value of type `long`. -/
abbrev CLong := {value : ℤ // InLongRange value}

/-- The result of a `long` operation. -/
def checkedLong (value : ℤ) : Except Overflow CLong :=
  if hrange : InLongRange value then .ok ⟨value, hrange⟩ else .error .overflow

theorem checkedLong_of_inRange {value : ℤ} (hrange : InLongRange value) :
    checkedLong value = .ok ⟨value, hrange⟩ :=
  dif_pos hrange

/-- A computation whose result is stored goes through exactly when it does. -/
theorem map_eq_ok_iff {E A B : Type*} {result : Except E A} {store : A → B} {next : B} :
    result.map store = .ok next ↔ ∃ value, result = .ok value ∧ store value = next := by
  rcases result with error | value
  · simp [Except.map]
  · simp [Except.map]

theorem map_checked_eq_ok_iff {A : Type*} {store : CInt → A} {value : ℤ} {next : A} :
    (checked value).map store = .ok next ↔
      ∃ result : CInt, (result : ℤ) = value ∧ store result = next := by
  simp only [map_eq_ok_iff, checked_eq_ok_iff]

end Homework.Library
