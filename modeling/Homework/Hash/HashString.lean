import Homework.Hash.Table
import Mathlib.Algebra.Order.Ring.Int
import Mathlib.Tactic.NormNum

/-!
# Overflow in `hash_string`

The table reads `hash_string` in arithmetic that wraps around, but C leaves an overflow of
`long long` undefined. Here the loop is followed without wrapping (`InRange`): the loop computes the
next power of 53 at the end of every round, also of the last one, and 53 to the power 11 is the
first that is too large. The sum is at most five times the power, so it is never the first to
overflow, and the loop stays in range exactly for keys of at most ten bytes.
-/

set_option autoImplicit false
set_option relaxedAutoImplicit false

namespace Homework.Hash

/-- The value is a `long long`. -/
def FitsLong (value : ℤ) : Prop := -2 ^ 63 ≤ value ∧ value ≤ 2 ^ 63 - 1

instance (value : ℤ) : Decidable (FitsLong value) :=
  inferInstanceAs (Decidable (_ ∧ _))

/-- `abs(str[i] - 'a' + 1)`. -/
def weight (char : UInt8) : ℤ := (char.toInt8.toInt - 97 + 1).natAbs

/-- No operation on `hash` and `p_pow` overflows in the loop of `hash_string`. -/
def InRange : List UInt8 → ℤ → ℤ → Prop
  | [], _, _ => True
  | char :: rest, hash, pPow =>
    FitsLong (weight char * pPow) ∧ FitsLong (hash + weight char * pPow) ∧ FitsLong (pPow * 53) ∧
      InRange rest (hash + weight char * pPow) (pPow * 53)

instance decidableInRange : (str : List UInt8) → (hash pPow : ℤ) → Decidable (InRange str hash pPow)
  | [], _, _ => inferInstanceAs (Decidable True)
  | char :: rest, hash, pPow =>
    have : Decidable (InRange rest (hash + weight char * pPow) (pPow * 53)) :=
      decidableInRange rest _ _
    inferInstanceAs (Decidable (_ ∧ _ ∧ _ ∧ _))

theorem wrapLong_of_fits {value : ℤ} (hvalue : FitsLong value) : wrapLong value = value := by
  obtain ⟨hlow, hhigh⟩ := hvalue
  exact Int.bmod_eq_of_le (by omega) (by omega)

theorem weight_nonneg (char : UInt8) : 0 ≤ weight char :=
  Int.natCast_nonneg _

theorem weight_le (char : UInt8) : weight char ≤ 224 := by
  have hlow := Int8.le_toInt char.toInt8
  have hhigh := Int8.toInt_lt char.toInt8
  unfold weight
  omega

/-- A loop that stays in range does not wrap around, and only adds to the hash. -/
theorem InRange.le_hashLoop {str : List UInt8} {hash pPow : ℤ} (hrange : InRange str hash pPow)
    (hpow : 0 ≤ pPow) : hash ≤ hashLoop str hash pPow := by
  induction str generalizing hash pPow with
  | nil => exact le_refl hash
  | cons char rest ih =>
    obtain ⟨-, hsum, hnext, hrest⟩ := hrange
    have hterm : 0 ≤ weight char * pPow := mul_nonneg (weight_nonneg char) hpow
    have hlater := ih hrest (mul_nonneg hpow (by norm_num))
    rw [hashLoop, wrapLong_of_fits hnext]
    change hash ≤ hashLoop rest (wrapLong (hash + weight char * pPow)) (pPow * 53)
    rw [wrapLong_of_fits hsum]
    exact (le_add_of_nonneg_right hterm).trans hlater

/-- The loop stays in range while the power of 53 behind every byte does. -/
theorem inRange_of_length_le {str : List UInt8} {hash : ℤ} {round : ℕ} (hhash : 0 ≤ hash)
    (hbound : hash ≤ 5 * 53 ^ round) (hlength : round + str.length ≤ 10) :
    InRange str hash (53 ^ round) := by
  induction str generalizing hash round with
  | nil => trivial
  | cons char rest ih =>
    rw [List.length_cons] at hlength
    have hpos : (0 : ℤ) < 53 ^ round := pow_pos (by norm_num) round
    have hpow : (53 : ℤ) ^ round ≤ 53 ^ 9 := pow_le_pow_right₀ (by norm_num) (by omega)
    have hterm : 0 ≤ weight char * 53 ^ round := mul_nonneg (weight_nonneg char) hpos.le
    have hterm_le : weight char * 53 ^ round ≤ 224 * 53 ^ round :=
      mul_le_mul_of_nonneg_right (weight_le char) hpos.le
    have hnine : (53 : ℤ) ^ 9 = 3299763591802133 := by norm_num
    rw [hnine] at hpow
    have hsum : hash + weight char * 53 ^ round ≤ 5 * 53 ^ (round + 1) := by
      rw [pow_succ]
      omega
    have hrest := ih (add_nonneg hhash hterm) hsum (by omega)
    rw [pow_succ] at hrest
    refine ⟨⟨?_, ?_⟩, ⟨?_, ?_⟩, ⟨?_, ?_⟩, hrest⟩ <;> omega

/-- The power of 53 behind the eleventh byte is out of range. -/
theorem InRange.length_le {str : List UInt8} {hash : ℤ} {round : ℕ} (hround : round ≤ 10)
    (hrange : InRange str hash (53 ^ round)) : round + str.length ≤ 10 := by
  induction str generalizing hash round with
  | nil => exact hround
  | cons char rest ih =>
    obtain ⟨-, -, hnext, hrest⟩ := hrange
    rw [← pow_succ] at hnext hrest
    have hless : round ≠ 10 := by
      rintro rfl
      exact absurd hnext.2 (by norm_num)
    rw [List.length_cons]
    have hlater := ih (by omega) hrest
    omega

/-- `hash_string` is in order exactly for keys of at most ten bytes: then no accumulation overflows,
the hash is not negative, and its remainder is an index of every array. -/
theorem hashString_inRange_iff (key : List UInt8) :
    (InRange key 0 1 ∧ 0 ≤ hashString key ∧
      ∀ capacity : ℕ, 1 ≤ capacity →
        0 ≤ homeIndex capacity key ∧ homeIndex capacity key < capacity) ↔
      key.length ≤ 10 := by
  constructor
  · intro hkey
    have hrange : InRange key 0 (53 ^ 0) := by
      rw [pow_zero]
      exact hkey.1
    have hlength := hrange.length_le (Nat.zero_le 10)
    omega
  · intro hlength
    have hrange : InRange key 0 (53 ^ 0) :=
      inRange_of_length_le le_rfl (by norm_num) (by omega)
    rw [pow_zero] at hrange
    have hhash : 0 ≤ hashString key := hrange.le_hashLoop zero_le_one
    refine ⟨hrange, hhash, fun capacity hcapacity ↦ ⟨?_, homeIndex_lt hcapacity key⟩⟩
    exact Int.tmod_nonneg _ hhash

/-- `accomplishment`. -/
def accomplishment : List UInt8 :=
  [97, 99, 99, 111, 109, 112, 108, 105, 115, 104, 109, 101, 110, 116]

/-- A word of fourteen letters overflows, and in a new table its home is in front of the array. -/
theorem accomplishment_not_inRange : accomplishment.length ≤ 99 ∧ 0 ∉ accomplishment ∧
    ¬ InRange accomplishment 0 1 ∧ hashString accomplishment < 0 ∧
      homeIndex initTable.capacity accomplishment = -7 := by
  decide +kernel

end Homework.Hash
