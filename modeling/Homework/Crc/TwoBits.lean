import Homework.Crc.Bursts
import Homework.Library.RegisterPeriod
import Mathlib.Tactic.NormNum.Prime

/-!
# Two flipped bits

The polynomial of CRC-32 is primitive: a register comes back after `2 ^ 32 - 1` shifts and not
earlier (`minimalPeriod_one`). So two contents that differ in exactly two bits have the same
checksum exactly when the distance of the bits is a multiple of `2 ^ 32 - 1`
(`crc32_twoBits_iff`). In a content of less than half a gigabyte no two flipped bits are missed.
-/

set_option autoImplicit false
set_option relaxedAutoImplicit false

namespace Homework.Crc

open Function Homework.Library.ReflectedCrc

/-! ### The period -/

/-- The number of registers that are not zero. -/
def fullPeriod : ℕ := 2 ^ 32 - 1

/-- The one comes back after as many shifts as the number of some bits, if their power says so. -/
theorem isPeriodicPt_one_iff (exponent : List Bool) :
    IsPeriodicPt (shift polynomial) (number exponent) (one 32) ↔
      power polynomial exponent = one 32 := by
  rw [power_eq polynomial (by decide)]
  rfl

theorem not_isPeriodicPt_one {factor : ℕ} (exponent : List Bool)
    (hnumber : number exponent = fullPeriod / factor)
    (hpower : power polynomial exponent ≠ one 32) :
    ¬IsPeriodicPt (shift polynomial) (fullPeriod / factor) (one 32) := by
  rw [← hnumber, isPeriodicPt_one_iff]
  exact hpower

/-- The prime factors of `2 ^ 32 - 1` are five Fermat numbers. -/
theorem prime_dvd_fullPeriod {factor : ℕ} (hprime : factor.Prime) (hdvd : factor ∣ fullPeriod) :
    factor = 3 ∨ factor = 5 ∨ factor = 17 ∨ factor = 257 ∨ factor = 65537 := by
  have hsplit : fullPeriod = 3 * (5 * (17 * (257 * 65537))) := by decide
  have heq {other : ℕ} (hother : other.Prime) : factor ∣ other ↔ factor = other :=
    Nat.prime_dvd_prime_iff_eq hprime hother
  rw [hsplit, hprime.dvd_mul, hprime.dvd_mul, hprime.dvd_mul, hprime.dvd_mul,
    heq (by norm_num), heq (by norm_num), heq (by norm_num), heq (by norm_num),
    heq (by norm_num)] at hdvd
  exact hdvd

/-- The one comes back after `2 ^ 32 - 1` shifts and not earlier. -/
theorem minimalPeriod_one : minimalPeriod (shift polynomial) (one 32) = fullPeriod := by
  refine minimalPeriod_eq_of_forall_prime (by decide) ?_ fun factor hprime hdvd ↦ ?_
  · have hnumber : number (List.replicate 32 true) = fullPeriod := by decide +kernel
    rw [← hnumber, isPeriodicPt_one_iff]
    decide +kernel
  · -- the exponents are those of the five quotients, in binary
    obtain rfl | rfl | rfl | rfl | rfl := prime_dvd_fullPeriod hprime hdvd
    · exact not_isPeriodicPt_one (List.replicate 16 [false, true]).flatten (by decide +kernel)
        (by decide +kernel)
    · exact not_isPeriodicPt_one (List.replicate 8 [false, false, true, true]).flatten
        (by decide +kernel) (by decide +kernel)
    · exact not_isPeriodicPt_one
        (List.replicate 4 (List.replicate 4 false ++ List.replicate 4 true)).flatten
        (by decide +kernel) (by decide +kernel)
    · exact not_isPeriodicPt_one
        (List.replicate 2 (List.replicate 8 false ++ List.replicate 8 true)).flatten
        (by decide +kernel) (by decide +kernel)
    · exact not_isPeriodicPt_one (List.replicate 16 true) (by decide +kernel) (by decide +kernel)

/-- The polynomial comes back after a number of shifts exactly when `2 ^ 32 - 1` divides it. -/
theorem isPeriodicPt_polynomial_iff (count : ℕ) :
    IsPeriodicPt (shift polynomial) count polynomial ↔ fullPeriod ∣ count := by
  have hpolynomial : (shift polynomial)^[32] (one 32) = polynomial := by decide +kernel
  have hperiodic : one 32 ∈ periodicPts (shift polynomial) := by
    rw [← minimalPeriod_pos_iff_mem_periodicPts, minimalPeriod_one]
    decide
  have hsame := minimalPeriod_apply_iterate hperiodic 32
  rw [hpolynomial, minimalPeriod_one] at hsame
  rw [isPeriodicPt_iff_minimalPeriod_dvd, hsame]

/-! ### Flipped bits -/

/-- The data with two bits flipped. -/
def flipTwo (i j : ℕ) (data : List Bool) : List Bool := (data.modify i (!·)).modify j (!·)

theorem modify_length_append (before after : List Bool) (bit : Bool) :
    (before ++ bit :: after).modify before.length (!·) = before ++ (!bit) :: after := by
  induction before with
  | nil => rfl
  | cons first before ih =>
    rw [List.cons_append, List.length_cons, List.modify_succ_cons, ih, List.cons_append]

/-- Data are taken apart at two of their bits. -/
theorem exists_flipTwo {data : List Bool} {i j : ℕ} (hij : i < j) (hj : j < data.length) :
    ∃ (before between after : List Bool) (first second : Bool),
      between.length + 1 = j - i ∧
      data = before ++ first :: (between ++ second :: after) ∧
      flipTwo i j data = before ++ (!first) :: (between ++ (!second) :: after) := by
  obtain ⟨before, first, rest, rfl, rfl, hflip⟩ :=
    List.exists_of_modify (fun bit : Bool ↦ !bit) (hij.trans hj)
  have hrest : j - before.length - 1 < rest.length := by
    rw [List.length_append, List.length_cons] at hj
    omega
  obtain ⟨between, second, after, rfl, hbetween, -⟩ :=
    List.exists_of_modify (fun bit : Bool ↦ !bit) hrest
  refine ⟨before, between, after, first, second, by omega, rfl, ?_⟩
  have hplace : j = (before ++ (!first) :: between).length := by
    rw [List.length_append, List.length_cons]
    omega
  have hmodify := modify_length_append (before ++ (!first) :: between) after second
  rw [← hplace] at hmodify
  rw [flipTwo, hflip]
  simpa only [List.append_assoc, List.cons_append] using hmodify

/-- Two contents that differ in exactly two bits have the same checksum exactly when the distance of
the bits is a multiple of `2 ^ 32 - 1`. -/
theorem crc32_twoBits_iff {first second : List UInt8} {i j : ℕ} (hij : i < j)
    (hj : j < 8 * first.length) (hflip : contentBits second = flipTwo i j (contentBits first))
    {memory memory' : ℕ → UInt8} {p p' : ℕ} (hfirst : StandsAt memory p first)
    (hsecond : StandsAt memory' p' second) (crc : UInt32) :
    (crc32 memory p first.length crc).crc = (crc32 memory' p' second.length crc).crc ↔
      2 ^ 32 - 1 ∣ j - i := by
  unfold StandsAt at hfirst hsecond
  rw [← length_contentBits] at hj
  obtain ⟨before, between, after, bit, bit', hdistance, hdata, hflipped⟩ := exists_flipTwo hij hj
  have hflips := foldl_feed_flips_iff polynomial rfl (by decide) before between after bit bit'
    crc.toBitVec
  rw [crc32_eq, crc32_eq, hfirst, hsecond, ← UInt32.toBitVec_inj, toBitVec_foldl_crcByte,
    toBitVec_foldl_crcByte, hflip, hflipped, hdata, hflips, hdistance, isPeriodicPt_polynomial_iff]
  rfl

/-- Two flipped bits of a content of two bytes change its checksum. -/
theorem crc32_twoBits_ne :
    (crc32 (fun _ ↦ 0) 0 2 0xFFFFFFFF).crc = (crc32 (fun _ ↦ 1) 0 2 0xFFFFFFFF).crc ↔
      2 ^ 32 - 1 ∣ 8 - 0 :=
  @crc32_twoBits_iff [0, 0] [1, 1] 0 8 (by decide) (by decide) (by decide) (fun _ ↦ 0) (fun _ ↦ 1)
    0 0 rfl rfl _

end Homework.Crc
