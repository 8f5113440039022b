import Homework.Library.ReflectedCrc
import Mathlib.Data.Nat.Prime.Basic
import Mathlib.Dynamics.PeriodicPts.Defs

/-!
# The period of a CRC register

Shifting a register again and again leads back to where it started. A register is a polynomial, and
the register with its top bit alone is one: what any register becomes after some shifts is its
product with what the one has become (`iterate_shift_eq_times`). So the one can be shifted any
number of times by squaring (`power_eq`), and with it the period can be checked: it is the number of
shifts that lead back to the one, unless a prime factor can be taken out of it
(`minimalPeriod_eq_of_forall_prime`).

Two bits of the data that are flipped cancel out exactly when the period of the polynomial divides
their distance (`foldl_feed_flips_iff`).
-/

set_option autoImplicit false
set_option relaxedAutoImplicit false

namespace Homework.Library.ReflectedCrc

open Function

variable {w : ℕ} (poly : BitVec w)

/-! ### Products -/

/-- The register with its top bit alone. -/
def one (w : ℕ) : BitVec w := BitVec.twoPow w (w - 1)

/-- The lowest bits of a register times another, the highest of them first. -/
def timesFrom (first : BitVec w) : ℕ → BitVec w → BitVec w
  | 0, _ => 0#w
  | count + 1, second =>
    (if first.getLsbD count = true then second else 0#w) ^^^
      timesFrom first count (shift poly second)

/-- The product of two registers. -/
def times (first second : BitVec w) : BitVec w := timesFrom poly first w second

/-- The power of a shift, for the bits of an exponent from the highest on. -/
def power (exponent : List Bool) : BitVec w :=
  exponent.foldl (fun value bit ↦
    if bit then shift poly (times poly value value) else times poly value value) (one w)

/-- The number of some bits, from the highest on. -/
def number (exponent : List Bool) : ℕ :=
  exponent.foldl (fun value bit ↦ 2 * value + bit.toNat) 0

theorem shift_zero : shift poly 0#w = 0#w := by
  have hxor := shift_xor poly 0#w 0#w
  rwa [BitVec.xor_self, BitVec.xor_self] at hxor

theorem timesFrom_shift (first : BitVec w) (count : ℕ) (second : BitVec w) :
    timesFrom poly first count (shift poly second) =
      shift poly (timesFrom poly first count second) := by
  induction count generalizing second with
  | zero => exact (shift_zero poly).symm
  | succ count ih =>
    rw [timesFrom, timesFrom, ih, shift_xor]
    split_ifs
    · rfl
    · rw [shift_zero]

theorem times_iterate_shift (first second : BitVec w) (count : ℕ) :
    times poly first ((shift poly)^[count] second) =
      (shift poly)^[count] (times poly first second) := by
  induction count generalizing second with
  | zero => rfl
  | succ count ih =>
    rw [iterate_succ_apply, iterate_succ_apply, ih, times, timesFrom_shift]
    rfl

/-- A shift halves a bit that is not the lowest. -/
theorem shift_twoPow_succ {place : ℕ} (hplace : place + 1 < w) :
    shift poly (BitVec.twoPow w (place + 1)) = BitVec.twoPow w place := by
  have hlow : (BitVec.twoPow w (place + 1)).getLsbD 0 = false := by
    rw [BitVec.getLsbD_twoPow]
    simp
  rw [shift, hlow, if_neg Bool.false_ne_true, BitVec.xor_zero]
  apply BitVec.eq_of_getLsbD_eq
  intro other hother
  rw [BitVec.getLsbD_ushiftRight, BitVec.getLsbD_twoPow, BitVec.getLsbD_twoPow]
  simp only [Nat.add_comm 1 other, Nat.add_right_cancel_iff, decide_eq_true hplace,
    decide_eq_true (Nat.lt_of_succ_lt hplace)]

theorem low_succ {place : ℕ} (hplace : place < w) (first : BitVec w) :
    low (place + 1) first =
      (if first.getLsbD place = true then BitVec.twoPow w place else 0#w) ^^^ low place first := by
  apply BitVec.eq_of_getLsbD_eq
  intro other hother
  rw [BitVec.getLsbD_xor, getLsbD_low, getLsbD_low]
  by_cases hsame : other = place
  · subst hsame
    have hbit : (if first.getLsbD other = true then BitVec.twoPow w other else 0#w).getLsbD other =
        first.getLsbD other := by
      rcases first.getLsbD other with _ | _
      · simp
      · simp [hplace]
    rw [hbit]
    simp
  · have hbit : (if first.getLsbD place = true then BitVec.twoPow w place else 0#w).getLsbD other =
        false := by
      split_ifs
      · rw [BitVec.getLsbD_twoPow, decide_eq_false (Ne.symm hsame), Bool.and_false]
      · simp
    have hlt : other < place + 1 ↔ other < place := by omega
    rw [hbit, Bool.false_xor]
    simp only [hlt]

/-- The lowest bits of a register times the one moved down to them. -/
theorem timesFrom_twoPow (first : BitVec w) {place : ℕ} (hplace : place < w) :
    timesFrom poly first (place + 1) (BitVec.twoPow w place) = low (place + 1) first := by
  induction place with
  | zero =>
    rw [timesFrom, timesFrom, low_succ hplace, BitVec.xor_zero]
    have hnone : low 0 first = 0#w := by
      rw [low, pow_zero, Nat.mod_one]
    rw [hnone, BitVec.xor_zero]
  | succ place ih =>
    rw [timesFrom, shift_twoPow_succ poly hplace, ih (Nat.lt_of_succ_lt hplace), low_succ hplace]

/-- The one is neutral. -/
theorem times_one (hw : 0 < w) (first : BitVec w) : times poly first (one w) = first := by
  have hlow := timesFrom_twoPow poly first (Nat.sub_lt hw Nat.one_pos)
  rw [Nat.sub_add_cancel hw] at hlow
  rw [times, one, hlow, low, Nat.mod_eq_of_lt first.isLt, BitVec.ofNat_toNat, BitVec.setWidth_eq]

/-- What a register becomes after some shifts is its product with what the one becomes. -/
theorem iterate_shift_eq_times (hw : 0 < w) (count : ℕ) (first : BitVec w) :
    (shift poly)^[count] first = times poly first ((shift poly)^[count] (one w)) := by
  rw [times_iterate_shift, times_one poly hw]

/-- The one is shifted as often as the number of the exponent says. -/
theorem power_eq (hw : 0 < w) (exponent : List Bool) :
    power poly exponent = (shift poly)^[number exponent] (one w) := by
  induction exponent using List.reverseRecOn with
  | nil => rfl
  | append_singleton exponent bit ih =>
    have hsquare : times poly (power poly exponent) (power poly exponent) =
        (shift poly)^[2 * number exponent] (one w) := by
      rw [ih, ← iterate_shift_eq_times poly hw, ← iterate_add_apply, Nat.two_mul]
    have hpower : power poly (exponent ++ [bit]) =
        if bit then shift poly (times poly (power poly exponent) (power poly exponent))
        else times poly (power poly exponent) (power poly exponent) := List.foldl_concat ..
    have hnumber : number (exponent ++ [bit]) = 2 * number exponent + bit.toNat :=
      List.foldl_concat ..
    rw [hpower, hnumber, hsquare]
    cases bit with
    | false => rfl
    | true => exact (iterate_succ_apply' (shift poly) _ _).symm

/-! ### Periods -/

/-- A number of steps that lead back is the period, unless a prime factor can be taken out of it. -/
theorem minimalPeriod_eq_of_forall_prime {α : Type*} {step : α → α} {start : α} {count : ℕ}
    (hcount : 0 < count) (hperiod : IsPeriodicPt step count start)
    (hprime : ∀ factor, factor.Prime → factor ∣ count →
      ¬IsPeriodicPt step (count / factor) start) : minimalPeriod step start = count := by
  obtain ⟨rest, hrest⟩ := hperiod.minimalPeriod_dvd
  rcases Nat.eq_zero_or_pos rest with rfl | hpos
  · omega
  by_cases hone : rest = 1
  · rw [hrest, hone, Nat.mul_one]
  · obtain ⟨factor, hfactor, more, rfl⟩ := Nat.exists_prime_and_dvd hone
    refine absurd ?_ (hprime factor hfactor ?_)
    · have hdiv : count / factor = minimalPeriod step start * more := by
        rw [hrest, Nat.mul_left_comm, Nat.mul_div_cancel_left _ hfactor.pos]
      rw [isPeriodicPt_iff_minimalPeriod_dvd, hdiv]
      exact Nat.dvd_mul_right ..
    · rw [hrest]
      exact Dvd.dvd.mul_left (Nat.dvd_mul_right ..) _

/-! ### Flipped bits -/

/-- What the data add to a register does not depend on the register. -/
theorem foldl_feed_xor (hw : 1 < w) (data : List Bool) (first second : BitVec w) :
    data.foldl (feed poly) (first ^^^ second) =
      data.foldl (feed poly) first ^^^ (shift poly)^[data.length] second := by
  induction data generalizing first second with
  | nil => rfl
  | cons bit rest ih =>
    have hfeed : feed poly (first ^^^ second) bit = feed poly first bit ^^^ shift poly second := by
      rw [feed_eq_shift poly hw, feed_eq_shift poly hw, ← shift_xor]
      congr 1
      ac_rfl
    rw [List.foldl_cons, hfeed, ih]
    rfl

/-- A flipped bit adds the polynomial. -/
theorem feed_not (crc : BitVec w) (bit : Bool) :
    feed poly crc (!bit) = feed poly crc bit ^^^ poly := by
  unfold feed
  rw [BitVec.xor_assoc]
  congr 1
  cases crc.getLsbD 0 <;> cases bit <;> simp

/-- Two flipped bits leave the register as it is exactly when the shifts between them lead the
polynomial back. Assumes: the polynomial has its top bit. -/
theorem foldl_feed_flips_iff (hpoly : poly.getLsbD (w - 1) = true) (hw : 1 < w)
    (before between after : List Bool) (first second : Bool) (crc : BitVec w) :
    (before ++ first :: (between ++ second :: after)).foldl (feed poly) crc =
        (before ++ (!first) :: (between ++ (!second) :: after)).foldl (feed poly) crc ↔
      IsPeriodicPt (shift poly) (between.length + 1) poly := by
  generalize hstart : before.foldl (feed poly) crc = start
  have hlater : (between.foldl (feed poly) (feed poly start (!first))) =
      between.foldl (feed poly) (feed poly start first) ^^^ (shift poly)^[between.length] poly := by
    rw [feed_not, foldl_feed_xor poly hw]
  generalize hmiddle : between.foldl (feed poly) (feed poly start first) = middle at hlater
  have hlast : feed poly (middle ^^^ (shift poly)^[between.length] poly) (!second) =
      feed poly middle second ^^^ ((shift poly)^[between.length + 1] poly ^^^ poly) := by
    have hfeed := foldl_feed_xor poly hw [second] middle ((shift poly)^[between.length] poly)
    have hshift : (shift poly)^[1] ((shift poly)^[between.length] poly) =
        (shift poly)^[between.length + 1] poly := (iterate_succ_apply' ..).symm
    have hflip : feed poly (middle ^^^ (shift poly)^[between.length] poly) second =
        feed poly middle second ^^^ (shift poly)^[between.length + 1] poly := hfeed.trans (by
      rw [List.length_singleton, hshift]
      rfl)
    rw [feed_not, hflip, BitVec.xor_assoc]
  simp only [List.foldl_append, List.foldl_cons, hstart, hlater, hmiddle, hlast]
  refine (foldl_feed_injective poly hpoly hw after).eq_iff.trans ?_
  have hzero : feed poly middle second = feed poly middle second ^^^ 0#w := BitVec.xor_zero.symm
  conv_lhs => lhs; rw [hzero]
  rw [BitVec.xor_right_inj, eq_comm, BitVec.xor_eq_zero_iff]
  rfl

end Homework.Library.ReflectedCrc
