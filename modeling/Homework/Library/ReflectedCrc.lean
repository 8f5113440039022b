import Mathlib.Data.BitVec
import Mathlib.Data.Fintype.EquivFin
import Mathlib.Logic.Function.Iterate

/-!
# Reflected cyclic redundancy checks

A reflected CRC of width `w` shifts a register down, bit by bit of the data, and adds the polynomial
when the bit that leaves the register differs from the data bit (`feed`). Without data it is a
linear map `shift` of the register (`shift_xor`).

Feeding the bits of a word, lowest first, shifts the register with the word added in
(`foldl_feed_bits`), and shifting by `n` bits splits into the part of the lowest `n` bits, which a
table can hold, and a plain shift of the others (`iterate_shift_eq`). This is the byte table of the
usual implementations (`foldl_feed_eq_table`).

When the polynomial has its top bit, a shift loses nothing (`shift_injective`). So different data of
the same length, at most the width of the register, take one register to different ones, and no
data behind them makes up for it (`foldl_feed_burst_ne`).
-/

set_option autoImplicit false
set_option relaxedAutoImplicit false

namespace Homework.Library.ReflectedCrc

variable {w : ℕ}

section Register

variable (poly : BitVec w)

/-- Shifts the register by one bit of the data. -/
def feed (crc : BitVec w) (bit : Bool) : BitVec w :=
  (crc >>> 1) ^^^ if (crc.getLsbD 0 ^^ bit) = true then poly else 0#w

/-- Shifts the register without data. -/
def shift (crc : BitVec w) : BitVec w :=
  (crc >>> 1) ^^^ if crc.getLsbD 0 = true then poly else 0#w

/-- Adding the polynomial or not is linear in the bit that decides it. -/
theorem ite_xor (first second : Bool) :
    (if (first ^^ second) = true then poly else 0#w) =
      (if first = true then poly else 0#w) ^^^ if second = true then poly else 0#w := by
  cases first <;> cases second <;> simp

/-- Shifting is linear. -/
theorem shift_xor (first second : BitVec w) :
    shift poly (first ^^^ second) = shift poly first ^^^ shift poly second := by
  unfold shift
  rw [BitVec.getLsbD_xor, ite_xor, BitVec.ushiftRight_xor_distrib]
  ac_rfl

theorem iterate_shift_xor (count : ℕ) (first second : BitVec w) :
    (shift poly)^[count] (first ^^^ second) =
      (shift poly)^[count] first ^^^ (shift poly)^[count] second := by
  induction count generalizing first second with
  | zero => rfl
  | succ count ih =>
    rw [Function.iterate_succ_apply, shift_xor, ih]
    rfl

/-- Shifting a register with no bits among the lowest ones shifts in no polynomial. -/
theorem iterate_shift_of_low {count : ℕ} {crc : BitVec w}
    (hlow : ∀ place, place < count → crc.getLsbD place = false) :
    (shift poly)^[count] crc = crc >>> count := by
  induction count generalizing crc with
  | zero => rfl
  | succ count ih =>
    have hzero : crc.getLsbD 0 = false := hlow 0 (Nat.succ_pos count)
    have hshift : shift poly crc = crc >>> 1 := by
      unfold shift
      rw [hzero, if_neg Bool.false_ne_true, BitVec.xor_zero]
    have hrest : ∀ place, place < count → (crc >>> 1).getLsbD place = false := by
      intro place hplace
      rw [BitVec.getLsbD_ushiftRight]
      exact hlow (1 + place) (by omega)
    rw [Function.iterate_succ_apply, hshift, ih hrest, ← BitVec.shiftRight_add, Nat.add_comm]

/-- The lowest bits of a register. -/
def low (count : ℕ) (crc : BitVec w) : BitVec w := BitVec.ofNat w (crc.toNat % 2 ^ count)

theorem getLsbD_low (count : ℕ) (crc : BitVec w) (place : ℕ) :
    (low count crc).getLsbD place = (decide (place < count) && crc.getLsbD place) := by
  rw [low, BitVec.getLsbD_ofNat, Nat.testBit_mod_two_pow, BitVec.testBit_toNat]
  by_cases hplace : place < w
  · simp [hplace]
  · simp [hplace, BitVec.getLsbD_of_ge crc place (Nat.le_of_not_lt hplace)]

/-- Shifting by some bits is the shift of the lowest bits, added to the others moved down. -/
theorem iterate_shift_eq (count : ℕ) (crc : BitVec w) :
    (shift poly)^[count] crc = (shift poly)^[count] (low count crc) ^^^ (crc >>> count) := by
  have hsplit : crc = low count crc ^^^ (crc ^^^ low count crc) := by
    rw [BitVec.xor_comm crc, ← BitVec.xor_assoc, BitVec.xor_self, BitVec.zero_xor]
  have hhigh : ∀ place, place < count → (crc ^^^ low count crc).getLsbD place = false := by
    intro place hplace
    rw [BitVec.getLsbD_xor, getLsbD_low, decide_eq_true hplace, Bool.true_and, Bool.xor_self]
  have hmoved : (crc ^^^ low count crc) >>> count = crc >>> count := by
    apply BitVec.eq_of_getLsbD_eq
    intro place _
    rw [BitVec.getLsbD_ushiftRight, BitVec.getLsbD_ushiftRight, BitVec.getLsbD_xor, getLsbD_low,
      decide_eq_false (by omega), Bool.false_and, Bool.xor_false]
  conv_lhs => rw [hsplit]
  rw [iterate_shift_xor, iterate_shift_of_low poly hhigh, hmoved]

/-! ### Data words -/

/-- The bits of a word, lowest first. -/
def bits (count : ℕ) (word : ℕ) : List Bool := (List.range count).map word.testBit

theorem bits_succ (count word : ℕ) :
    bits (count + 1) word = word.testBit 0 :: bits count (word / 2) := by
  rw [bits, List.range_succ_eq_map, List.map_cons, List.map_map, bits]
  congr 1
  exact List.map_congr_left fun place _ ↦ Nat.testBit_succ word place

/-- Feeding a bit shifts the register with the bit added in. -/
theorem feed_eq_shift (hw : 1 < w) (crc : BitVec w) (bit : Bool) :
    feed poly crc bit = shift poly (crc ^^^ BitVec.ofNat w bit.toNat) := by
  have hmoved : BitVec.ofNat w bit.toNat >>> 1 = 0#w := by
    apply BitVec.eq_of_toNat_eq
    rw [BitVec.toNat_ushiftRight, BitVec.toNat_ofNat]
    have hbit := bit.toNat_lt
    have hmod := Nat.mod_le bit.toNat (2 ^ w)
    rw [Nat.shiftRight_eq_div_pow]
    exact Nat.div_eq_of_lt (by omega)
  have hlow : (BitVec.ofNat w bit.toNat).getLsbD 0 = bit := by
    rw [BitVec.getLsbD_ofNat, decide_eq_true (Nat.zero_lt_of_lt hw), Bool.true_and]
    cases bit <;> rfl
  unfold feed shift
  rw [BitVec.getLsbD_xor, hlow, BitVec.ushiftRight_xor_distrib, hmoved, BitVec.xor_zero]

/-- A word is its lowest bit and the others. -/
theorem ofNat_eq_lowest_xor (w word : ℕ) : BitVec.ofNat w word =
    BitVec.ofNat w (word.testBit 0).toNat ^^^ BitVec.ofNat w (2 * (word / 2)) := by
  apply BitVec.eq_of_getLsbD_eq
  intro place hplace
  simp only [BitVec.getLsbD_xor, BitVec.getLsbD_ofNat, decide_eq_true hplace, Bool.true_and]
  cases place with
  | zero => cases word.testBit 0 <;> simp
  | succ place =>
    have hlowest : (word.testBit 0).toNat.testBit (place + 1) = false := by
      cases word.testBit 0 <;> simp [Nat.testBit_succ]
    rw [hlowest, Bool.false_xor, Nat.testBit_succ, Nat.testBit_succ,
      Nat.mul_div_cancel_left _ Nat.two_pos]

/-- Shifting a word without its lowest bit halves it. -/
theorem shift_ofNat_two_mul {half : ℕ} (hhalf : 2 * half < 2 ^ w) :
    shift poly (BitVec.ofNat w (2 * half)) = BitVec.ofNat w half := by
  have hlow : (BitVec.ofNat w (2 * half)).getLsbD 0 = false := by
    rw [BitVec.getLsbD_ofNat]
    simp
  unfold shift
  rw [hlow, if_neg Bool.false_ne_true, BitVec.xor_zero]
  apply BitVec.eq_of_toNat_eq
  rw [BitVec.toNat_ushiftRight, BitVec.toNat_ofNat, BitVec.toNat_ofNat, Nat.mod_eq_of_lt hhalf,
    Nat.mod_eq_of_lt (by omega), Nat.shiftRight_eq_div_pow]
  omega

/-- Feeding the bits of a word shifts the register with the word added in. Assumes: the word has no
more bits than are fed, and the register is at least as wide. -/
theorem foldl_feed_bits (hw : 1 < w) {count word : ℕ} (hcount : count ≤ w)
    (hword : word < 2 ^ count) (crc : BitVec w) :
    (bits count word).foldl (feed poly) crc =
      (shift poly)^[count] (crc ^^^ BitVec.ofNat w word) := by
  induction count generalizing word crc with
  | zero =>
    have hzero : word = 0 := Nat.lt_one_iff.mp hword
    subst hzero
    rw [Function.iterate_zero, id_eq, BitVec.xor_zero]
    rfl
  | succ count ih =>
    have hhalf : word / 2 < 2 ^ count := by
      rw [Nat.div_lt_iff_lt_mul Nat.two_pos, ← Nat.pow_succ]
      exact hword
    have hbits : 2 * (word / 2) < 2 ^ w := by
      have hpow : 2 ^ (count + 1) ≤ 2 ^ w := Nat.pow_le_pow_right Nat.two_pos hcount
      omega
    have hshift := shift_ofNat_two_mul poly hbits
    have hfirst := ofNat_eq_lowest_xor w word
    rw [bits_succ, List.foldl_cons, ih (Nat.le_of_succ_le hcount) hhalf, feed_eq_shift poly hw,
      ← hshift, ← shift_xor, BitVec.xor_assoc, ← hfirst, Function.iterate_succ_apply]

/-- The table form: feeding the bits of a word adds the table entry of the lowest bits of the
register and the word to the register moved down. -/
theorem foldl_feed_eq_table (hw : 1 < w) {count word : ℕ} (hcount : count ≤ w)
    (hword : word < 2 ^ count) (crc : BitVec w) :
    (bits count word).foldl (feed poly) crc =
      (shift poly)^[count] (low count (crc ^^^ BitVec.ofNat w word)) ^^^ (crc >>> count) := by
  have hmoved : BitVec.ofNat w word >>> count = 0#w := by
    apply BitVec.eq_of_toNat_eq
    rw [BitVec.toNat_ushiftRight, BitVec.toNat_ofNat, Nat.shiftRight_eq_div_pow]
    have hmod := Nat.mod_le word (2 ^ w)
    exact Nat.div_eq_of_lt (by omega)
  rw [foldl_feed_bits poly hw hcount hword, iterate_shift_eq, BitVec.ushiftRight_xor_distrib,
    hmoved, BitVec.xor_zero]

end Register

/-! ### Bursts -/

section Bursts

variable (poly : BitVec w)

/-- The top bit after a shift is the bit that has left the register. -/
theorem getLsbD_top_shift (hpoly : poly.getLsbD (w - 1) = true) (hw : 0 < w) (crc : BitVec w) :
    (shift poly crc).getLsbD (w - 1) = crc.getLsbD 0 := by
  have hmoved : (crc >>> 1).getLsbD (w - 1) = false := by
    rw [BitVec.getLsbD_ushiftRight]
    exact BitVec.getLsbD_of_ge crc _ (by omega)
  unfold shift
  rw [BitVec.getLsbD_xor, hmoved, Bool.false_xor]
  cases crc.getLsbD 0 <;> simp [hpoly]

/-- A shift loses nothing. Assumes: the polynomial has its top bit. -/
theorem shift_injective (hpoly : poly.getLsbD (w - 1) = true) (hw : 0 < w) :
    Function.Injective (shift poly) := by
  intro first second heq
  have hlow : first.getLsbD 0 = second.getLsbD 0 := by
    rw [← getLsbD_top_shift poly hpoly hw, heq, getLsbD_top_shift poly hpoly hw]
  have hmoved : first >>> 1 = second >>> 1 := by
    unfold shift at heq
    rwa [hlow, BitVec.xor_left_inj] at heq
  apply BitVec.eq_of_getLsbD_eq
  intro place _
  cases place with
  | zero => exact hlow
  | succ place =>
    have hbit := congrArg (fun crc ↦ BitVec.getLsbD crc place) hmoved
    simp only [BitVec.getLsbD_ushiftRight] at hbit
    rwa [Nat.add_comm]

/-- Feeding data loses nothing of the register. -/
theorem foldl_feed_injective (hpoly : poly.getLsbD (w - 1) = true) (hw : 1 < w)
    (data : List Bool) : Function.Injective fun crc ↦ data.foldl (feed poly) crc := by
  induction data with
  | nil => exact fun first second heq ↦ heq
  | cons bit rest ih =>
    intro first second heq
    have hfeed : feed poly first bit = feed poly second bit := ih heq
    rw [feed_eq_shift poly hw, feed_eq_shift poly hw] at hfeed
    have hshift := shift_injective poly hpoly (Nat.zero_lt_of_lt hw) hfeed
    rwa [BitVec.xor_left_inj] at hshift

/-- Data are the bits of a word. -/
theorem exists_eq_bits (data : List Bool) :
    ∃ word, word < 2 ^ data.length ∧ data = bits data.length word := by
  induction data with
  | nil => exact ⟨0, Nat.one_pos, rfl⟩
  | cons bit rest ih =>
    obtain ⟨word, hword, hrest⟩ := ih
    have hbit := bit.toNat_lt
    refine ⟨2 * word + bit.toNat, ?_, ?_⟩
    · rw [List.length_cons, pow_succ]
      omega
    · have hhalf : (2 * word + bit.toNat) / 2 = word := by omega
      have hlowest : (2 * word + bit.toNat).testBit 0 = bit := by
        cases bit <;> simp [Nat.testBit_zero]
      rw [List.length_cons, bits_succ, hhalf, hlowest, ← hrest]

/-- Different data take a register to different ones. Assumes: the data are no longer than the
register is wide. -/
theorem eq_of_foldl_feed_eq (hpoly : poly.getLsbD (w - 1) = true) (hw : 1 < w)
    {first second : List Bool} (hlength : first.length = second.length)
    (hshort : first.length ≤ w) {crc : BitVec w}
    (heq : first.foldl (feed poly) crc = second.foldl (feed poly) crc) : first = second := by
  obtain ⟨word, hword, hfirst⟩ := exists_eq_bits first
  obtain ⟨word', hword', hsecond⟩ := exists_eq_bits second
  rw [← hlength] at hword' hsecond
  rw [hfirst, hsecond, foldl_feed_bits poly hw hshort hword,
    foldl_feed_bits poly hw hshort hword'] at heq
  have hshift := (shift_injective poly hpoly (Nat.zero_lt_of_lt hw)).iterate _ heq
  rw [BitVec.xor_right_inj] at hshift
  have hpow := Nat.pow_le_pow_right Nat.two_pos hshort
  have hnumber := congrArg BitVec.toNat hshift
  rw [BitVec.toNat_ofNat, BitVec.toNat_ofNat, Nat.mod_eq_of_lt (hword.trans_le hpow),
    Nat.mod_eq_of_lt (hword'.trans_le hpow)] at hnumber
  rw [hfirst, hsecond, hnumber]

/-- A burst changes the register for good. -/
theorem foldl_feed_burst_ne (hpoly : poly.getLsbD (w - 1) = true) (hw : 1 < w)
    {first second : List Bool} (hne : first ≠ second) (hlength : first.length = second.length)
    (hshort : first.length ≤ w) (before after : List Bool) (crc : BitVec w) :
    (before ++ first ++ after).foldl (feed poly) crc ≠
      (before ++ second ++ after).foldl (feed poly) crc := by
  rw [List.foldl_append, List.foldl_append, List.foldl_append, List.foldl_append]
  intro heq
  have hburst := foldl_feed_injective poly hpoly hw after heq
  exact hne (eq_of_foldl_feed_eq poly hpoly hw hlength hshort hburst)

end Bursts

/-! ### Targets -/

section Targets

variable (poly : BitVec w)

/-- There are finitely many registers. -/
instance finite_register (w : ℕ) : Finite (BitVec w) :=
  Finite.of_injective BitVec.toFin fun _ _ heq ↦ BitVec.toFin_inj.mp heq

theorem shift_surjective (hpoly : poly.getLsbD (w - 1) = true) (hw : 0 < w) :
    Function.Surjective (shift poly) :=
  Finite.surjective_of_injective (shift_injective poly hpoly hw)

/-- Data as long as the register is wide can be chosen to lead to any register, whatever stands
before and behind them. -/
theorem exists_foldl_feed_eq (hpoly : poly.getLsbD (w - 1) = true) (hw : 1 < w)
    (before after : List Bool) (crc target : BitVec w) :
    ∃ data : List Bool, data.length = w ∧
      (before ++ data ++ after).foldl (feed poly) crc = target := by
  generalize hstart : before.foldl (feed poly) crc = start
  obtain ⟨last, hlast⟩ :=
    Finite.surjective_of_injective (foldl_feed_injective poly hpoly hw after) target
  obtain ⟨sum, hsum⟩ :=
    (shift_surjective poly hpoly (Nat.zero_lt_of_lt hw)).iterate w last
  refine ⟨bits w (start ^^^ sum).toNat, ?_, ?_⟩
  · rw [bits, List.length_map, List.length_range]
  · rw [List.foldl_append, List.foldl_append, hstart,
      foldl_feed_bits poly hw le_rfl (start ^^^ sum).isLt, BitVec.ofNat_toNat, BitVec.setWidth_eq,
      ← BitVec.xor_assoc, BitVec.xor_self, BitVec.zero_xor, hsum]
    exact hlast

end Targets

end Homework.Library.ReflectedCrc
