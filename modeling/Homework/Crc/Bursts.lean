import Homework.Crc.Checksum

/-!
# Short bursts

The polynomial of CRC-32 has its top bit, and four bytes have as many bits as the register. So two
contents that differ in one place, over at most four bytes, have different checksums, whatever
stands before and behind that place (`crc32_burst_ne`).
-/

set_option autoImplicit false
set_option relaxedAutoImplicit false

namespace Homework.Crc

open Homework.Library.ReflectedCrc

/-! ### The bits of a content -/

theorem contentBits_append (first second : List UInt8) :
    contentBits (first ++ second) = contentBits first ++ contentBits second :=
  List.flatMap_append

theorem length_contentBits (content : List UInt8) :
    (contentBits content).length = 8 * content.length := by
  induction content with
  | nil => rfl
  | cons byte rest ih =>
    have hbyte : contentBits (byte :: rest) = bits 8 byte.toNat ++ contentBits rest := rfl
    rw [hbyte, List.length_append, ih, List.length_cons, bits, List.length_map, List.length_range]
    omega

/-- A byte is determined by its eight bits. -/
theorem eq_of_bits_eq {first second : UInt8} (heq : bits 8 first.toNat = bits 8 second.toNat) :
    first = second := by
  have hbits : ∀ place, place < 8 →
      first.toNat.testBit place = second.toNat.testBit place := by
    intro place hplace
    exact List.map_inj_left.mp heq place (List.mem_range.mpr hplace)
  apply UInt8.toNat_inj.mp
  apply Nat.eq_of_testBit_eq
  intro place
  by_cases hplace : place < 8
  · exact hbits place hplace
  · have hpow : 2 ^ 8 ≤ 2 ^ place := Nat.pow_le_pow_right Nat.two_pos (not_lt.mp hplace)
    rw [Nat.testBit_lt_two_pow (first.toNat_lt.trans_le hpow),
      Nat.testBit_lt_two_pow (second.toNat_lt.trans_le hpow)]

/-- A content is determined by its bits. -/
theorem contentBits_injective : Function.Injective contentBits := by
  intro first
  induction first with
  | nil =>
    intro second heq
    have hlength := congrArg List.length heq
    rw [length_contentBits, length_contentBits] at hlength
    exact (List.length_eq_zero_iff.mp (by simpa using hlength.symm)).symm
  | cons byte rest ih =>
    intro second heq
    rcases second with _ | ⟨byte', rest'⟩
    · have hlength := congrArg List.length heq
      rw [length_contentBits, length_contentBits] at hlength
      simp at hlength
    · obtain ⟨hbyte, hrest⟩ := List.append_inj heq (by simp [bits])
      rw [eq_of_bits_eq hbyte, ih hrest]

/-! ### Bursts -/

/-- The content stands in the memory from an address on. -/
def StandsAt (memory : ℕ → UInt8) (p : ℕ) (content : List UInt8) : Prop :=
  (List.range' p content.length).map memory = content

/-- Contents that differ in at most four bytes in a row have different checksums. Assumes: the
contents are `before ++ first ++ after` and `before ++ second ++ after`, where `first` and `second`
are different and have the same length, at most four. -/
theorem crc32_burst_ne {before after first second : List UInt8} (hne : first ≠ second)
    (hlength : first.length = second.length) (hshort : first.length ≤ 4)
    {memory memory' : ℕ → UInt8} {p p' : ℕ} (hfirst : StandsAt memory p (before ++ first ++ after))
    (hsecond : StandsAt memory' p' (before ++ second ++ after)) (crc : UInt32) :
    (crc32 memory p (before ++ first ++ after).length crc).crc ≠
      (crc32 memory' p' (before ++ second ++ after).length crc).crc := by
  unfold StandsAt at hfirst hsecond
  rw [crc32_eq, crc32_eq, hfirst, hsecond]
  intro heq
  have hbits := congrArg UInt32.toBitVec heq
  simp only [toBitVec_foldl_crcByte, contentBits_append] at hbits
  have hbitsLength : (contentBits first).length = (contentBits second).length := by
    rw [length_contentBits, length_contentBits, hlength]
  have hbitsShort : (contentBits first).length ≤ 32 := by
    rw [length_contentBits]
    omega
  exact foldl_feed_burst_ne polynomial rfl (by decide) (contentBits_injective.ne hne) hbitsLength
    hbitsShort _ _ _ hbits

/-- A single changed byte changes the checksum. -/
theorem crc32_byte_ne :
    (crc32 (fun _ ↦ 0) 0 1 0xFFFFFFFF).crc ≠ (crc32 (fun _ ↦ 1) 0 1 0xFFFFFFFF).crc :=
  @crc32_burst_ne [] [] [0] [1] (by decide) rfl (by decide) (fun _ ↦ 0) (fun _ ↦ 1) 0 0 rfl rfl _

end Homework.Crc
