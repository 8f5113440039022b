import Homework.Crc.Bursts
import Homework.Crc.Main
import Homework.Library.RegisterPeriod

/-!
# Checksums that are forced

A checksum of 32 bits does not hide how it was made. Four bytes have as many bits as the register,
so any four bytes in a row of a file can be chosen for the file to get any checksum, and in one way
only (`getCrc32_forced`). And the checksum of two files one after the other follows from their
checksums and the length of the second one (`getCrc32_append`).
-/

set_option autoImplicit false
set_option relaxedAutoImplicit false

namespace Homework.Crc

open Homework.Library.ReflectedCrc

/-! ### Bytes for bits -/

/-- Any bits that come in eights are the bits of a content. -/
theorem exists_contentBits (count : ℕ) {data : List Bool} (hdata : data.length = 8 * count) :
    ∃ content : List UInt8, content.length = count ∧ contentBits content = data := by
  induction count generalizing data with
  | zero => exact ⟨[], rfl, (List.length_eq_zero_iff.mp hdata).symm⟩
  | succ count ih =>
    have htake : (data.take 8).length = 8 := by
      rw [List.length_take, hdata]
      omega
    have hdrop : (data.drop 8).length = 8 * count := by
      rw [List.length_drop, hdata]
      omega
    obtain ⟨rest, hrest, hbits⟩ := ih hdrop
    obtain ⟨word, hword, hbyte⟩ := exists_eq_bits (data.take 8)
    rw [htake] at hword hbyte
    refine ⟨UInt8.ofNat word :: rest, congrArg (· + 1) hrest, ?_⟩
    have hnat : (UInt8.ofNat word).toNat = word := UInt8.toNat_ofNat_of_lt' hword
    have hcons : contentBits (UInt8.ofNat word :: rest) =
        bits 8 (UInt8.ofNat word).toNat ++ contentBits rest := rfl
    rw [hcons, hnat, ← hbyte, hbits, List.take_append_drop]

/-- The checksum of a content is the complement of the register behind its bits. -/
theorem toBitVec_standardCrc32 (content : List UInt8) :
    (standardCrc32 content).toBitVec =
      ~~~(contentBits content).foldl (feed polynomial) (BitVec.allOnes 32) := rfl

/-- Four bytes can be chosen for a content to get a checksum, and in one way only. -/
theorem existsUnique_four (before after : List UInt8) (target : UInt32) :
    ∃! four : List UInt8, four.length = 4 ∧
      standardCrc32 (before ++ four ++ after) = target := by
  have hbits (four : List UInt8) : standardCrc32 (before ++ four ++ after) = target ↔
      (contentBits before ++ contentBits four ++ contentBits after).foldl (feed polynomial)
        (BitVec.allOnes 32) = ~~~target.toBitVec := by
    rw [← UInt32.toBitVec_inj, toBitVec_standardCrc32, contentBits_append, contentBits_append]
    exact BitVec.not_eq_comm
  obtain ⟨data, hlength, hdata⟩ := exists_foldl_feed_eq polynomial rfl (by decide)
    (contentBits before) (contentBits after) (BitVec.allOnes 32) (~~~target.toBitVec)
  obtain ⟨four, hfour, rfl⟩ := exists_contentBits 4 hlength
  refine ⟨four, ⟨hfour, (hbits four).mpr hdata⟩, ?_⟩
  rintro other ⟨hother, htarget⟩
  have heq := (hbits other).mp htarget
  by_contra hne
  refine foldl_feed_burst_ne polynomial rfl (by decide) (contentBits_injective.ne hne) ?_ ?_
    (contentBits before) (contentBits after) (BitVec.allOnes 32) (heq.trans hdata.symm)
  · rw [length_contentBits, length_contentBits, hother, hfour]
  · rw [length_contentBits, hother]

/-! ### Files -/

/-- Every call succeeds. -/
def goodSystem : System := ⟨true, true, fun _ ↦ true⟩

theorem allSucceed_goodSystem (file : RegularFile) : AllSucceed file goodSystem :=
  ⟨rfl, rfl, fun _ _ ↦ rfl⟩

/-- Whatever a file holds before and behind four of its bytes, these can be chosen for
`get_crc32` to give any checksum, and in one way only. Assumes: the file is not too long to be
one. -/
theorem getCrc32_forced {before after : List UInt8}
    (hsize : before.length + 4 + after.length < 2 ^ 63) (target : UInt32) :
    ∃! four : List UInt8, four.length = 4 ∧ ∀ (file : RegularFile) (beyond : ℕ → UInt8)
      (system : System), file.content = before ++ four ++ after → AllSucceed file system →
        (getCrc32 file beyond system).crc = target := by
  obtain ⟨four, ⟨hfour, htarget⟩, hunique⟩ := existsUnique_four before after target
  refine ⟨four, ⟨hfour, fun file beyond system hcontent hall ↦ ?_⟩, ?_⟩
  · rw [crc_of_allSucceed hall, hcontent, htarget]
  · rintro other ⟨hother, hforced⟩
    have hlength : (before ++ other ++ after).length < 2 ^ 63 := by
      rw [List.length_append, List.length_append, hother]
      exact hsize
    have hcrc := hforced ⟨before ++ other ++ after, hlength⟩ (fun _ ↦ 0) goodSystem rfl
      (allSucceed_goodSystem _)
    rw [crc_of_allSucceed (allSucceed_goodSystem _)] at hcrc
    exact hunique other ⟨hother, hcrc⟩

/-- Four bytes of a file of six give it the checksum 7. -/
theorem getCrc32_forced_six :
    ∃! four : List UInt8, four.length = 4 ∧ ∀ (file : RegularFile) (beyond : ℕ → UInt8)
      (system : System), file.content = [1] ++ four ++ [2] → AllSucceed file system →
        (getCrc32 file beyond system).crc = 7 :=
  @getCrc32_forced [1] [2] (by decide) 7

/-- The register behind two contents. -/
theorem standardCrc32_append (first second : List UInt8) :
    (standardCrc32 (first ++ second)).toBitVec =
      (shift polynomial)^[8 * second.length] (standardCrc32 first).toBitVec ^^^
        (standardCrc32 second).toBitVec := by
  have hfeed := foldl_feed_xor polynomial (by decide) (contentBits second) (BitVec.allOnes 32)
    (standardCrc32 first).toBitVec
  have hstart : BitVec.allOnes 32 ^^^ (standardCrc32 first).toBitVec =
      (contentBits first).foldl (feed polynomial) (BitVec.allOnes 32) := by
    rw [toBitVec_standardCrc32, BitVec.xor_comm, BitVec.xor_allOnes, BitVec.not_not]
  rw [hstart, length_contentBits, ← List.foldl_append, ← contentBits_append] at hfeed
  rw [toBitVec_standardCrc32, hfeed, toBitVec_standardCrc32 second, ← BitVec.xor_allOnes,
    ← BitVec.xor_allOnes, BitVec.xor_comm, BitVec.xor_comm _ (BitVec.allOnes 32)]
  ac_rfl

/-- The checksum of two files one after the other: that of the first one, shifted by the length of
the second one, added to that of the second one. Assumes: all calls on the three files succeed. -/
theorem getCrc32_append {first second both : RegularFile}
    (hboth : both.content = first.content ++ second.content) {system : System}
    (hfirst : AllSucceed first system) (hsecond : AllSucceed second system)
    (hall : AllSucceed both system) (beyond : ℕ → UInt8) :
    (getCrc32 both beyond system).crc.toBitVec =
      (shift polynomial)^[8 * second.content.length] (getCrc32 first beyond system).crc.toBitVec ^^^
        (getCrc32 second beyond system).crc.toBitVec := by
  rw [crc_of_allSucceed hall, crc_of_allSucceed hfirst, crc_of_allSucceed hsecond, hboth,
    standardCrc32_append]

/-- Two files of one byte each. -/
theorem getCrc32_append_letters :
    (getCrc32 ⟨[97, 98], by decide⟩ (fun _ ↦ 0) goodSystem).crc.toBitVec =
      (shift polynomial)^[8] (getCrc32 ⟨[97], by decide⟩ (fun _ ↦ 0) goodSystem).crc.toBitVec ^^^
        (getCrc32 ⟨[98], by decide⟩ (fun _ ↦ 0) goodSystem).crc.toBitVec :=
  @getCrc32_append ⟨[97], by decide⟩ ⟨[98], by decide⟩ ⟨[97, 98], by decide⟩ rfl goodSystem
    (allSucceed_goodSystem _) (allSucceed_goodSystem _) (allSucceed_goodSystem _) fun _ ↦ 0

end Homework.Crc
