import Mathlib.Data.List.Nodup
import Mathlib.Data.List.Perm.Subperm
import Mathlib.Data.List.Range
import Mathlib.Order.Bounds.Basic

/-!
# Descriptors

A new descriptor is the least number from 0 on that is not in use (`isLeast_lowestFree`).
-/

set_option autoImplicit false
set_option relaxedAutoImplicit false

namespace Homework.Library.Descriptors

/-- The lowest descriptor that is not in use. -/
def lowestFree (used : List ℤ) : ℤ :=
  Nat.cast (((List.range (used.length + 1)).find? fun fd : ℕ ↦ (fd : ℤ) ∉ used).getD used.length)

section LowestFree

variable (used : List ℤ)

/-- As many descriptors as are in use, and one more, are not all in use. -/
theorem exists_notMem : ∃ fd < used.length + 1, (fd : ℤ) ∉ used := by
  by_contra hnone
  push Not at hnone
  have hsubset : (List.range (used.length + 1)).map Nat.cast ⊆ used := by
    intro fd hfd
    obtain ⟨number, hnumber, rfl⟩ := List.mem_map.mp hfd
    exact hnone number (List.mem_range.mp hnumber)
  have hnodup : ((List.range (used.length + 1)).map (Nat.cast : ℕ → ℤ)).Nodup :=
    List.nodup_range.map fun _ _ ↦ Int.ofNat.inj
  have hlength := (List.subperm_of_subset hnodup hsubset).length_le
  rw [List.length_map, List.length_range] at hlength
  exact absurd hlength (Nat.not_succ_le_self _)

theorem isLeast_lowestFree : IsLeast {fd : ℤ | 0 ≤ fd ∧ fd ∉ used} (lowestFree used) := by
  obtain ⟨free, hfree, hnotMem⟩ := exists_notMem used
  rcases hfind : (List.range (used.length + 1)).find? fun fd : ℕ ↦ (fd : ℤ) ∉ used with
    _ | fd
  · have hall := List.find?_range_eq_none.mp hfind free hfree
    exact absurd hnotMem (by simpa using hall)
  · obtain ⟨hfd, -, hbelow⟩ := List.find?_range_eq_some.mp hfind
    have hvalue : lowestFree used = fd := by rw [lowestFree, hfind]; rfl
    rw [hvalue]
    refine ⟨⟨Int.natCast_nonneg fd, of_decide_eq_true hfd⟩, ?_⟩
    rintro other ⟨hother, hnone⟩
    obtain ⟨number, rfl⟩ := Int.eq_ofNat_of_zero_le hother
    by_contra hlt
    have hused := hbelow number (Int.ofNat_lt.mp (not_le.mp hlt))
    exact absurd hnone (by simpa using hused)

theorem lowestFree_nonneg : 0 ≤ lowestFree used := (isLeast_lowestFree used).1.1

theorem lowestFree_notMem : lowestFree used ∉ used := (isLeast_lowestFree used).1.2

/-- The new descriptor is below a bound exactly when one below it is not in use. -/
theorem lowestFree_lt_iff {bound : ℤ} :
    lowestFree used < bound ↔ ∃ fd, 0 ≤ fd ∧ fd < bound ∧ fd ∉ used := by
  constructor
  · intro hlt
    exact ⟨lowestFree used, lowestFree_nonneg used, hlt, lowestFree_notMem used⟩
  · rintro ⟨fd, hnonneg, hlt, hnotMem⟩
    exact lt_of_le_of_lt ((isLeast_lowestFree used).2 ⟨hnonneg, hnotMem⟩) hlt

end LowestFree

end Homework.Library.Descriptors
