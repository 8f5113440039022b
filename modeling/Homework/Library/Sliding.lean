import Mathlib.Algebra.BigOperators.Group.List.Basic
import Mathlib.Data.List.Chain
import Mathlib.Data.List.Pairwise

/-!
# Sliding and merging rows

A row of cells, some of them zero, slides towards its front: the tiles, the cells that are not zero,
close up in order, and going from the front each equal adjacent pair is merged once into its double
(`slide`). The values are those of any commutative monoid in which no tile doubles to zero.

Sliding keeps the length and the sum of a row (`length_slide`, `sum_slide`), and each new cell is
zero, a tile, or the double of a tile (`mem_slide`). A row that changes has a free cell afterwards
(`zero_mem_slide_of_ne`). A row without free cells is stuck exactly when no two neighbours are equal
(`slide_eq_self_iff_isChain`), and a row that is stuck in both directions is free of tiles or full
(`eq_zero_or_full_of_stuck`).
-/

set_option autoImplicit false
set_option relaxedAutoImplicit false

namespace Homework.Library.Sliding

variable {M : Type*} [AddCommMonoid M]

/-! ### Padding and tiles -/

/-- A row filled up with free cells. -/
def pad (length : ℕ) (row : List M) : List M := row ++ List.replicate (length - row.length) 0

theorem length_pad {length : ℕ} {row : List M} (hlength : row.length ≤ length) :
    (pad length row).length = length := by
  rw [pad, List.length_append, List.length_replicate]
  exact Nat.add_sub_of_le hlength

theorem sum_pad (length : ℕ) (row : List M) : (pad length row).sum = row.sum := by
  rw [pad, List.sum_append, List.sum_replicate, nsmul_zero, add_zero]

/-- Filling up a short row adds a free cell. -/
theorem zero_mem_pad {length : ℕ} {row : List M} (hlength : row.length < length) :
    (0 : M) ∈ pad length row := by
  refine List.mem_append_right _ (List.mem_replicate.mpr ⟨?_, rfl⟩)
  omega

variable [DecidableEq M]

/-- The tiles of a row, in order. -/
def tiles (row : List M) : List M := row.filter fun cell ↦ cell ≠ 0

@[simp] theorem mem_tiles {row : List M} {cell : M} : cell ∈ tiles row ↔ cell ∈ row ∧ cell ≠ 0 := by
  rw [tiles, List.mem_filter, decide_eq_true_iff]

theorem tiles_append (first second : List M) :
    tiles (first ++ second) = tiles first ++ tiles second :=
  List.filter_append ..

theorem tiles_cons_zero (row : List M) : tiles ((0 : M) :: row) = tiles row := by
  simp [tiles]

theorem tiles_cons_of_ne {cell : M} (hcell : cell ≠ 0) (row : List M) :
    tiles (cell :: row) = cell :: tiles row := by
  simp [tiles, hcell]

theorem tiles_replicate_zero (count : ℕ) : tiles (List.replicate count (0 : M)) = [] := by
  simp [tiles]

theorem length_tiles_le (row : List M) : (tiles row).length ≤ row.length :=
  List.length_filter_le ..

theorem tiles_eq_self {row : List M} (hfull : (0 : M) ∉ row) : tiles row = row := by
  rw [tiles, List.filter_eq_self]
  intro cell hcell
  exact decide_eq_true fun hzero ↦ hfull (hzero ▸ hcell)

/-- A row with a free cell has fewer tiles than cells. -/
theorem length_tiles_lt {row : List M} (hzero : (0 : M) ∈ row) :
    (tiles row).length < row.length := by
  refine lt_of_le_of_ne (length_tiles_le row) fun hlength ↦ ?_
  have hall := List.length_filter_eq_length_iff.mp hlength 0 hzero
  simp at hall

theorem sum_tiles (row : List M) : (tiles row).sum = row.sum := by
  induction row with
  | nil => rfl
  | cons cell rest ih =>
    by_cases hcell : cell = 0
    · rw [hcell, tiles_cons_zero, ih, List.sum_cons, zero_add]
    · rw [tiles_cons_of_ne hcell, List.sum_cons, List.sum_cons, ih]

/-! ### Merging -/

/-- Merges each equal adjacent pair once into its double, going from the front. -/
def mergeTiles : List M → List M
  | first :: second :: rest =>
    if first = second then (first + first) :: mergeTiles rest
    else first :: mergeTiles (second :: rest)
  | row => row

theorem length_mergeTiles_le (row : List M) : (mergeTiles row).length ≤ row.length := by
  fun_induction mergeTiles row with
  | case1 first rest ih => exact Nat.succ_le_succ (ih.trans (Nat.le_succ _))
  | case2 first second rest hne ih => exact Nat.succ_le_succ ih
  | case3 row hrow => exact le_rfl

theorem sum_mergeTiles (row : List M) : (mergeTiles row).sum = row.sum := by
  fun_induction mergeTiles row with
  | case1 first rest ih => rw [List.sum_cons, ih, List.sum_cons, List.sum_cons, add_assoc]
  | case2 first second rest hne ih => rw [List.sum_cons, ih, ← List.sum_cons]
  | case3 row hrow => rfl

/-- A merged cell is a tile or the double of one. -/
theorem mem_mergeTiles {row : List M} {cell : M} (hcell : cell ∈ mergeTiles row) :
    cell ∈ row ∨ ∃ tile ∈ row, cell = tile + tile := by
  fun_induction mergeTiles row with
  | case1 first rest ih =>
    rcases List.mem_cons.mp hcell with hfirst | hrest
    · exact Or.inr ⟨first, List.mem_cons_self, hfirst⟩
    · rcases ih hrest with htile | ⟨tile, htile, hdouble⟩
      · exact Or.inl (List.mem_cons_of_mem _ (List.mem_cons_of_mem _ htile))
      · exact Or.inr ⟨tile, List.mem_cons_of_mem _ (List.mem_cons_of_mem _ htile), hdouble⟩
  | case2 first second rest hne ih =>
    rcases List.mem_cons.mp hcell with hfirst | hrest
    · exact Or.inl (hfirst ▸ List.mem_cons_self)
    · rcases ih hrest with htile | ⟨tile, htile, hdouble⟩
      · exact Or.inl (List.mem_cons_of_mem _ htile)
      · exact Or.inr ⟨tile, List.mem_cons_of_mem _ htile, hdouble⟩
  | case3 row hrow => exact Or.inl hcell

/-- Merging changes nothing exactly when no two neighbours are equal, and shortens the row
otherwise. -/
theorem mergeTiles_eq_self_or_lt (row : List M) :
    (mergeTiles row = row ∧ row.IsChain (· ≠ ·)) ∨
      ((mergeTiles row).length < row.length ∧ ¬ row.IsChain (· ≠ ·)) := by
  fun_induction mergeTiles row with
  | case1 first rest ih =>
    refine Or.inr ⟨?_, fun hchain ↦ ?_⟩
    · exact Nat.succ_lt_succ (Nat.lt_succ_of_le (length_mergeTiles_le rest))
    · exact (List.isChain_cons_cons.mp hchain).1 rfl
  | case2 first second rest hne ih =>
    rw [List.isChain_cons_cons]
    rcases ih with ⟨hsame, hchain⟩ | ⟨hlt, hchain⟩
    · exact Or.inl ⟨congrArg (first :: ·) hsame, hne, hchain⟩
    · exact Or.inr ⟨Nat.succ_lt_succ hlt, fun hboth ↦ hchain hboth.2⟩
  | case3 row hrow =>
    refine Or.inl ⟨rfl, ?_⟩
    rcases row with _ | ⟨first, _ | ⟨second, rest⟩⟩
    · exact List.isChain_nil
    · exact List.isChain_singleton first
    · exact absurd rfl (hrow first second rest)

/-! ### Sliding -/

/-- The row after sliding towards its front. -/
def slide (row : List M) : List M := pad row.length (mergeTiles (tiles row))

theorem length_mergeTiles_tiles_le (row : List M) :
    (mergeTiles (tiles row)).length ≤ row.length :=
  (length_mergeTiles_le _).trans (length_tiles_le row)

@[simp] theorem length_slide (row : List M) : (slide row).length = row.length :=
  length_pad (length_mergeTiles_tiles_le row)

@[simp] theorem sum_slide (row : List M) : (slide row).sum = row.sum := by
  rw [slide, sum_pad, sum_mergeTiles, sum_tiles]

/-- A cell of a row that has slid is free, a tile, or the double of a tile. -/
theorem mem_slide {row : List M} {cell : M} (hcell : cell ∈ slide row) :
    cell = 0 ∨ cell ∈ row ∨ ∃ tile ∈ row, tile ≠ 0 ∧ cell = tile + tile := by
  rcases List.mem_append.mp hcell with hmerged | hfree
  · rcases mem_mergeTiles hmerged with htile | ⟨tile, htile, hdouble⟩
    · exact Or.inr (Or.inl (mem_tiles.mp htile).1)
    · exact Or.inr (Or.inr ⟨tile, (mem_tiles.mp htile).1, (mem_tiles.mp htile).2, hdouble⟩)
  · exact Or.inl (List.eq_of_mem_replicate hfree)

/-- A full row without equal neighbours does not slide. -/
theorem slide_eq_self {row : List M} (hfull : (0 : M) ∉ row) (hchain : row.IsChain (· ≠ ·)) :
    slide row = row := by
  rw [slide, tiles_eq_self hfull]
  rcases mergeTiles_eq_self_or_lt row with ⟨hsame, _⟩ | ⟨_, hnot⟩
  · rw [hsame, pad, Nat.sub_self, List.replicate_zero, List.append_nil]
  · exact absurd hchain hnot

/-- A full row that does not slide has no equal neighbours. -/
theorem isChain_of_slide_eq_self {row : List M} (hfull : (0 : M) ∉ row) (hslide : slide row = row) :
    row.IsChain (· ≠ ·) := by
  rw [slide, tiles_eq_self hfull] at hslide
  rcases mergeTiles_eq_self_or_lt row with ⟨_, hchain⟩ | ⟨hlt, _⟩
  · exact hchain
  · exact absurd (hslide ▸ zero_mem_pad hlt) hfull

/-- A row that slides has a free cell afterwards. -/
theorem zero_mem_slide_of_ne {row : List M} (hslide : slide row ≠ row) : (0 : M) ∈ slide row := by
  apply zero_mem_pad
  by_cases hzero : (0 : M) ∈ row
  · exact (length_mergeTiles_le _).trans_lt (length_tiles_lt hzero)
  · rw [tiles_eq_self hzero]
    rcases mergeTiles_eq_self_or_lt row with ⟨_, hchain⟩ | ⟨hlt, _⟩
    · exact absurd (slide_eq_self hzero hchain) hslide
    · exact hlt

section Doubling

variable (hdouble : ∀ tile : M, tile ≠ 0 → tile + tile ≠ 0)
include hdouble

/-- Merging leaves no free cell among the tiles. -/
theorem zero_notMem_mergeTiles (row : List M) : (0 : M) ∉ mergeTiles (tiles row) := by
  intro hzero
  rcases mem_mergeTiles hzero with htile | ⟨tile, htile, hsum⟩
  · exact (mem_tiles.mp htile).2 rfl
  · exact hdouble tile (mem_tiles.mp htile).2 hsum.symm

/-- The tiles of a row that has slid are its tiles, merged. -/
theorem tiles_slide (row : List M) : tiles (slide row) = mergeTiles (tiles row) := by
  rw [slide, pad, tiles_append, tiles_replicate_zero, List.append_nil,
    tiles_eq_self (zero_notMem_mergeTiles hdouble row)]

/-- A row slides when two of its tiles merge. -/
theorem slide_ne_self_of_not_isChain {row : List M} (hchain : ¬ (tiles row).IsChain (· ≠ ·)) :
    slide row ≠ row := by
  intro hslide
  have htiles := tiles_slide hdouble row
  rw [hslide] at htiles
  rcases mergeTiles_eq_self_or_lt (tiles row) with ⟨_, hyes⟩ | ⟨hlt, _⟩
  · exact hchain hyes
  · rw [← htiles] at hlt
    exact lt_irrefl _ hlt

/-- In a row that does not slide no tile stands behind a free cell. -/
theorem pairwise_of_slide_eq_self {row : List M} (hslide : slide row = row) :
    row.Pairwise fun cell later ↦ cell = 0 → later = 0 := by
  have htiles := zero_notMem_mergeTiles hdouble row
  rw [← hslide, slide, pad, List.pairwise_append]
  refine ⟨?_, ?_, ?_⟩
  · refine List.Pairwise.imp_of_mem (fun hcell _ _ hzero ↦ ?_) (List.pairwise_of_forall fun _ _ ↦
      trivial)
    exact absurd (hzero ▸ hcell) htiles
  · exact List.pairwise_replicate.mpr (Or.inr fun _ ↦ rfl)
  · intro cell hcell later _ hzero
    exact absurd (hzero ▸ hcell) htiles

/-- A row that slides in neither direction has no tiles or no free cells. -/
theorem eq_zero_or_full_of_stuck {row : List M} (hfront : slide row = row)
    (hback : slide row.reverse = row.reverse) : (∀ cell ∈ row, cell = 0) ∨ (0 : M) ∉ row := by
  have hlater := pairwise_of_slide_eq_self hdouble hfront
  have hearlier := List.pairwise_reverse.mp (pairwise_of_slide_eq_self hdouble hback)
  have hsame := hlater.forall_of_forall_of_flip (fun _ _ ↦ id) hearlier
  by_cases hzero : (0 : M) ∈ row
  · exact Or.inl fun cell hcell ↦ hsame hzero hcell rfl
  · exact Or.inr hzero

end Doubling

end Homework.Library.Sliding
