import Homework.Library.Sliding
import Mathlib.Algebra.BigOperators.Fin

/-!
# Rows of the 2048 game

`slideAndMergeRow` works on one row in three loops: it copies the tiles to the front of `temp`,
merges equal neighbours of `temp` in place, and copies what is left to the front of `final`. The
cells are `int`; the model computes in the integers and notes when a doubling leaves the range of
`int`, after which C says nothing about the row.

When the tiles can be doubled, the function slides and merges the row, notes no overflow, and
returns whether the row changes (`slideAndMergeRow_eq`).
-/

set_option autoImplicit false
set_option relaxedAutoImplicit false

namespace Homework.Game2048

open Homework.Library.Sliding

/-! ### `slideAndMergeRow` -/

/-- `SIZE`. -/
abbrev size : ℕ := 4

/-- A row of the board. -/
abbrev Row := Fin size → ℤ

/-- The value is an `int`. -/
def FitsInt (value : ℤ) : Prop := -2 ^ 31 ≤ value ∧ value ≤ 2 ^ 31 - 1

instance (value : ℤ) : Decidable (FitsInt value) :=
  inferInstanceAs (Decidable (_ ∧ _))

/-- A copying loop of `slideAndMergeRow`: `dest[t++] = cell` for the cells that are not zero. -/
def copyTiles : List ℤ → List ℤ → ℕ → List ℤ
  | [], dest, _ => dest
  | cell :: rest, dest, t =>
    if cell ≠ 0 then copyTiles rest (dest.set t cell) (t + 1) else copyTiles rest dest t

/-- The merging loop: the cells of `temp` after it, whether it sets `moved`, and whether a doubling
overflows. -/
structure Merge where
  cells : List ℤ
  moved : Bool
  overflow : Bool

/-- The merging loop from the place where `temp` holds `cell` and, behind it, the other cells. A
merge clears the next cell, which is the one the loop looks at next. -/
def mergeLoop : ℤ → List ℤ → Merge
  | cell, [] => ⟨[cell], false, false⟩
  | cell, next :: rest =>
    if cell ≠ 0 ∧ cell = next then
      let later := mergeLoop 0 rest
      ⟨cell * 2 :: later.cells, true, !decide (FitsInt (cell * 2)) || later.overflow⟩
    else
      let later := mergeLoop next rest
      ⟨cell :: later.cells, later.moved, later.overflow⟩

/-- The merging loop over all of `temp`. -/
def mergeRow : List ℤ → Merge
  | [] => ⟨[], false, false⟩
  | cell :: rest => mergeLoop cell rest

/-- The row after `slideAndMergeRow`, its return value, and whether a doubling overflows. -/
structure Slide where
  row : Row
  moved : Bool
  overflow : Bool

/-- `slideAndMergeRow`. -/
def slideAndMergeRow (row : Row) : Slide :=
  let temp := copyTiles (List.ofFn row) (List.replicate size 0) 0
  let merged := mergeRow temp
  let final := copyTiles merged.cells (List.replicate size 0) 0
  { row := fun i ↦ final.getD i 0
    moved := merged.moved || decide (∃ i : Fin size, row i ≠ final.getD i 0)
    overflow := merged.overflow }

/-! ### The loops -/

/-- A tile can be doubled without overflow. -/
def Doublable (cell : ℤ) : Prop := FitsInt (cell * 2)

theorem doublable_zero : Doublable 0 := by
  unfold Doublable FitsInt
  decide

theorem pad_succ_cons (length : ℕ) (cell : ℤ) (row : List ℤ) :
    pad (length + 1) (cell :: row) = cell :: pad length row := by
  rw [pad, List.length_cons, Nat.add_sub_add_right]
  rfl

/-- The copying loop puts the tiles behind what it has copied. -/
theorem copyTiles_eq (cells copied : List ℤ) {room : ℕ} (hroom : (tiles cells).length ≤ room) :
    copyTiles cells (copied ++ List.replicate room 0) copied.length =
      copied ++ pad room (tiles cells) := by
  induction cells generalizing copied room with
  | nil => rfl
  | cons cell rest ih =>
    rw [copyTiles]
    by_cases hcell : cell = 0
    · subst hcell
      rw [tiles_cons_zero] at hroom ⊢
      rw [if_neg (not_not.mpr rfl)]
      exact ih copied hroom
    · rw [tiles_cons_of_ne hcell] at hroom ⊢
      rcases room with _ | room
      · exact absurd hroom (Nat.not_succ_le_zero _)
      · have hset : (copied ++ List.replicate (room + 1) 0).set copied.length cell =
            (copied ++ [cell]) ++ List.replicate room 0 := by
          rw [List.set_append_right _ _ le_rfl, Nat.sub_self, List.replicate_succ,
            List.set_cons_zero, List.append_assoc]
          rfl
        have hnext := ih (copied ++ [cell]) (Nat.le_of_succ_le_succ hroom)
        rw [List.length_append, List.length_singleton] at hnext
        rw [if_pos hcell, hset, hnext, pad_succ_cons, List.append_assoc]
        rfl

/-- The copying loop into a clear row. -/
theorem copyTiles_clear {cells : List ℤ} {length : ℕ} (hlength : cells.length = length) :
    copyTiles cells (List.replicate length 0) 0 = pad length (tiles cells) :=
  copyTiles_eq cells [] (hlength ▸ length_tiles_le cells)

theorem length_mergeLoop (cell : ℤ) (rest : List ℤ) :
    (mergeLoop cell rest).cells.length = rest.length + 1 := by
  induction rest generalizing cell with
  | nil => rfl
  | cons next rest ih =>
    rw [mergeLoop]
    split_ifs
    · exact congrArg (· + 1) (ih 0)
    · exact congrArg (· + 1) (ih next)

/-- No doubling of the merging loop overflows when every tile can be doubled. -/
theorem overflow_mergeLoop {cell : ℤ} {rest : List ℤ} (hcell : Doublable cell)
    (hrest : ∀ next ∈ rest, Doublable next) : (mergeLoop cell rest).overflow = false := by
  induction rest generalizing cell with
  | nil => rfl
  | cons next rest ih =>
    have hlater : ∀ tile ∈ rest, Doublable tile := fun tile htile ↦
      hrest tile (List.mem_cons_of_mem _ htile)
    rw [mergeLoop]
    split_ifs
    · show (!decide (FitsInt (cell * 2)) || (mergeLoop 0 rest).overflow) = false
      rw [decide_eq_true (show FitsInt (cell * 2) from hcell), ih doublable_zero hlater]
      rfl
    · exact ih (hrest next List.mem_cons_self) hlater

/-- Behind a free cell only free cells follow. -/
def Packed (cells : List ℤ) : Prop := cells.Pairwise fun cell later ↦ cell = 0 → later = 0

theorem tiles_eq_nil_of_packed {rest : List ℤ} (hpacked : Packed ((0 : ℤ) :: rest)) :
    tiles rest = [] := by
  rw [List.eq_nil_iff_forall_not_mem]
  intro tile htile
  have hzero := (List.pairwise_cons.mp hpacked).1 tile (mem_tiles.mp htile).1 rfl
  exact (mem_tiles.mp htile).2 hzero

/-- On a packed row the merging loop leaves the merged tiles, and sets `moved` when two neighbours
are equal. -/
theorem mergeLoop_eq (cell : ℤ) {rest : List ℤ} (hpacked : Packed rest) :
    tiles (mergeLoop cell rest).cells = mergeTiles (tiles (cell :: rest)) ∧
      ((mergeLoop cell rest).moved = true ↔ ¬ (tiles (cell :: rest)).IsChain (· ≠ ·)) := by
  induction rest generalizing cell with
  | nil =>
    by_cases hcell : cell = 0
    · subst hcell
      exact ⟨rfl, iff_of_false Bool.false_ne_true (not_not.mpr List.isChain_nil)⟩
    · rw [tiles_cons_of_ne hcell]
      exact ⟨tiles_cons_of_ne hcell [],
        iff_of_false Bool.false_ne_true (not_not.mpr (List.isChain_singleton cell))⟩
  | cons next rest ih =>
    have hrest : Packed rest := (List.pairwise_cons.mp hpacked).2
    rw [mergeLoop]
    split_ifs with hmerge
    · obtain ⟨hcell, rfl⟩ := hmerge
      have hdouble : cell * 2 ≠ 0 := by omega
      obtain ⟨htiles, _⟩ := ih 0 hrest
      rw [tiles_cons_zero] at htiles
      rw [tiles_cons_of_ne hcell, tiles_cons_of_ne hcell]
      refine ⟨?_, iff_of_true rfl fun hchain ↦ (List.isChain_cons_cons.mp hchain).1 rfl⟩
      show tiles (cell * 2 :: (mergeLoop 0 rest).cells) = mergeTiles (cell :: cell :: tiles rest)
      rw [tiles_cons_of_ne hdouble, htiles, mergeTiles, if_pos rfl, mul_two]
    · obtain ⟨htiles, hmoved⟩ := ih next hrest
      by_cases hcell : cell = 0
      · subst hcell
        rw [tiles_cons_zero]
        exact ⟨(tiles_cons_zero _).trans htiles, hmoved⟩
      · have hne : cell ≠ next := fun heq ↦ hmerge ⟨hcell, heq⟩
        show tiles (cell :: (mergeLoop next rest).cells) =
            mergeTiles (tiles (cell :: next :: rest)) ∧
          ((mergeLoop next rest).moved = true ↔ ¬ (tiles (cell :: next :: rest)).IsChain (· ≠ ·))
        rw [tiles_cons_of_ne hcell (mergeLoop next rest).cells,
          tiles_cons_of_ne hcell (next :: rest), htiles, hmoved]
        by_cases hnext : next = 0
        · subst hnext
          rw [tiles_cons_zero, tiles_eq_nil_of_packed hpacked]
          exact ⟨rfl, iff_of_false (not_not.mpr List.isChain_nil)
            (not_not.mpr (List.isChain_singleton cell))⟩
        · rw [tiles_cons_of_ne hnext, mergeTiles, if_neg hne, List.isChain_cons_cons]
          exact ⟨rfl, not_congr ⟨fun hchain ↦ ⟨hne, hchain⟩, fun hboth ↦ hboth.2⟩⟩

/-! ### The row -/

theorem add_self_ne_zero (tile : ℤ) (htile : tile ≠ 0) : tile + tile ≠ 0 := by
  omega

/-- A row padded behind its tiles is packed. -/
theorem packed_pad (length : ℕ) (row : List ℤ) : Packed (pad length (tiles row)) := by
  rw [Packed, pad, List.pairwise_append]
  refine ⟨?_, List.pairwise_replicate.mpr (Or.inr fun _ ↦ rfl), ?_⟩
  · rw [List.pairwise_iff_forall_sublist]
    intro first second hsub hzero
    have hfirst : first ∈ tiles row := hsub.subset List.mem_cons_self
    exact absurd hzero (mem_tiles.mp hfirst).2
  · intro tile htile _ _ hzero
    exact absurd hzero (mem_tiles.mp htile).2

theorem tiles_pad (length : ℕ) (row : List ℤ) : tiles (pad length (tiles row)) = tiles row := by
  have hzero : (0 : ℤ) ∉ tiles row := fun hmem ↦ (mem_tiles.mp hmem).2 rfl
  rw [pad, tiles_append, tiles_replicate_zero, List.append_nil, tiles_eq_self hzero]

theorem length_mergeRow (cells : List ℤ) : (mergeRow cells).cells.length = cells.length := by
  rcases cells with _ | ⟨cell, rest⟩
  · rfl
  · exact length_mergeLoop cell rest

theorem mergeRow_eq {cells : List ℤ} (hpacked : Packed cells) :
    tiles (mergeRow cells).cells = mergeTiles (tiles cells) ∧
      ((mergeRow cells).moved = true ↔ ¬ (tiles cells).IsChain (· ≠ ·)) := by
  rcases cells with _ | ⟨cell, rest⟩
  · exact ⟨rfl, iff_of_false Bool.false_ne_true (not_not.mpr List.isChain_nil)⟩
  · exact mergeLoop_eq cell (List.pairwise_cons.mp hpacked).2

/-- The list of a row that is read off a list. -/
theorem ofFn_getD {cells : List ℤ} (hlength : cells.length = size) :
    (List.ofFn fun i : Fin size ↦ cells.getD i 0) = cells := by
  apply List.ext_getElem
  · rw [List.length_ofFn, hlength]
  · intro place _ hplace
    rw [List.getElem_ofFn, List.getD_eq_getElem?_getD, List.getElem?_eq_getElem hplace,
      Option.getD_some]

/-- `temp` after the first loop. -/
theorem copyTiles_ofFn (row : Row) : copyTiles (List.ofFn row) (List.replicate size 0) 0 =
    pad size (tiles (List.ofFn row)) :=
  copyTiles_clear List.length_ofFn

/-- `final` is the row slid and merged. -/
theorem copyTiles_mergeRow (row : Row) :
    copyTiles (mergeRow (pad size (tiles (List.ofFn row)))).cells (List.replicate size 0) 0 =
      slide (List.ofFn row) := by
  have hrow : (List.ofFn row).length = size := List.length_ofFn
  have htiles : (tiles (List.ofFn row)).length ≤ size := (length_tiles_le _).trans_eq hrow
  have hlength := (length_mergeRow _).trans (length_pad htiles)
  have hmerge := (mergeRow_eq (packed_pad size (List.ofFn row))).1
  rw [copyTiles_clear hlength, hmerge, tiles_pad, slide, hrow]

/-- `slideAndMergeRow` slides the row and returns whether that changes it. -/
theorem slideAndMergeRow_eq (row : Row) :
    List.ofFn (slideAndMergeRow row).row = slide (List.ofFn row) ∧
      ((slideAndMergeRow row).moved = true ↔ slide (List.ofFn row) ≠ List.ofFn row) := by
  have hfinal := ofFn_getD ((length_slide (List.ofFn row)).trans List.length_ofFn)
  have hmerge := (mergeRow_eq (packed_pad size (List.ofFn row))).2
  have hchanged : (∃ i : Fin size, row i ≠ (slide (List.ofFn row)).getD i 0) ↔
      slide (List.ofFn row) ≠ List.ofFn row := by
    rw [← Function.ne_iff, ← List.ofFn_injective.ne_iff, hfinal, ne_comm]
  unfold slideAndMergeRow
  simp only [copyTiles_ofFn, copyTiles_mergeRow, Bool.or_eq_true, decide_eq_true_eq]
  refine ⟨hfinal, ?_⟩
  rw [hmerge, tiles_pad, hchanged]
  exact or_iff_right_of_imp (slide_ne_self_of_not_isChain add_self_ne_zero)

/-- `slideAndMergeRow` does not overflow when every tile can be doubled. -/
theorem overflow_slideAndMergeRow {row : Row} (hrow : ∀ i, Doublable (row i)) :
    (slideAndMergeRow row).overflow = false := by
  have hcells : ∀ cell ∈ pad size (tiles (List.ofFn row)), Doublable cell := by
    intro cell hcell
    rcases List.mem_append.mp hcell with htile | hfree
    · obtain ⟨i, rfl⟩ := List.mem_ofFn.mp (mem_tiles.mp htile).1
      exact hrow i
    · rw [List.eq_of_mem_replicate hfree]
      exact doublable_zero
  unfold slideAndMergeRow
  simp only [copyTiles_ofFn]
  generalize pad size (tiles (List.ofFn row)) = temp at hcells
  rcases temp with _ | ⟨cell, rest⟩
  · rfl
  · exact overflow_mergeLoop (hcells cell List.mem_cons_self) fun next hnext ↦
      hcells next (List.mem_cons_of_mem _ hnext)

end Homework.Game2048
