import Homework.Game2048.Row
import Mathlib.Algebra.BigOperators.Group.Finset.Piecewise
import Mathlib.Data.Fintype.BigOperators

/-!
# The board of the 2048 game

A move reads every line of the board from the wall the tiles move to, slides it by
`slideAndMergeRow`, and writes it back. The four moves differ only in the order in which they read
the cells, so each is `moveAlong` its own reading order. The lines of one move are disjoint, so they
can be read before any is written.

What a move does follows from what sliding does to a row: every line slides (`line_moveAlong`), the
move returns whether the board changes (`moved_moveAlong_iff_ne`), the sum of the board stays
(`sum_moveAlong`), each cell is free, a tile, or the double of a tile (`moveAlong_cell`), and a
board that changes has a free cell (`exists_free_of_moved`).
-/

set_option autoImplicit false
set_option relaxedAutoImplicit false

namespace Homework.Game2048

open Homework.Library.Sliding

/-! ### The board and its lines -/

/-- The place of a cell: its row and its column. -/
abbrev Cell := Fin size × Fin size

/-- `board`. -/
abbrev Board := Cell → ℤ

/-- The line of a board with a number, in a reading order. -/
def line (place : Cell ≃ Cell) (board : Board) (number : Fin size) : List ℤ :=
  List.ofFn fun i ↦ board (place (number, i))

/-! ### The moves -/

/-- The board after a move, the return value, and whether a doubling overflows. -/
structure Move where
  board : Board
  moved : Bool
  overflow : Bool

/-- The loop of the four moves: slides every line that the reading order gives. -/
def moveAlong (place : Cell ≃ Cell) (board : Board) : Move :=
  let slides := fun number ↦ slideAndMergeRow fun i ↦ board (place (number, i))
  { board := fun cell ↦ (slides (place.symm cell).1).row (place.symm cell).2
    moved := decide (∃ number, (slides number).moved = true)
    overflow := decide (∃ number, (slides number).overflow = true) }

/-- `moveLeft` reads `board[i][j]`, where `i` is the line. -/
def leftCells : Cell ≃ Cell := Equiv.refl Cell

/-- `moveRight` reads `board[i][SIZE - 1 - j]`, where `i` is the line. -/
def rightCells : Cell ≃ Cell where
  toFun cell := (cell.1, cell.2.rev)
  invFun cell := (cell.1, cell.2.rev)
  left_inv cell := Prod.ext rfl (Fin.rev_rev cell.2)
  right_inv cell := Prod.ext rfl (Fin.rev_rev cell.2)

/-- `moveUp` reads `board[i][j]`, where `j` is the line. -/
def upCells : Cell ≃ Cell where
  toFun cell := (cell.2, cell.1)
  invFun cell := (cell.2, cell.1)
  left_inv _ := rfl
  right_inv _ := rfl

/-- `moveDown` reads `board[SIZE - 1 - i][j]`, where `j` is the line. -/
def downCells : Cell ≃ Cell where
  toFun cell := (cell.2.rev, cell.1)
  invFun cell := (cell.2, cell.1.rev)
  left_inv cell := Prod.ext rfl (Fin.rev_rev cell.2)
  right_inv cell := Prod.ext (Fin.rev_rev cell.1) rfl

/-- `moveLeft`. -/
def moveLeft (board : Board) : Move := moveAlong leftCells board

/-- `moveRight`. -/
def moveRight (board : Board) : Move := moveAlong rightCells board

/-- `moveUp`. -/
def moveUp (board : Board) : Move := moveAlong upCells board

/-- `moveDown`. -/
def moveDown (board : Board) : Move := moveAlong downCells board

/-! ### The tests -/

/-- `canMove`. -/
def canMove (board : Board) : Bool :=
  decide (∃ i j : Fin size, board (i, j) = 0 ∨
    (j.val < size - 1 ∧ board (i, j) = board (i, j + 1)) ∨
    (i.val < size - 1 ∧ board (i, j) = board (i + 1, j)))

/-- `checkWin`. -/
def checkWin (board : Board) : Bool := decide (∃ cell, board cell = 2048)

/-! ### New tiles -/

/-- The cells of the board in the order of the loops. -/
def cells : List Cell := (List.finRange size).flatMap fun i ↦ (List.finRange size).map (i, ·)

/-- `empty[0]` to `empty[count - 1]`. -/
def emptyCells (board : Board) : List Cell := cells.filter fun cell ↦ board cell = 0

/-- The board after `addRandomTile`, and the value of the new tile, if there is one. -/
structure Spawn where
  board : Board
  value : Option ℤ

/-- `addRandomTile`, for the values of the two calls of `rand`. -/
def addRandomTile (first second : ℕ) (board : Board) : Spawn :=
  let empty := emptyCells board
  let count := empty.length
  if count > 0 then
    let r := first % count
    let val : ℤ := if second % 10 = 0 then 4 else 2
    ⟨Function.update board (empty.getD r (0, 0)) val, some val⟩
  else ⟨board, none⟩

/-! ### What a move does -/

section Moves

variable (place : Cell ≃ Cell) (board : Board)

/-- Every line of the board slides. -/
theorem line_moveAlong (number : Fin size) :
    line place (moveAlong place board).board number = slide (line place board number) := by
  have hslide := (slideAndMergeRow_eq fun i ↦ board (place (number, i))).1
  unfold line
  rw [← hslide]
  congr 1
  ext1 i
  simp only [moveAlong, Equiv.symm_apply_apply]

/-- A move returns 1 exactly when some line slides. -/
theorem moved_moveAlong_iff : (moveAlong place board).moved = true ↔
    ∃ number, slide (line place board number) ≠ line place board number := by
  rw [moveAlong, decide_eq_true_iff]
  exact exists_congr fun number ↦ (slideAndMergeRow_eq _).2

/-- Boards with the same lines are the same. -/
theorem eq_of_line_eq {first second : Board}
    (hlines : ∀ number, line place first number = line place second number) : first = second := by
  ext1 cell
  have hline := congrFun (List.ofFn_injective (hlines (place.symm cell).1)) (place.symm cell).2
  simpa only [Prod.mk.eta, Equiv.apply_symm_apply] using hline

/-- A move returns 1 exactly when it changes the board. -/
theorem moved_moveAlong_iff_ne :
    (moveAlong place board).moved = true ↔ (moveAlong place board).board ≠ board := by
  rw [moved_moveAlong_iff, ← not_iff_not, not_not, not_exists]
  simp only [not_not, ← line_moveAlong]
  exact ⟨fun hlines ↦ eq_of_line_eq place hlines, fun hboard number ↦ by rw [hboard]⟩

theorem sum_eq_sum_line : ∑ cell, board cell = ∑ number, (line place board number).sum := by
  rw [← Equiv.sum_comp place, Fintype.sum_prod_type]
  exact Finset.sum_congr rfl fun number _ ↦ (List.sum_ofFn ..).symm

/-- A move keeps the sum of the board. -/
theorem sum_moveAlong : ∑ cell, (moveAlong place board).board cell = ∑ cell, board cell := by
  rw [sum_eq_sum_line place, sum_eq_sum_line place board]
  exact Finset.sum_congr rfl fun number _ ↦ by rw [line_moveAlong, sum_slide]

/-- The cells of a board are those of its lines. -/
theorem mem_line_iff {number : Fin size} {value : ℤ} :
    value ∈ line place board number ↔ ∃ i, board (place (number, i)) = value :=
  List.mem_ofFn

/-- A cell after a move is free, a tile, or the double of a tile. -/
theorem moveAlong_cell (cell : Cell) : (moveAlong place board).board cell = 0 ∨
    (∃ source, (moveAlong place board).board cell = board source) ∨
      ∃ source, board source ≠ 0 ∧
        (moveAlong place board).board cell = board source + board source := by
  have hmem : (moveAlong place board).board cell ∈
      line place (moveAlong place board).board (place.symm cell).1 :=
    (mem_line_iff place _).mpr ⟨(place.symm cell).2, by
      rw [Prod.mk.eta, Equiv.apply_symm_apply]⟩
  rw [line_moveAlong] at hmem
  rcases mem_slide hmem with hzero | htile | ⟨tile, htile, hne, hdouble⟩
  · exact Or.inl hzero
  · obtain ⟨i, hi⟩ := (mem_line_iff place board).mp htile
    exact Or.inr (Or.inl ⟨_, hi.symm⟩)
  · obtain ⟨i, rfl⟩ := (mem_line_iff place board).mp htile
    exact Or.inr (Or.inr ⟨_, hne, hdouble⟩)

/-- After a move that changes the board there is a free cell. -/
theorem exists_free_of_moved (hmoved : (moveAlong place board).moved = true) :
    ∃ cell, (moveAlong place board).board cell = 0 := by
  obtain ⟨number, hslide⟩ := (moved_moveAlong_iff place board).mp hmoved
  have hzero := zero_mem_slide_of_ne hslide
  rw [← line_moveAlong] at hzero
  obtain ⟨i, hi⟩ := (mem_line_iff place _).mp hzero
  exact ⟨_, hi⟩

/-- A move does not overflow when every tile can be doubled. -/
theorem overflow_moveAlong {board : Board} (hboard : ∀ cell, Doublable (board cell)) :
    (moveAlong place board).overflow = false := by
  rw [moveAlong, decide_eq_false_iff_not, not_exists]
  intro number
  rw [overflow_slideAndMergeRow fun i ↦ hboard _]
  exact Bool.false_ne_true

end Moves

/-! ### What a new tile does -/

theorem mem_emptyCells {board : Board} {cell : Cell} :
    cell ∈ emptyCells board ↔ board cell = 0 := by
  have hcells : cell ∈ cells := by
    revert cell
    decide
  rw [emptyCells, List.mem_filter, decide_eq_true_iff, and_iff_right hcells]

/-- On a board with a free cell, `addRandomTile` turns exactly one free cell into 2 or 4. -/
theorem addRandomTile_of_free (first second : ℕ) {board : Board} (hfree : ∃ cell, board cell = 0) :
    ∃ cell value, board cell = 0 ∧ (value = 2 ∨ value = 4) ∧
      addRandomTile first second board = ⟨Function.update board cell value, some value⟩ := by
  obtain ⟨free, hfree⟩ := hfree
  have hcount : (emptyCells board).length > 0 :=
    List.length_pos_of_mem (mem_emptyCells.mpr hfree)
  have hr := Nat.mod_lt first hcount
  refine ⟨(emptyCells board).getD (first % (emptyCells board).length) (0, 0),
    if second % 10 = 0 then 4 else 2, ?_, ?_, ?_⟩
  · apply mem_emptyCells.mp
    rw [List.getD_eq_getElem?_getD, List.getElem?_eq_getElem hr, Option.getD_some]
    exact List.getElem_mem hr
  · split_ifs
    · exact Or.inr rfl
    · exact Or.inl rfl
  · rw [addRandomTile, if_pos hcount]

/-- A new tile adds its value to the sum of the board. -/
theorem sum_update {board : Board} {cell : Cell} (hfree : board cell = 0) (value : ℤ) :
    ∑ place, Function.update board cell value place = ∑ place, board place + value := by
  have hrest := Finset.sum_update_of_mem (Finset.mem_univ cell) board value
  have hall := Finset.sum_eq_add_sum_sdiff_singleton_of_mem (Finset.mem_univ cell) board
  rw [hrest, hall, hfree, zero_add, add_comm]

end Homework.Game2048
