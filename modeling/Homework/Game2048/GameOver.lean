import Homework.Game2048.GameLoop
import Mathlib.Algebra.Order.BigOperators.Group.List
import Mathlib.Data.List.ChainOfFn
import Mathlib.Tactic.IntervalCases

/-!
# The end of the game

`canMove` looks for a free cell and for equal neighbours to the right and below, while a move is
possible when some line of the board slides in one of four directions. The two agree on every board
with a tile (`canMove_eq_true_iff`).

A board on which `canMove` finds nothing is full without equal neighbours, so no line slides. When
no line slides in any direction, each row and each column is free of tiles or full, and a tile makes
its row full, then every column, so the board is full, and no neighbours are equal.
-/

set_option autoImplicit false
set_option relaxedAutoImplicit false

namespace Homework.Game2048

open Homework.Library.Sliding

/-! ### Rows and columns -/

/-- `moveRight` reads the rows backwards. -/
theorem line_rightCells (board : Board) (i : Fin size) :
    line rightCells board i = (line leftCells board i).reverse :=
  rfl

/-- `moveDown` reads the columns backwards. -/
theorem line_downCells (board : Board) (j : Fin size) :
    line downCells board j = (line upCells board j).reverse :=
  rfl

/-- The board is full and no two neighbours are equal. -/
structure Blocked (board : Board) : Prop where
  full : ∀ cell, board cell ≠ 0
  row_isChain : ∀ i, (line leftCells board i).IsChain (· ≠ ·)
  column_isChain : ∀ j, (line upCells board j).IsChain (· ≠ ·)

/-- The neighbours in a row, by index. -/
theorem isChain_ofFn_iff (row : Row) : (List.ofFn row).IsChain (· ≠ ·) ↔
    ∀ i : Fin size, i.val < size - 1 → row i ≠ row (i + 1) := by
  rw [List.isChain_ofFn]
  constructor
  · intro hchain i hi
    have hnext : (⟨i.val + 1, Nat.add_lt_of_lt_sub hi⟩ : Fin size) = i + 1 := by
      revert i
      decide
    exact hnext ▸ hchain i.val (Nat.add_lt_of_lt_sub hi)
  · intro hrow i hi
    have hnext : (⟨i, Nat.lt_of_succ_lt hi⟩ : Fin size) + 1 = ⟨i + 1, hi⟩ := by
      have hsmall : i < 3 := Nat.lt_of_succ_lt_succ hi
      interval_cases i <;> rfl
    exact hnext ▸ hrow ⟨i, Nat.lt_of_succ_lt hi⟩ (Nat.lt_sub_of_add_lt hi)

/-- `canMove` returns 0 exactly on blocked boards. -/
theorem canMove_eq_false_iff (board : Board) : canMove board = false ↔ Blocked board := by
  have hrow : ∀ i, (line leftCells board i).IsChain (· ≠ ·) ↔
      ∀ j : Fin size, j.val < size - 1 → board (i, j) ≠ board (i, j + 1) :=
    fun i ↦ isChain_ofFn_iff fun j ↦ board (i, j)
  have hcolumn : ∀ j, (line upCells board j).IsChain (· ≠ ·) ↔
      ∀ i : Fin size, i.val < size - 1 → board (i, j) ≠ board (i + 1, j) :=
    fun j ↦ isChain_ofFn_iff fun i ↦ board (i, j)
  rw [canMove, decide_eq_false_iff_not]
  push Not
  constructor
  · intro hnone
    refine ⟨fun cell ↦ (hnone cell.1 cell.2).1, fun i ↦ ?_, fun j ↦ ?_⟩
    · exact (hrow i).mpr fun j ↦ (hnone i j).2.1
    · exact (hcolumn j).mpr fun i ↦ (hnone i j).2.2
  · intro hblocked i j
    exact ⟨hblocked.full (i, j), (hrow i).mp (hblocked.row_isChain i) j,
      (hcolumn j).mp (hblocked.column_isChain j) i⟩

/-! ### Stuck boards -/

/-- No line slides in any direction. -/
def Stuck (board : Board) : Prop :=
  (∀ j, slide (line upCells board j) = line upCells board j) ∧
    (∀ j, slide (line downCells board j) = line downCells board j) ∧
    (∀ i, slide (line leftCells board i) = line leftCells board i) ∧
    ∀ i, slide (line rightCells board i) = line rightCells board i

/-- A full line without equal neighbours slides neither way. -/
theorem slide_eq_self_both {row : List ℤ} (hfull : (0 : ℤ) ∉ row) (hchain : row.IsChain (· ≠ ·)) :
    slide row = row ∧ slide row.reverse = row.reverse := by
  refine ⟨slide_eq_self hfull hchain, slide_eq_self (fun hzero ↦ hfull ?_) ?_⟩
  · exact List.mem_reverse.mp hzero
  · rw [List.isChain_reverse]
    exact hchain.imp fun _ _ hne ↦ hne.symm

/-- A blocked board is stuck. -/
theorem Blocked.stuck {board : Board} (hblocked : Blocked board) : Stuck board := by
  have hfull : ∀ place number, (0 : ℤ) ∉ line place board number := by
    intro place number hzero
    obtain ⟨i, hi⟩ := (mem_line_iff place board).mp hzero
    exact hblocked.full _ hi
  refine ⟨fun j ↦ ?_, fun j ↦ ?_, fun i ↦ ?_, fun i ↦ ?_⟩
  · exact (slide_eq_self_both (hfull _ j) (hblocked.column_isChain j)).1
  · rw [line_downCells]
    exact (slide_eq_self_both (hfull _ j) (hblocked.column_isChain j)).2
  · exact (slide_eq_self_both (hfull _ i) (hblocked.row_isChain i)).1
  · rw [line_rightCells]
    exact (slide_eq_self_both (hfull _ i) (hblocked.row_isChain i)).2

/-- On a stuck board a tile fills its line. -/
theorem full_of_tile {board : Board} (place : Cell ≃ Cell) {number : Fin size}
    (hfront : slide (line place board number) = line place board number)
    (hback : slide (line place board number).reverse = (line place board number).reverse)
    {i : Fin size} (htile : board (place (number, i)) ≠ 0) (j : Fin size) :
    board (place (number, j)) ≠ 0 := by
  rcases eq_zero_or_full_of_stuck add_self_ne_zero hfront hback with hempty | hfull
  · exact absurd (hempty _ ((mem_line_iff place board).mpr ⟨i, rfl⟩)) htile
  · exact fun hzero ↦ hfull ((mem_line_iff place board).mpr ⟨j, hzero⟩)

/-- A stuck board with a tile is blocked. -/
theorem Stuck.blocked {board : Board} (hstuck : Stuck board) (htile : ∃ cell, board cell ≠ 0) :
    Blocked board := by
  obtain ⟨hup, hdown, hleft, hright⟩ := hstuck
  obtain ⟨⟨i, j⟩, htile⟩ := htile
  have hrow : ∀ j', board (i, j') ≠ 0 := fun j' ↦
    full_of_tile leftCells (hleft i) (line_rightCells board i ▸ hright i) htile j'
  have hfull : ∀ cell, board cell ≠ 0 := fun cell ↦
    full_of_tile upCells (hup cell.2) (line_downCells board cell.2 ▸ hdown cell.2)
      (hrow cell.2) cell.1
  have hline : ∀ place number, (0 : ℤ) ∉ line place board number := by
    intro place number hzero
    obtain ⟨k, hk⟩ := (mem_line_iff place board).mp hzero
    exact hfull _ hk
  exact ⟨hfull, fun i' ↦ isChain_of_slide_eq_self (hline _ i') (hleft i'), fun j' ↦
    isChain_of_slide_eq_self (hline _ j') (hup j')⟩

/-! ### The game-over test -/

/-- Some move returns 1. -/
def SomeMove (board : Board) : Prop :=
  (moveUp board).moved = true ∨ (moveDown board).moved = true ∨ (moveLeft board).moved = true ∨
    (moveRight board).moved = true

/-- No move returns 1 exactly on stuck boards. -/
theorem not_someMove_iff (board : Board) : ¬ SomeMove board ↔ Stuck board := by
  unfold SomeMove Stuck moveUp moveDown moveLeft moveRight
  simp only [moved_moveAlong_iff, not_or, not_exists, not_not]

/-- `canMove` finds a move exactly when there is one. Assumes: the board has a tile. -/
theorem canMove_eq_true_iff {board : Board} (htile : ∃ cell, board cell ≠ 0) :
    canMove board = true ↔ SomeMove board := by
  rw [← not_iff_not, Bool.not_eq_true, canMove_eq_false_iff, not_someMove_iff]
  exact ⟨Blocked.stuck, fun hstuck ↦ hstuck.blocked htile⟩

/-- The verdict of the loop, by the moves. Assumes: the board has a tile. -/
theorem verdict_iff {board : Board} (htile : ∃ cell, board cell ≠ 0) :
    (verdict board = .lost ↔ checkWin board = false ∧ ¬ SomeMove board) ∧
      (verdict board = .ask ↔ checkWin board = false ∧ SomeMove board) := by
  rw [← canMove_eq_true_iff htile, verdict]
  cases checkWin board <;> cases canMove board <;> simp

/-- A good game has a tile. -/
theorem Game.Good.exists_tile {game : Game} (hgame : game.Good) : ∃ cell, game.board cell ≠ 0 := by
  by_contra hnone
  push Not at hnone
  have hsum : game.spawned.sum = 0 := by
    rw [← hgame.sum_eq]
    exact Finset.sum_eq_zero fun cell _ ↦ hnone cell
  have hpos : 0 < game.spawned.sum := by
    apply List.sum_pos
    · exact fun value hvalue ↦ (hgame.spawned_new value hvalue).isTile.pos
    · intro hnil
      have hlength := hgame.length_spawned
      rw [hnil, List.length_nil] at hlength
      omega
  exact hpos.ne' hsum

/-- The game-over test is exact. On every board whose tiles can be doubled and that has a tile,
`canMove` returns 1 exactly when some move returns 1, no move overflows, and a move returns 1
exactly when it changes the board. Every game of the loop has such a board, so the loop declares a
game lost exactly when there is no tile of 2048 and no move, and asks for a move exactly when there
is no tile of 2048 and some move. -/
theorem canMove_exact :
    (∀ board : Board, (∀ cell, Doublable (board cell)) → (∃ cell, board cell ≠ 0) →
      (canMove board = true ↔ (moveUp board).moved = true ∨ (moveDown board).moved = true ∨
          (moveLeft board).moved = true ∨ (moveRight board).moved = true) ∧
        ∀ move ∈ [moveUp board, moveDown board, moveLeft board, moveRight board],
          move.overflow = false ∧ (move.moved = true ↔ move.board ≠ board)) ∧
      ∀ (first second : Rand) (rounds : List Round) (game : Game),
        gameLoop rounds (initBoard first second) = some game →
          (∀ cell, Doublable (game.board cell)) ∧ (∃ cell, game.board cell ≠ 0) ∧
            (verdict game.board = .lost ↔ checkWin game.board = false ∧ ¬ SomeMove game.board) ∧
            (verdict game.board = .ask ↔ checkWin game.board = false ∧ SomeMove game.board) := by
  refine ⟨fun board hdouble htile ↦ ⟨canMove_eq_true_iff htile, fun move hmove ↦ ?_⟩,
    fun first second rounds game hgame ↦ ?_⟩
  · have hplace : ∃ place, move = moveAlong place board := by
      simp only [List.mem_cons, List.not_mem_nil, or_false] at hmove
      rcases hmove with rfl | rfl | rfl | rfl <;> exact ⟨_, rfl⟩
    obtain ⟨place, rfl⟩ := hplace
    exact ⟨overflow_moveAlong place hdouble, moved_moveAlong_iff_ne place board⟩
  · obtain ⟨last, hlast, hgood⟩ := (good_initBoard first second).gameLoop rounds
    have hsame : last = game := Option.some.inj (hlast.symm.trans hgame)
    subst hsame
    exact ⟨hgood.doublable, hgood.exists_tile, verdict_iff hgood.exists_tile⟩

/-- On a board with a single tile in a corner some move changes the board. -/
theorem canMove_exact_corner : SomeMove fun cell ↦ if cell = (0, 0) then 2 else 0 :=
  (canMove_exact.1 (fun cell ↦ if cell = (0, 0) then 2 else 0)
    (by unfold Doublable; decide) ⟨(0, 0), by decide⟩).1.mp (by decide)

end Homework.Game2048
