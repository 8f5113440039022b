import Homework.Game2048.Board

/-!
# The rule of the moves

The rule of the game speaks of a wall and of the lines of the board read from that wall: every line
slides to the wall, where each equal adjacent pair of tiles merges once (`slide`). The code has one
function for each wall, and each copies its lines in a reading order of its own. `Wall.line` reads a
line off the board as the rule does, forwards or backwards along a row or a column, and the reading
orders of the code give the same lines (`Wall.line_cells`). So every move follows the rule
(`followsRule_move`), and the rule leaves no choice (`FollowsRule.board_eq`).
-/

set_option autoImplicit false
set_option relaxedAutoImplicit false

namespace Homework.Game2048

open Homework.Library.Sliding

/-! ### Walls -/

/-- The wall that the tiles move to. -/
inductive Wall where
  | left
  | right
  | up
  | down
deriving DecidableEq, Repr

namespace Wall

/-- The line with a number, read from the wall: of a row for `left` and `right`, and of a column for
`up` and `down`. -/
def line : Wall → Board → Fin size → List ℤ
  | left, board, number => List.ofFn fun j ↦ board (number, j)
  | right, board, number => (List.ofFn fun j ↦ board (number, j)).reverse
  | up, board, number => List.ofFn fun i ↦ board (i, number)
  | down, board, number => (List.ofFn fun i ↦ board (i, number)).reverse

/-- The function that moves the tiles to the wall. -/
def move : Wall → Board → Move
  | left => moveLeft
  | right => moveRight
  | up => moveUp
  | down => moveDown

/-- The order in which that function reads the cells. -/
def cells : Wall → Cell ≃ Cell
  | left => leftCells
  | right => rightCells
  | up => upCells
  | down => downCells

theorem move_eq_moveAlong (wall : Wall) (board : Board) :
    wall.move board = moveAlong wall.cells board := by
  cases wall with
  | left => rfl
  | right => rfl
  | up => rfl
  | down => rfl

end Wall

/-- A row read in the other direction. -/
theorem ofFn_rev (row : Row) : (List.ofFn fun i ↦ row i.rev) = (List.ofFn row).reverse := by
  apply List.ext_getElem
  · simp only [List.length_ofFn, List.length_reverse]
  · intro place hplace _
    simp only [List.getElem_ofFn, List.getElem_reverse, List.length_ofFn]
    congr 1
    ext
    simp only [Fin.val_rev]
    omega

/-- The code reads the lines as the rule does. -/
theorem Wall.line_cells (wall : Wall) (board : Board) (number : Fin size) :
    Game2048.line wall.cells board number = wall.line board number := by
  cases wall with
  | left => rfl
  | right => exact ofFn_rev fun j ↦ board (number, j)
  | up => rfl
  | down => exact ofFn_rev fun i ↦ board (i, number)

/-! ### The rule -/

/-- What the rule says about a move: no doubling overflows, every line slides to the wall, the move
returns 1 exactly when the board changes, and the sum of the tiles stays. -/
structure FollowsRule (wall : Wall) (board : Board) (move : Move) : Prop where
  overflow_eq : move.overflow = false
  line_eq : ∀ number, wall.line move.board number = slide (wall.line board number)
  moved_iff : move.moved = true ↔ move.board ≠ board
  sum_eq : ∑ cell, move.board cell = ∑ cell, board cell

/-- Moves by the rule from one board to one wall end on one board. -/
theorem FollowsRule.board_eq {wall : Wall} {board : Board} {first second : Move}
    (hfirst : FollowsRule wall board first) (hsecond : FollowsRule wall board second) :
    first.board = second.board := by
  apply eq_of_line_eq wall.cells
  intro number
  rw [wall.line_cells, wall.line_cells, hfirst.line_eq, hsecond.line_eq]

/-- The four moves follow the rule on every board whose tiles can be doubled. -/
theorem followsRule_move (wall : Wall) {board : Board}
    (hboard : ∀ cell, Doublable (board cell)) : FollowsRule wall board (wall.move board) := by
  rw [wall.move_eq_moveAlong]
  constructor
  · exact overflow_moveAlong wall.cells hboard
  · intro number
    rw [← wall.line_cells, ← wall.line_cells, line_moveAlong]
  · exact moved_moveAlong_iff_ne wall.cells board
  · exact sum_moveAlong wall.cells board

/-- On a board of twos every tile can be doubled. -/
theorem followsRule_moveRight_twos : FollowsRule .right (fun _ ↦ 2) (moveRight fun _ ↦ 2) :=
  followsRule_move .right fun _ ↦ by
    unfold Doublable
    decide

end Homework.Game2048
