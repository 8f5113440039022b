import Homework.Game2048.Board
import Mathlib.Algebra.Order.Ring.Int

/-!
# The game loop

`gameLoop` starts with two random tiles. At the top of every round it stops when a tile of 2048 is
on the board or when `canMove` finds no move; otherwise it reads a key, moves, and adds a random
tile if the move changed the board. A game is followed at the tops of the rounds, together with the
values of the tiles added so far and the number of accepted moves. The keys and the outcomes of
`rand` are arbitrary.

The invariant is `Game.Good`: the cells are free or powers of two up to 2048, and the tiles added
account for the sum of the board. No doubling overflows, since a move is only made while no tile is
above 1024 (`Game.Good.doublable`), an accepted move always finds a free cell, and every round keeps
the invariant (`Game.Good.playRound`).
-/

set_option autoImplicit false
set_option relaxedAutoImplicit false

namespace Homework.Game2048

/-! ### The loop -/

/-- How a round of the loop begins. -/
inductive Verdict where
  | won
  | lost
  | ask
deriving DecidableEq, Repr

/-- The two tests at the top of a round. -/
def verdict (board : Board) : Verdict :=
  if checkWin board then .won
  else if !canMove board then .lost
  else .ask

/-- A game at the top of a round: the board, the values of the tiles added so far, and the number of
accepted moves. -/
structure Game where
  board : Board
  spawned : List ℤ
  accepted : ℕ

/-- The values of the two calls of `rand` in `addRandomTile`. -/
abbrev Rand := ℕ × ℕ

/-- `addRandomTile` in a game. -/
def Game.spawn (game : Game) (rand : Rand) : Game :=
  let spawn := addRandomTile rand.1 rand.2 game.board
  { game with board := spawn.board, spawned := game.spawned ++ spawn.value.toList }

/-- `initBoard`. -/
def initBoard (first second : Rand) : Game :=
  ((Game.mk (fun _ ↦ 0) [] 0).spawn first).spawn second

/-- `tolower`. -/
def toLower (input : UInt8) : UInt8 :=
  if 65 ≤ input ∧ input ≤ 90 then input + 32 else input

/-- The move of a key: `'w'`, `'a'`, `'s'` and `'d'`. -/
def moveOf (input : UInt8) (board : Board) : Option Move :=
  if input = 119 then some (moveUp board)
  else if input = 97 then some (moveLeft board)
  else if input = 115 then some (moveDown board)
  else if input = 100 then some (moveRight board)
  else none

/-- What a round gets from outside: the key and the values of `rand`. -/
structure Round where
  input : UInt8
  rand : Rand

/-- A round after its tests. Gives `none` when a doubling overflows. -/
def playRound (game : Game) (round : Round) : Option Game :=
  match moveOf (toLower round.input) game.board with
  | none => some game
  | some move =>
    if move.overflow then none
    else
      let game := { game with board := move.board }
      if move.moved then some { game.spawn round.rand with accepted := game.accepted + 1 }
      else some game

/-- The game after some rounds, or when the loop has stopped before. -/
def gameLoop : List Round → Game → Option Game
  | [], game => some game
  | round :: rest, game =>
    match verdict game.board with
    | .won => some game
    | .lost => some game
    | .ask => (playRound game round).bind (gameLoop rest)

/-! ### The invariant -/

/-- The value of a tile that the game can have. -/
def IsTile (value : ℤ) : Prop := ∃ k, 1 ≤ k ∧ k ≤ 11 ∧ value = 2 ^ k

/-- The value of a tile that `addRandomTile` adds. -/
def IsNew (value : ℤ) : Prop := value = 2 ∨ value = 4

/-- The invariant of the game. -/
structure Game.Good (game : Game) : Prop where
  cell_eq : ∀ cell, game.board cell = 0 ∨ IsTile (game.board cell)
  spawned_new : ∀ value ∈ game.spawned, IsNew value
  sum_eq : ∑ cell, game.board cell = game.spawned.sum
  length_spawned : game.spawned.length = 2 + game.accepted

theorem IsNew.isTile {value : ℤ} (hvalue : IsNew value) : IsTile value := by
  rcases hvalue with rfl | rfl
  · exact ⟨1, by decide, by decide, rfl⟩
  · exact ⟨2, by decide, by decide, rfl⟩

/-- A tile other than 2048 doubles to a tile. -/
theorem IsTile.double {value : ℤ} (hvalue : IsTile value) (hwin : value ≠ 2048) :
    IsTile (value + value) := by
  obtain ⟨k, hone, hle, rfl⟩ := hvalue
  have hk : k ≠ 11 := fun heq ↦ hwin (by rw [heq]; rfl)
  exact ⟨k + 1, by omega, by omega, by rw [pow_succ, mul_two]⟩

theorem IsTile.pos {value : ℤ} (hvalue : IsTile value) : 0 < value := by
  obtain ⟨k, _, _, rfl⟩ := hvalue
  exact pow_pos (by decide) k

theorem IsTile.le {value : ℤ} (hvalue : IsTile value) : value ≤ 2048 := by
  obtain ⟨k, _, hle, rfl⟩ := hvalue
  exact pow_le_pow_right₀ (by decide) hle

/-- The cells of a board without overflow in reach. -/
theorem doublable_of_cell {value : ℤ} (hvalue : value = 0 ∨ IsTile value) : Doublable value := by
  rcases hvalue with rfl | htile
  · exact doublable_zero
  · have hpos := htile.pos
    have hle := htile.le
    unfold Doublable FitsInt
    constructor <;> omega

/-! ### Adding tiles -/

/-- On a board with a free cell a new tile is added to the game. -/
theorem Game.spawn_of_free (game : Game) (rand : Rand) (hfree : ∃ cell, game.board cell = 0) :
    ∃ cell value, game.board cell = 0 ∧ IsNew value ∧
      game.spawn rand =
        ⟨Function.update game.board cell value, game.spawned ++ [value], game.accepted⟩ := by
  obtain ⟨cell, value, hcell, hvalue, hspawn⟩ := addRandomTile_of_free rand.1 rand.2 hfree
  refine ⟨cell, value, hcell, hvalue, ?_⟩
  rw [Game.spawn, hspawn]
  rfl

/-- The cells stay free or tiles when a new tile is added. -/
theorem cell_update {board : Board} (hboard : ∀ cell, board cell = 0 ∨ IsTile (board cell))
    (place : Cell) {value : ℤ} (hvalue : IsNew value) (cell : Cell) :
    Function.update board place value cell = 0 ∨
      IsTile (Function.update board place value cell) := by
  rcases eq_or_ne cell place with rfl | hne
  · rw [Function.update_self]
    exact Or.inr hvalue.isTile
  · rw [Function.update_of_ne hne]
    exact hboard cell

/-- The board of `initBoard`. -/
theorem good_initBoard (first second : Rand) : (initBoard first second).Good := by
  rcases (Game.mk (fun _ ↦ 0) [] 0).spawn_of_free first ⟨(0, 0), rfl⟩ with
    ⟨cell, value, hcell, hvalue, hfirst⟩
  have hfree : ∃ other : Cell, Function.update (fun _ ↦ (0 : ℤ)) cell value other = 0 := by
    obtain ⟨other, hother⟩ := exists_ne cell
    refine ⟨other, ?_⟩
    rw [Function.update_of_ne hother]
  rcases (Game.mk (Function.update (fun _ ↦ 0) cell value) ([] ++ [value]) 0).spawn_of_free second
    hfree with ⟨cell', value', hcell', hvalue', hsecond⟩
  rw [initBoard, hfirst, hsecond]
  refine ⟨?_, ?_, ?_, rfl⟩
  · exact cell_update (cell_update (fun _ ↦ Or.inl rfl) cell hvalue) cell' hvalue'
  · simp [hvalue, hvalue']
  · have hzero : ∑ place : Cell, (fun _ ↦ (0 : ℤ)) place = 0 := Finset.sum_const_zero
    show ∑ place,
      Function.update (Function.update (fun _ ↦ (0 : ℤ)) cell value) cell' value' place = _
    rw [sum_update hcell', sum_update rfl, hzero]
    simp

/-! ### A round -/

/-- The move of a key is a move along some reading order. -/
theorem exists_place_of_moveOf {input : UInt8} {board : Board} {move : Move}
    (hmove : moveOf input board = some move) : ∃ place, move = moveAlong place board := by
  unfold moveOf at hmove
  split_ifs at hmove <;> rw [← Option.some.inj hmove]
  · exact ⟨upCells, rfl⟩
  · exact ⟨leftCells, rfl⟩
  · exact ⟨downCells, rfl⟩
  · exact ⟨rightCells, rfl⟩

/-- In a good game the doublings of a move do not overflow. -/
theorem Game.Good.doublable {game : Game} (hgame : game.Good) (cell : Cell) :
    Doublable (game.board cell) :=
  doublable_of_cell (hgame.cell_eq cell)

/-- The loop asks for a move only while no tile is 2048. -/
theorem ne_of_verdict_eq_ask {board : Board} (hask : verdict board = .ask) (cell : Cell) :
    board cell ≠ 2048 := by
  intro hcell
  have hwin : checkWin board = true := decide_eq_true ⟨cell, hcell⟩
  rw [verdict, if_pos hwin] at hask
  cases hask

/-- A move keeps the cells of a good game free or tiles. Assumes: no tile is 2048 before. -/
theorem Game.Good.cell_moveAlong {game : Game} (hgame : game.Good)
    (hask : verdict game.board = .ask) (place : Cell ≃ Cell) (cell : Cell) :
    (moveAlong place game.board).board cell = 0 ∨
      IsTile ((moveAlong place game.board).board cell) := by
  rcases moveAlong_cell place game.board cell with
    hzero | ⟨source, hsource⟩ | ⟨source, hne, hdouble⟩
  · exact Or.inl hzero
  · rw [hsource]
    exact hgame.cell_eq source
  · rw [hdouble]
    exact Or.inr (((hgame.cell_eq source).resolve_left hne).double
      (ne_of_verdict_eq_ask hask source))

/-- What a round does in a good game. A key without a move and a move that changes nothing leave the
game as it is. A move that changes the board finds a free cell, which becomes 2 or 4. -/
theorem Game.Good.playRound_eq {game : Game} (hgame : game.Good) (round : Round) :
    (moveOf (toLower round.input) game.board = none → playRound game round = some game) ∧
      ∀ move, moveOf (toLower round.input) game.board = some move →
        move.overflow = false ∧
          (move.moved = false → playRound game round = some game) ∧
          (move.moved = true → ∃ cell value, move.board cell = 0 ∧ IsNew value ∧
            playRound game round = some ⟨Function.update move.board cell value,
              game.spawned ++ [value], game.accepted + 1⟩) := by
  refine ⟨fun hkey ↦ ?_, fun move hmove ↦ ?_⟩
  · rw [playRound, hkey]
  · obtain ⟨place, rfl⟩ := exists_place_of_moveOf hmove
    have hoverflow : (moveAlong place game.board).overflow = false :=
      overflow_moveAlong place hgame.doublable
    refine ⟨hoverflow, fun hstill ↦ ?_, fun hmoved ↦ ?_⟩
    · have hboard : (moveAlong place game.board).board = game.board := by
        by_contra hne
        rw [(moved_moveAlong_iff_ne place game.board).mpr hne] at hstill
        cases hstill
      simp only [playRound, hmove, hoverflow, hstill, hboard, Bool.false_eq_true, if_false]
    · rcases Game.spawn_of_free { game with board := (moveAlong place game.board).board } round.rand
        (exists_free_of_moved place game.board hmoved) with ⟨cell, value, hcell, hvalue, hspawn⟩
      refine ⟨cell, value, hcell, hvalue, ?_⟩
      simp only [playRound, hmove, hoverflow, hmoved, hspawn, Bool.false_eq_true, if_false, if_true]

/-- A round keeps the invariant. Assumes: the loop asks for a move. -/
theorem Game.Good.playRound {game : Game} (hgame : game.Good) (hask : verdict game.board = .ask)
    (round : Round) : ∃ next, playRound game round = some next ∧ next.Good := by
  obtain ⟨hnone, hsome⟩ := hgame.playRound_eq round
  rcases hmove : moveOf (toLower round.input) game.board with _ | move
  · exact ⟨game, hnone hmove, hgame⟩
  · obtain ⟨_, hstill, hmoved⟩ := hsome move hmove
    obtain ⟨place, rfl⟩ := exists_place_of_moveOf hmove
    rcases hflag : (moveAlong place game.board).moved with _ | _
    · exact ⟨game, hstill hflag, hgame⟩
    · obtain ⟨cell, value, hcell, hvalue, hround⟩ := hmoved hflag
      refine ⟨_, hround, cell_update (hgame.cell_moveAlong hask place) cell hvalue, ?_, ?_, ?_⟩
      · intro other hother
        rcases List.mem_append.mp hother with hold | hnew
        · exact hgame.spawned_new other hold
        · exact List.eq_of_mem_singleton hnew ▸ hvalue
      · show ∑ place', Function.update (moveAlong place game.board).board cell value place' = _
        rw [sum_update hcell, sum_moveAlong, hgame.sum_eq, List.sum_append, List.sum_singleton]
      · rw [List.length_append, List.length_singleton, hgame.length_spawned]
        rfl

/-- Every run of the loop keeps the invariant, and no doubling in it overflows. -/
theorem Game.Good.gameLoop {game : Game} (hgame : game.Good) (rounds : List Round) :
    ∃ last, gameLoop rounds game = some last ∧ last.Good := by
  induction rounds generalizing game with
  | nil => exact ⟨game, rfl, hgame⟩
  | cons round rest ih =>
    rw [Game2048.gameLoop]
    rcases hverdict : verdict game.board with _ | _ | _
    · exact ⟨game, rfl, hgame⟩
    · exact ⟨game, rfl, hgame⟩
    · obtain ⟨next, hnext, hgood⟩ := hgame.playRound hverdict round
      obtain ⟨last, hlast, hend⟩ := ih hgood
      exact ⟨last, by rw [hnext]; exact hlast, hend⟩

/-! ### The reachable games -/

/-- The reachable games. For all keys and all outcomes of `rand`, no doubling overflows up to the
top of any round, where every cell is free or a power of two from 2 to 2048, the sum of the board is
the sum of the tiles added, and these are two more than the accepted moves. There, an unknown key
and a move that changes nothing leave the game as it is, and a move that changes the board does not
overflow and is followed by turning one free cell into 2 or 4. -/
theorem gameLoop_reachable (first second : Rand) (rounds : List Round) :
    ∃ game, gameLoop rounds (initBoard first second) = some game ∧
      (∀ cell, game.board cell = 0 ∨ ∃ k, 1 ≤ k ∧ k ≤ 11 ∧ game.board cell = 2 ^ k) ∧
      ∑ cell, game.board cell = game.spawned.sum ∧
      game.spawned.length = 2 + game.accepted ∧
      ∀ round : Round,
        (moveOf (toLower round.input) game.board = none → playRound game round = some game) ∧
          ∀ move, moveOf (toLower round.input) game.board = some move →
            move.overflow = false ∧
              (move.moved = false → playRound game round = some game) ∧
              (move.moved = true → ∃ cell value, move.board cell = 0 ∧ (value = 2 ∨ value = 4) ∧
                playRound game round = some ⟨Function.update move.board cell value,
                  game.spawned ++ [value], game.accepted + 1⟩) := by
  obtain ⟨game, hgame, hgood⟩ := (good_initBoard first second).gameLoop rounds
  exact ⟨game, hgame, hgood.cell_eq, hgood.sum_eq, hgood.length_spawned,
    fun round ↦ hgood.playRound_eq round⟩

end Homework.Game2048
