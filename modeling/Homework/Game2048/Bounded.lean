import Homework.Game2048.GameLoop
import Mathlib.Algebra.Order.BigOperators.Group.Finset
import Mathlib.Algebra.Order.BigOperators.Group.List

/-!
# The length of a game

Moves keep the sum of the board and every accepted move is followed by a new tile of at least 2, so
the sum pays for the accepted moves (`Game.Good.two_mul_le_sum`). While the loop asks for a move no
tile is above 1024, so the sum of the sixteen cells is at most 16384 (`Game.Good.sum_le_of_ask`).
A game with 8191 accepted moves is therefore over.
-/

set_option autoImplicit false
set_option relaxedAutoImplicit false

namespace Homework.Game2048

theorem IsNew.two_le {value : ℤ} (hvalue : IsNew value) : 2 ≤ value := by
  rcases hvalue with rfl | rfl
  · exact le_rfl
  · exact le_of_lt (by decide)

/-- A tile other than 2048 is at most 1024. -/
theorem IsTile.le_of_ne {value : ℤ} (hvalue : IsTile value) (hwin : value ≠ 2048) :
    value ≤ 1024 := by
  have hdouble := (hvalue.double hwin).le
  omega

namespace Game.Good

variable {game : Game} (hgame : game.Good)
include hgame

/-- The sum of the board pays for the two tiles of `initBoard` and for the accepted moves. -/
theorem two_mul_le_sum : 2 * (2 + (game.accepted : ℤ)) ≤ ∑ cell, game.board cell := by
  have hnew : ∀ value ∈ game.spawned, (2 : ℤ) ≤ value := fun value hvalue ↦
    (hgame.spawned_new value hvalue).two_le
  have hsum := List.card_nsmul_le_sum game.spawned 2 hnew
  rw [hgame.length_spawned, nsmul_eq_mul, mul_comm] at hsum
  rw [hgame.sum_eq]
  exact_mod_cast hsum

/-- While the loop asks for a move, the sum of the board is bounded. -/
theorem sum_le_of_ask (hask : verdict game.board = .ask) :
    ∑ cell, game.board cell ≤ 16 * 1024 := by
  have hcell : ∀ cell ∈ Finset.univ, game.board cell ≤ 1024 := by
    intro cell _
    rcases hgame.cell_eq cell with hfree | htile
    · rw [hfree]
      exact Int.natCast_nonneg 1024
    · exact htile.le_of_ne (ne_of_verdict_eq_ask hask cell)
  have hsum := Finset.sum_le_card_nsmul Finset.univ game.board 1024 hcell
  simpa using hsum

/-- A game that asks for a move has accepted fewer than 8191 moves. -/
theorem accepted_lt_of_ask (hask : verdict game.board = .ask) : game.accepted < 8191 := by
  have hpaid := hgame.two_mul_le_sum
  have hsum := hgame.sum_le_of_ask hask
  omega

/-- A round that goes through accepts at most one move. -/
theorem accepted_playRound_le (round : Round) {next : Game}
    (hnext : Game2048.playRound game round = some next) :
    next.accepted ≤ game.accepted + 1 := by
  obtain ⟨hnone, hsome⟩ := hgame.playRound_eq round
  rcases hmove : moveOf (toLower round.input) game.board with _ | move
  · rw [hnone hmove] at hnext
    exact Option.some.inj hnext ▸ Nat.le_succ game.accepted
  · obtain ⟨-, hstill, hmoved⟩ := hsome move hmove
    rcases hflag : move.moved with _ | _
    · rw [hstill hflag] at hnext
      exact Option.some.inj hnext ▸ Nat.le_succ game.accepted
    · obtain ⟨cell, value, -, -, hround⟩ := hmoved hflag
      rw [hround] at hnext
      exact Option.some.inj hnext ▸ le_rfl

/-- The loop never accepts more than 8191 moves. -/
theorem accepted_gameLoop_le (haccepted : game.accepted ≤ 8191) (rounds : List Round) {last : Game}
    (hlast : Game2048.gameLoop rounds game = some last) : last.accepted ≤ 8191 := by
  induction rounds generalizing game with
  | nil => exact Option.some.inj hlast ▸ haccepted
  | cons round rest ih =>
    rw [Game2048.gameLoop] at hlast
    rcases hverdict : verdict game.board with _ | _ | _
    · rw [hverdict] at hlast
      exact Option.some.inj hlast ▸ haccepted
    · rw [hverdict] at hlast
      exact Option.some.inj hlast ▸ haccepted
    · obtain ⟨next, hnext, hgood⟩ := hgame.playRound hverdict round
      have hfew := hgame.accepted_lt_of_ask hverdict
      have hone := hgame.accepted_playRound_le round hnext
      rw [hverdict, hnext] at hlast
      exact ih hgood (by omega) hlast

end Game.Good

/-- Games are bounded. For all keys and all outcomes of `rand`, at most 8191 moves are accepted up
to the top of any round, and after that many the loop has won or lost. -/
theorem gameLoop_bounded (first second : Rand) (rounds : List Round) :
    ∃ game, gameLoop rounds (initBoard first second) = some game ∧ game.accepted ≤ 8191 ∧
      (game.accepted = 8191 → verdict game.board = .won ∨ verdict game.board = .lost) := by
  have hstart := good_initBoard first second
  obtain ⟨game, hgame, hgood⟩ := hstart.gameLoop rounds
  have hzero : (initBoard first second).accepted ≤ 8191 := Nat.zero_le _
  refine ⟨game, hgame, hstart.accepted_gameLoop_le hzero rounds hgame, fun hlast ↦ ?_⟩
  rcases hverdict : verdict game.board with _ | _ | _
  · exact Or.inl rfl
  · exact Or.inr rfl
  · exact absurd hlast (hgood.accepted_lt_of_ask hverdict).ne

end Homework.Game2048
