import Homework.Game2048.Bounded
import Homework.Library.Decimal
import Homework.Library.TextInput
import Mathlib.Data.List.DropRight

/-!
# The menu and the input

`mainMenu` and `gameLoop` read the same input, a number at the menu and a key in a round, and
neither looks at what `scanf` returns. When `scanf` finds no number, `choice` stays as it was, with
no value at first, and of the input only the blanks and a sign are taken. At the end of the input
the last key is played for ever.

So the program ends only at the menu, by the choice 2. Once the input is used up it does not end any
more. A menu at a text that starts with neither a digit nor a sign does what the last choice says:
it starts another game, which takes the text for its keys, or ends, or asks for ever (`session`).

A tile is at most four times the accepted moves and one more, so that no game is won before 511
moves (`win_late`).
-/

set_option autoImplicit false
set_option relaxedAutoImplicit false

namespace Homework.Game2048

open Homework.Library.CString Homework.Library.Decimal Homework.Library.TextInput

/-! ### Tiles grow slowly -/

theorem IsNew.le_four {value : ℤ} (hvalue : IsNew value) : value ≤ 4 := by
  rcases hvalue with rfl | rfl
  · exact by decide
  · exact le_rfl

/-- The sum of the board is at most four for each tile that was added. -/
theorem Game.Good.sum_le {game : Game} (hgame : game.Good) :
    ∑ cell, game.board cell ≤ 4 * (2 + (game.accepted : ℤ)) := by
  have hnew : ∀ value ∈ game.spawned, value ≤ (4 : ℤ) := fun value hvalue ↦
    (hgame.spawned_new value hvalue).le_four
  have hsum := List.sum_le_card_nsmul game.spawned 4 hnew
  rw [hgame.length_spawned, nsmul_eq_mul, mul_comm] at hsum
  rw [hgame.sum_eq]
  exact_mod_cast hsum

/-- Every tile is at most four times the accepted moves and one more. -/
def Game.Slow (game : Game) : Prop := ∀ cell, game.board cell ≤ 4 * ((game.accepted : ℤ) + 1)

/-- A round keeps the tiles slow. What a move leaves on the board is at most its sum, which the new
tile is not part of. -/
theorem Game.Good.slow_playRound {game next : Game} (hgame : game.Good) (hslow : game.Slow)
    (hask : verdict game.board = .ask) {round : Round}
    (hnext : Game2048.playRound game round = some next) : next.Slow := by
  obtain ⟨hnone, hsome⟩ := hgame.playRound_eq round
  rcases hmove : moveOf (toLower round.input) game.board with _ | move
  · rw [hnone hmove] at hnext
    exact Option.some.inj hnext ▸ hslow
  obtain ⟨-, hstill, hmoved⟩ := hsome move hmove
  obtain ⟨place, rfl⟩ := exists_place_of_moveOf hmove
  rcases hflag : (moveAlong place game.board).moved with _ | _
  · rw [hstill hflag] at hnext
    exact Option.some.inj hnext ▸ hslow
  obtain ⟨place', value, -, hvalue, hround⟩ := hmoved hflag
  rw [hround] at hnext
  obtain rfl := Option.some.inj hnext
  have hnonneg (cell : Cell) : 0 ≤ (moveAlong place game.board).board cell := by
    rcases hgame.cell_moveAlong hask place cell with hzero | htile
    · rw [hzero]
    · exact htile.pos.le
  intro cell
  show Function.update (moveAlong place game.board).board place' value cell ≤
    4 * (((game.accepted + 1 : ℕ) : ℤ) + 1)
  rcases eq_or_ne cell place' with rfl | hne
  · have hfour := hvalue.le_four
    rw [Function.update_self]
    omega
  · have hcell := Finset.single_le_sum (fun other _ ↦ hnonneg other) (Finset.mem_univ cell)
    have hsum := hgame.sum_le
    rw [sum_moveAlong] at hcell
    rw [Function.update_of_ne hne]
    push_cast
    omega

/-- A new tile is at most 4. -/
theorem Game.spawn_le_four {game : Game} (hgame : ∀ cell, game.board cell ≤ 4) (rand : Rand)
    (cell : Cell) : (game.spawn rand).board cell ≤ 4 := by
  rw [Game.spawn, addRandomTile]
  split_ifs with hcount htile
  · show Function.update game.board _ (4 : ℤ) cell ≤ 4
    rw [Function.update_apply]
    split_ifs
    · exact le_rfl
    · exact hgame cell
  · show Function.update game.board _ (2 : ℤ) cell ≤ 4
    rw [Function.update_apply]
    split_ifs
    · decide
    · exact hgame cell
  · exact hgame cell

theorem accepted_initBoard (first second : Rand) : (initBoard first second).accepted = 0 := rfl

theorem slow_initBoard (first second : Rand) : (initBoard first second).Slow := by
  intro cell
  rw [accepted_initBoard]
  refine Game.spawn_le_four (fun other ↦ Game.spawn_le_four (fun _ ↦ ?_) first other) second cell
  show (0 : ℤ) ≤ 4
  decide

theorem Game.Good.slow_gameLoop {game : Game} (hgame : game.Good) (hslow : game.Slow)
    (rounds : List Round) {last : Game} (hlast : Game2048.gameLoop rounds game = some last) :
    last.Slow := by
  induction rounds generalizing game with
  | nil => exact Option.some.inj hlast ▸ hslow
  | cons round rest ih =>
    rw [Game2048.gameLoop] at hlast
    rcases hverdict : verdict game.board with _ | _ | _
    · rw [hverdict] at hlast
      exact Option.some.inj hlast ▸ hslow
    · rw [hverdict] at hlast
      exact Option.some.inj hlast ▸ hslow
    · obtain ⟨next, hnext, hgood⟩ := hgame.playRound hverdict round
      rw [hverdict, hnext] at hlast
      exact ih hgood (hgame.slow_playRound hslow hverdict hnext) hlast

/-- No game is won early. For all keys and all outcomes of `rand`, at the top of any round a tile is
at most four times the accepted moves and one more, and a game that is won has accepted at least 511
moves. -/
theorem win_late (first second : Rand) (rounds : List Round) :
    ∃ game, gameLoop rounds (initBoard first second) = some game ∧
      (∀ cell, game.board cell ≤ 4 * ((game.accepted : ℤ) + 1)) ∧
      (verdict game.board = .won → 511 ≤ game.accepted) := by
  have hstart := good_initBoard first second
  obtain ⟨game, hgame, -⟩ := hstart.gameLoop rounds
  have hslow := hstart.slow_gameLoop (slow_initBoard first second) rounds hgame
  refine ⟨game, hgame, hslow, fun hwon ↦ ?_⟩
  have hwin : checkWin game.board = true := by
    rw [verdict] at hwon
    split_ifs at hwon with hwin
    exact hwin
  obtain ⟨cell, hcell⟩ := of_decide_eq_true hwin
  have htile := hslow cell
  omega

/-! ### The input -/

/-- What `%d` stores for a number: the nearest `long`, cut to an `int`. -/
def storedInt (number : ℤ) : ℤ := (toLong number).bmod (2 ^ 32)

/-- `scanf("%d", &choice)`: the number, if there is one, and the rest of the input. A sign without
digits is lost. -/
def scanInt (input : List UInt8) : Option ℤ × List UInt8 :=
  let (sign, text) := scanSign (input.dropWhile isSpace)
  let digits := text.takeWhile isDigit
  if digits = [] then (none, text)
  else (some (storedInt (sign * numberOf digits)), text.dropWhile isDigit)

/-- `scanf(" %c", &input)`. -/
def scanChar (input : List UInt8) : Option UInt8 × List UInt8 :=
  match input.dropWhile isSpace with
  | [] => (none, [])
  | char :: rest => (some char, rest)

/-- Where the program is: at the menu, at the top of a round with the last key in `input`, or at its
end. -/
inductive Screen where
  | menu
  | playing (game : Game) (key : UInt8)
  | ended

/-- The program: the input that is left, `choice`, and where it is. -/
structure Program where
  input : List UInt8
  choice : ℤ
  screen : Screen

/-- What a step gets from outside: the values of `rand` for the first tiles and for a new one, and
the value that an unassigned `input` has. -/
structure Chance where
  first : Rand
  second : Rand
  tile : Rand
  key : UInt8

/-- A round of the loop of `mainMenu`. -/
def menuRound (chance : Chance) (input : List UInt8) (choice : ℤ) : Program :=
  let (number, rest) := scanInt input
  let choice := number.getD choice
  ⟨rest, choice,
    if choice = 1 then .playing (initBoard chance.first chance.second) chance.key
    else if choice = 2 then .ended else .menu⟩

/-- A round of the loop of `gameLoop`. Gives `none` when a doubling overflows. -/
def gameRound (chance : Chance) (input : List UInt8) (choice : ℤ) (game : Game) (key : UInt8) :
    Option Program :=
  match verdict game.board with
  | .won => some ⟨input, choice, .menu⟩
  | .lost => some ⟨input, choice, .menu⟩
  | .ask =>
    let (char, rest) := scanChar input
    let key := toLower (char.getD key)
    (playRound game ⟨key, chance.tile⟩).map fun game ↦ ⟨rest, choice, .playing game key⟩

/-- One round of either loop. -/
def step (chance : Chance) : Program → Option Program
  | ⟨input, choice, .menu⟩ => some (menuRound chance input choice)
  | ⟨input, choice, .playing game key⟩ => gameRound chance input choice game key
  | ⟨input, choice, .ended⟩ => some ⟨input, choice, .ended⟩

/-- `main`, after some steps. -/
def run (chances : ℕ → Chance) (program : Program) : ℕ → Option Program
  | 0 => some program
  | steps + 1 => (run chances program steps).bind (step (chances steps))

/-! ### What a step keeps -/

/-- A game is played by the choice 1, and the program has ended by the choice 2. -/
structure Program.Sane (program : Program) : Prop where
  playing : ∀ game key, program.screen = .playing game key → program.choice = 1 ∧ game.Good
  ended : program.screen = .ended → program.choice = 2

/-- There is no number at the front of the input: after the blanks it ends, or goes on with neither
a digit nor a sign. -/
def Unreadable (input : List UInt8) : Prop :=
  ∀ byte ∈ (input.dropWhile isSpace).head?, isDigit byte = false ∧ byte ≠ 43 ∧ byte ≠ 45

theorem scanInt_of_unreadable {input : List UInt8} (hinput : Unreadable input) :
    scanInt input = (none, input.dropWhile isSpace) := by
  rw [scanInt]
  rcases htext : input.dropWhile isSpace with _ | ⟨byte, rest⟩
  · rfl
  · obtain ⟨hdigit, hplus, hminus⟩ := hinput byte (by rw [htext]; rfl)
    simp only [scanSign_of_ne hplus hminus, List.takeWhile_cons, hdigit, Bool.false_eq_true,
      if_false, if_true]

theorem unreadable_dropWhile {input : List UInt8} (hinput : Unreadable input) :
    Unreadable (input.dropWhile isSpace) := by
  unfold Unreadable
  rwa [List.dropWhile_idempotent isSpace input]

section GameRound

variable (chance : Chance) (input : List UInt8) (choice : ℤ) {game : Game} (key : UInt8)

/-- A game that is won or lost leads back to the menu. -/
theorem gameRound_of_over (hover : verdict game.board ≠ .ask) :
    gameRound chance input choice game key = some ⟨input, choice, .menu⟩ := by
  rw [gameRound]
  rcases hverdict : verdict game.board with _ | _ | _
  · rfl
  · rfl
  · exact absurd hverdict hover

theorem gameRound_of_ask (hask : verdict game.board = .ask) :
    gameRound chance input choice game key =
      (playRound game ⟨toLower ((scanChar input).1.getD key), chance.tile⟩).map fun game ↦
        ⟨(scanChar input).2, choice, .playing game (toLower ((scanChar input).1.getD key))⟩ := by
  rw [gameRound, hask]

end GameRound

section Step

variable {chance : Chance} {program next : Program}

/-- A step goes through. -/
theorem Program.Sane.exists_step (hsane : program.Sane) (chance : Chance) :
    ∃ next, step chance program = some next ∧ next.Sane := by
  obtain ⟨input, choice, screen⟩ := program
  cases screen with
  | menu =>
    refine ⟨_, rfl, fun game key hscreen ↦ ?_, fun hscreen ↦ ?_⟩
    · simp only [menuRound] at hscreen ⊢
      split_ifs at hscreen with hone htwo
      cases hscreen
      exact ⟨hone, good_initBoard _ _⟩
    · simp only [menuRound] at hscreen ⊢
      split_ifs at hscreen with hone htwo
      exact htwo
  | playing game key =>
    obtain ⟨hchoice, hgood⟩ := hsane.playing game key rfl
    by_cases hask : verdict game.board = .ask
    · obtain ⟨last, hlast, hlastGood⟩ := hgood.playRound hask
        ⟨toLower ((scanChar input).1.getD key), chance.tile⟩
      have hround := gameRound_of_ask chance input choice key hask
      rw [hlast, Option.map_some] at hround
      refine ⟨_, hround, ?_, nofun⟩
      rintro other otherKey ⟨⟩
      exact ⟨hchoice, hlastGood⟩
    · exact ⟨_, gameRound_of_over _ _ _ _ hask, nofun, nofun⟩
  | ended => exact ⟨_, rfl, nofun, fun _ ↦ hsane.ended rfl⟩

/-- At the end of the input nothing is chosen any more. -/
theorem step_of_exhausted (hinput : program.input = []) (hstep : step chance program = some next) :
    next.input = [] ∧ next.choice = program.choice := by
  obtain ⟨input, choice, screen⟩ := program
  dsimp only at hinput
  subst hinput
  cases screen with
  | menu =>
    obtain rfl := Option.some.inj hstep
    exact ⟨rfl, rfl⟩
  | playing game key =>
    by_cases hask : verdict game.board = .ask
    · rw [step, gameRound_of_ask _ _ _ _ hask] at hstep
      obtain ⟨last, -, rfl⟩ := Option.map_eq_some_iff.mp hstep
      exact ⟨rfl, rfl⟩
    · obtain rfl := Option.some.inj ((gameRound_of_over _ _ _ _ hask).symm.trans hstep)
      exact ⟨rfl, rfl⟩
  | ended =>
    obtain rfl := Option.some.inj hstep
    exact ⟨rfl, rfl⟩

/-- A menu that finds no number keeps its choice. -/
theorem step_of_unreadable (hscreen : program.screen = .menu) (hinput : Unreadable program.input) :
    step chance program = some ⟨program.input.dropWhile isSpace, program.choice,
      if program.choice = 1 then .playing (initBoard chance.first chance.second) chance.key
      else if program.choice = 2 then .ended else .menu⟩ := by
  obtain ⟨input, choice, screen⟩ := program
  dsimp only at hscreen hinput ⊢
  subst hscreen
  rw [step, menuRound, scanInt_of_unreadable hinput]
  rfl

end Step

/-! ### Whole runs -/

section Runs

variable {chances : ℕ → Chance} {program : Program}

theorem run_add (steps more : ℕ) :
    run chances program (steps + more) =
      (run chances program steps).bind fun middle ↦
        run (fun index ↦ chances (steps + index)) middle more := by
  induction more with
  | zero => exact (Option.bind_fun_some _).symm
  | succ more ih =>
    rw [← Nat.add_assoc, run, ih, Option.bind_assoc]
    rfl

/-- What every step keeps of programs in order holds after every run, and the run goes through. -/
theorem Program.Sane.exists_run {inv : Program → Prop}
    (hkeep : ∀ chance program next, program.Sane → inv program →
      step chance program = some next → inv next)
    (hsane : program.Sane) (hstart : inv program) (chances : ℕ → Chance) (steps : ℕ) :
    ∃ last, run chances program steps = some last ∧ last.Sane ∧ inv last := by
  induction steps with
  | zero => exact ⟨program, rfl, hsane, hstart⟩
  | succ steps ih =>
    obtain ⟨middle, hmiddle, hmiddleSane, hinv⟩ := ih
    obtain ⟨last, hlast, hlastSane⟩ := hmiddleSane.exists_step (chances steps)
    refine ⟨last, ?_, hlastSane, hkeep _ _ _ hmiddleSane hinv hlast⟩
    rw [run, hmiddle]
    exact hlast

/-- At the end of the input the choice stays as it is. -/
theorem Program.Sane.exists_run_of_exhausted (hsane : program.Sane) (hinput : program.input = [])
    (chances : ℕ → Chance) (steps : ℕ) :
    ∃ last, run chances program steps = some last ∧ last.Sane ∧ last.choice = program.choice := by
  have hkeep : ∀ chance before after, Program.Sane before →
      before.input = [] ∧ before.choice = program.choice → step chance before = some after →
        after.input = [] ∧ after.choice = program.choice := by
    intro chance before after _ hbefore hstep
    obtain ⟨hnil, hsame⟩ := step_of_exhausted hbefore.1 hstep
    exact ⟨hnil, hsame.trans hbefore.2⟩
  obtain ⟨last, hlast, hlastSane, -, hsame⟩ :=
    hsane.exists_run hkeep ⟨hinput, rfl⟩ chances steps
  exact ⟨last, hlast, hlastSane, hsame⟩

/-- A menu that finds no number, with neither choice made, stays. -/
theorem Program.Sane.exists_run_of_unreadable (hsane : program.Sane)
    (hscreen : program.screen = .menu) (hinput : Unreadable program.input)
    (hone : program.choice ≠ 1) (htwo : program.choice ≠ 2) (chances : ℕ → Chance) (steps : ℕ) :
    ∃ last, run chances program steps = some last ∧ last.screen = .menu ∧
      last.choice = program.choice := by
  have hkeep : ∀ chance before after, Program.Sane before →
      before.screen = .menu ∧ before.choice = program.choice ∧ Unreadable before.input →
        step chance before = some after →
          after.screen = .menu ∧ after.choice = program.choice ∧ Unreadable after.input := by
    rintro chance before after - ⟨hmenu, hsame, hunreadable⟩ hstep
    rw [step_of_unreadable hmenu hunreadable, hsame, if_neg hone, if_neg htwo] at hstep
    obtain rfl := Option.some.inj hstep
    exact ⟨rfl, rfl, unreadable_dropWhile hunreadable⟩
  obtain ⟨last, hlast, -, hmenu, hsame, -⟩ :=
    hsane.exists_run hkeep ⟨hscreen, rfl, hinput⟩ chances steps
  exact ⟨last, hlast, hmenu, hsame⟩

/-- The program against its input. For every input, all outcomes of `rand` and every value that
`choice` has at first, no step overflows; a game is played by the choice 1, and the program has
ended by the choice 2 only. Once the input is used up without this choice, the program never ends.
At a text that starts with neither a digit nor a sign, `choice` is as it was: with 1 the menu starts
a game that takes the text for its keys, with 2 the program ends, and otherwise the menu asks for
ever. -/
theorem session (chances : ℕ → Chance) (input : List UInt8) (choice : ℤ) (steps : ℕ) :
    ∃ program, run chances ⟨input, choice, .menu⟩ steps = some program ∧ program.Sane ∧
      (program.input = [] → program.choice ≠ 2 → ∀ more, ∃ later,
        run chances ⟨input, choice, .menu⟩ (steps + more) = some later ∧
          later.screen ≠ .ended) ∧
      (program.screen = .menu → Unreadable program.input →
        (program.choice = 1 → run chances ⟨input, choice, .menu⟩ (steps + 1) =
          some ⟨program.input.dropWhile isSpace, 1, .playing
            (initBoard (chances steps).first (chances steps).second) (chances steps).key⟩) ∧
        (program.choice = 2 → run chances ⟨input, choice, .menu⟩ (steps + 1) =
          some ⟨program.input.dropWhile isSpace, 2, .ended⟩) ∧
        (program.choice ≠ 1 → program.choice ≠ 2 → ∀ more, ∃ later,
          run chances ⟨input, choice, .menu⟩ (steps + more) = some later ∧
            later.screen = .menu ∧ later.choice = program.choice)) := by
  have hstart : (⟨input, choice, .menu⟩ : Program).Sane := ⟨nofun, nofun⟩
  obtain ⟨program, hrun, hsane, -⟩ := hstart.exists_run (fun _ _ _ _ _ _ ↦ trivial)
    (trivial : (fun _ ↦ True) _) chances steps
  have hlater (more : ℕ) : run chances ⟨input, choice, .menu⟩ (steps + more) =
      run (fun index ↦ chances (steps + index)) program more := by
    rw [run_add, hrun]
    rfl
  refine ⟨program, hrun, hsane, fun hinput hchoice more ↦ ?_, fun hscreen hinput ↦ ⟨?_, ?_, ?_⟩⟩
  · obtain ⟨later, hlast, hlastSane, hsame⟩ :=
      hsane.exists_run_of_exhausted hinput (fun index ↦ chances (steps + index)) more
    exact ⟨later, (hlater more).trans hlast,
      fun hended ↦ hchoice (hsame.symm.trans (hlastSane.ended hended))⟩
  · intro hone
    rw [run, hrun, Option.bind_some, step_of_unreadable hscreen hinput, hone]
    rfl
  · intro htwo
    rw [run, hrun, Option.bind_some, step_of_unreadable hscreen hinput, htwo]
    rfl
  · intro hone htwo more
    obtain ⟨later, hlast, hkept⟩ := hsane.exists_run_of_unreadable hscreen hinput hone htwo
      (fun index ↦ chances (steps + index)) more
    exact ⟨later, (hlater more).trans hlast, hkept⟩

end Runs

end Homework.Game2048
