import MazeWar.Foundation.Occupancy
import MazeWar.Foundation.Runs
import MazeWar.Maze.Search
import MazeWar.Maze.View

/-!
# Maze and players agree

Sequential runs of the maze operations, each player's location tracked by what the
calls return. The players' locations and the maze stay consistent, and no call
leaves the maze.
-/

namespace MazeWar
open Foundation
variable {ι : Type} [DecidableEq ι] {rows cols : Nat}

/-- The maze and the location that each player's own calls have given it. -/
structure Game (ι : Type) (rows cols : Nat) where
  maze : MazeState rows cols
  loc : ι → Option (Int × Int)

namespace Game

def initial (start : Maze rows cols) : Game ι rows cols :=
  { maze := { cells := start, sem := 1 }, loc := fun _ => none }

inductive Action (ι : Type) where
  | place (player : ι) (row col : Int)
  | placeRandom (player : ι) (draw : Nat → Nat) (fuel : Nat) (rowp colp : Int)
  | move (player : ι) (dir : Direction)
  | remove (player : ι)

def track (g : Game ι rows cols) (player : ι) (maze : MazeState rows cols) (result : Int)
    (place : Int × Int) : Game ι rows cols :=
  { maze, loc := if result = 0 then Function.update g.loc player (some place) else g.loc }

/-- One call under the protocol of `player.h`. There is no step for a call that the protocol
excludes, that has not returned, or that leaves the maze. -/
def step (avatar : ι → Object) (g : Game ι rows cols) : Action ι → Option (Game ι rows cols)
  | .place player row col =>
    if g.loc player = none ∧ InMaze rows cols (row, col) then
      ((mazeSetPlayer (avatar player) row col).run cellMachine g.maze).map fun (result, maze) =>
        g.track player maze result (row, col)
    else none
  | .placeRandom player draw fuel rowp colp =>
    if g.loc player = none then
      match (mazeSetPlayerRandom rows cols draw fuel (avatar player) rowp colp).run cellMachine g.maze with
      | some (some (result, row, col), maze) => some (g.track player maze result (row, col))
      | _ => none
    else none
  | .move player dir =>
    match g.loc player with
    | none => none
    | some place =>
      ((mazeMove place.1 place.2 dir.code).run cellMachine g.maze).map fun (result, maze) =>
        g.track player maze result (dir.next place)
  | .remove player =>
    match g.loc player with
    | none => none
    | some place =>
      ((mazeRemovePlayer (avatar player) place.1 place.2).run cellMachine g.maze).map fun (_, maze) =>
        { maze, loc := Function.update g.loc player none }

/-- The invariant: the maze shows the players at their locations, and `mutex` is free. -/
structure Consistent (avatar : ι → Object) (start : Maze rows cols) (g : Game ι rows cols) : Prop where
  shown : Shows empty avatar start g.loc g.maze.cells
  free : g.maze.sem = 1

section Invariant
variable {avatar : ι → Object} {start : Maze rows cols} {g next : Game ι rows cols} {action : Action ι}

omit [DecidableEq ι] in
theorem initial_consistent : Consistent avatar start (Game.initial start) := ⟨Shows.initial, rfl⟩

theorem placed_consistent (tokens : Tokens empty avatar) (h : Consistent avatar start g) {player : ι}
    {maze : MazeState rows cols} {result row col : Int} (out : g.loc player = none)
    (placed : Placed (avatar player) g.maze result row col maze) :
    Consistent avatar start (g.track player maze result (row, col)) := by
  obtain ⟨rfl, clear, rfl⟩ | ⟨failed, rfl⟩ := placed
  · exact ⟨h.shown.place tokens out clear, h.free⟩
  · refine ⟨?_, h.free⟩
    rw [track, if_neg failed]
    exact h.shown

theorem step_consistent (tokens : Tokens empty avatar) (h : Consistent avatar start g)
    (stepped : step avatar g action = some next) : Consistent avatar start next := by
  cases action with
  | place player row col =>
    simp only [step] at stepped
    split at stepped
    · rename_i allowed
      obtain ⟨⟨result, maze⟩, ran, rfl⟩ := Option.map_eq_some_iff.mp stepped
      exact placed_consistent tokens h allowed.1 (mazeSetPlayer_placed ran)
    · cases stepped
  | placeRandom player draw fuel rowp colp =>
    simp only [step] at stepped
    split at stepped
    · rename_i out
      split at stepped
      · rename_i result row col maze ran
        cases stepped
        exact placed_consistent tokens h out (mazeSetPlayerRandom_placed ran)
      · cases stepped
    · cases stepped
  | move player dir =>
    simp only [step] at stepped
    split at stepped
    · cases stepped
    · rename_i place located
      obtain ⟨⟨result, maze⟩, ran, rfl⟩ := Option.map_eq_some_iff.mp stepped
      rw [mazeMove_code, moveTo_run] at ran
      obtain ⟨o, present, ran⟩ := Option.bind_eq_some_iff.mp ran
      have own : o = avatar player := Option.some.inj (present.symm.trans (h.shown.tracked player place located))
      rw [if_neg (own ▸ tokens.visible player)] at ran
      obtain ⟨target, ahead, outcome⟩ := Option.map_eq_some_iff.mp ran
      by_cases clear : target = empty
      · rw [if_pos clear] at outcome
        cases outcome
        refine ⟨?_, h.free⟩
        rw [own]
        exact h.shown.move tokens located (clear ▸ ahead)
      · rw [if_neg clear] at outcome
        cases outcome
        exact h
  | remove player =>
    simp only [step] at stepped
    split at stepped
    · cases stepped
    · rename_i place located
      obtain ⟨⟨_, maze⟩, ran, rfl⟩ := Option.map_eq_some_iff.mp stepped
      rw [mazeRemovePlayer_run (by rw [h.free]; decide)] at ran
      obtain ⟨o, present, outcome⟩ := Option.map_eq_some_iff.mp ran
      have own : o = avatar player := Option.some.inj (present.symm.trans (h.shown.tracked player place located))
      rw [if_neg (own ▸ tokens.visible player)] at outcome
      cases outcome
      exact ⟨h.shown.vacate tokens located, h.free⟩

theorem run_consistent (tokens : Tokens empty avatar) {actions : List (Action ι)}
    (ran : runs (step avatar) (Game.initial start) actions = some g) : Consistent avatar start g :=
  runs_invariant (fun _ _ _ inv stepped => step_consistent tokens inv stepped) initial_consistent ran

end Invariant

/-! ### What the invariant gives -/

structure Walled (start : Maze rows cols) : Prop where
  plain : ∀ p o, start.get? p = some o → o = empty ∨ isWall o = true
  border : ∀ p o, start.get? p = some o → p.1 = 0 ∨ p.1 + 1 = rows ∨ p.2 = 0 ∨ p.2 + 1 = cols →
    isWall o = true

section Walled
variable {avatar : ι → Object} {start : Maze rows cols} {g : Game ι rows cols} {player : ι} {place : Int × Int}

omit [DecidableEq ι] in
theorem tokens_of_upper (distinct : Function.Injective avatar) (upper : ∀ p, isAvatar (avatar p) = true) :
    Tokens empty avatar := ⟨distinct, fun p => avatar_ne_empty (upper p)⟩

omit [DecidableEq ι] in
theorem blank_inner (walled : Walled start) {p : Int × Int} (blank : start.get? p = some empty) :
    Inner rows cols p := by
  obtain ⟨above, below, left, right⟩ := Memory.mem_of_get? blank
  have inside : ¬ (p.1 = 0 ∨ p.1 + 1 = rows ∨ p.2 = 0 ∨ p.2 + 1 = cols) :=
    fun edge => wall_ne_empty (walled.border p empty blank edge) rfl
  exact ⟨by omega, by omega, by omega, by omega⟩

omit [DecidableEq ι] in
theorem no_avatar (walled : Walled start) (upper : ∀ p, isAvatar (avatar p) = true) (p : Int × Int) (i : ι) :
    start.get? p ≠ some (avatar i) := by
  intro present
  rcases walled.plain p _ present with blank | wall
  · exact avatar_ne_empty (upper i) blank
  · have lower := wall_not_avatar wall
    rw [upper i] at lower
    cases lower

/-- Every call on a placed player ends, and touches only cells of the maze. -/
structure CallsSound (avatar : ι → Object) (g : Game ι rows cols) (player : ι) (place : Int × Int) : Prop where
  move : ∀ dir : Direction, Sound (mazeMove place.1 place.2 dir.code) g.maze
  remove : Sound (mazeRemovePlayer (avatar player) place.1 place.2) g.maze
  findTarget : ∀ dir, Sound (mazeFindTarget rows cols place.1 place.2 dir) g.maze
  getView : ∀ view gaze depth, Sound (mazeGetView rows cols view place.1 place.2 gaze depth) g.maze

omit [DecidableEq ι] in
theorem calls_sound_inner (h : Consistent avatar start g) (located : g.loc player = some place)
    (inner : Inner rows cols place) : CallsSound avatar g player place := by
  have free : 0 < g.maze.sem := by rw [h.free]; decide
  have present := h.shown.tracked player place located
  refine ⟨fun dir => sound_of_run ?_, sound_of_run ?_, fun dir => ?_, fun view gaze depth => ?_⟩
  · obtain ⟨o, ahead⟩ := Memory.exists_get? (m := g.maze.cells) (inner.next dir)
    rw [mazeMove_code, moveTo_run, present, Option.bind_some, ahead, Option.map_some]
    split <;> rfl
  · rw [mazeRemovePlayer_run free, present]
    rfl
  · exact (mazeFindTarget_ends free inner.inMaze dir).sound
  · exact (mazeGetView_ends inner view gaze depth).sound

omit [DecidableEq ι] in
theorem calls_sound (walled : Walled start) (h : Consistent avatar start g) (located : g.loc player = some place) :
    CallsSound avatar g player place :=
  calls_sound_inner h located (blank_inner walled (h.shown.onBlank player place located))

omit [DecidableEq ι] in
theorem setPlayer_sound {s : MazeState rows cols} {row col : Int} {o : Object} (inside : InMaze rows cols (row, col)) :
    Sound (mazeSetPlayer o row col) s := by
  obtain ⟨held, present⟩ := Memory.exists_get? (m := s.cells) inside
  refine sound_of_run ?_
  rw [mazeSetPlayer_run, present]
  rfl

/-- Over every sequential run from a walled maze without avatars, the maze shows the walls of
the start, each placed avatar at its tracked location only, and blanks elsewhere; and every
call that the protocol allows next stays inside the maze. -/
theorem maze_players_consistent (avatar : ι → Object) (distinct : Function.Injective avatar)
    (upper : ∀ p, isAvatar (avatar p) = true) (start : Maze rows cols) (walled : Walled start)
    (actions : List (Action ι)) (g : Game ι rows cols)
    (ran : runs (step avatar) (Game.initial start) actions = some g) :
    (∀ p o, start.get? p = some o → isWall o = true → g.maze.cells.get? p = some o) ∧
    (∀ player place, g.loc player = some place →
      ∀ p, g.maze.cells.get? p = some (avatar player) ↔ p = place) ∧
    (∀ p, InMaze rows cols p → (∀ o, start.get? p = some o → isWall o = false) →
      (∀ player, g.loc player ≠ some p) → g.maze.cells.get? p = some empty) ∧
    (∀ player place, g.loc player = some place → CallsSound avatar g player place) ∧
    (∀ player row col, InMaze rows cols (row, col) → Sound (mazeSetPlayer (avatar player) row col) g.maze) ∧
    (∀ player draw fuel rowp colp, 0 < rows → 0 < cols →
      Sound (mazeSetPlayerRandom rows cols draw fuel (avatar player) rowp colp) g.maze) := by
  have tokens := tokens_of_upper distinct upper
  have inv := run_consistent tokens ran
  refine ⟨?_, ?_, ?_, ?_, ?_, ?_⟩
  · intro p o present wall
    exact inv.shown.fixed present (wall_ne_empty wall)
  · intro player place located p
    exact inv.shown.exactly tokens (no_avatar walled upper) located
  · intro p inside notWall free
    obtain ⟨o, present⟩ := Memory.exists_get? (m := start) inside
    rw [inv.shown.rest p free, present]
    rcases walled.plain p o present with blank | wall
    · rw [blank]
    · rw [notWall o present] at wall
      cases wall
  · intro player place located
    exact calls_sound walled inv located
  · intro player row col inside
    exact setPlayer_sound inside
  · intro player draw fuel rowp colp tall wide
    exact mazeSetPlayerRandom_sound tall wide

end Walled

def corridorMaze : Maze 3 5 := fun p => if p.1.1 = 1 ∧ 1 ≤ p.1.2 ∧ p.1.2 ≤ 3 then empty else 42

theorem corridorMaze_walled : Walled corridorMaze := by
  refine ⟨?_, ?_⟩
  · intro p o present
    obtain ⟨inside, value⟩ := Memory.get?_eq_some_iff.mp present
    rw [← value, corridorMaze]
    split
    · exact Or.inl rfl
    · exact Or.inr (by decide)
  · intro p o present edge
    obtain ⟨inside, value⟩ := Memory.get?_eq_some_iff.mp present
    rw [← value, corridorMaze, if_neg (by simp only; omega)]
    decide

def avatarAB (b : Bool) : Object := if b then 66 else 65

/-- `A` and `B` enter the corridor, `A` is blocked by `B`, `B` steps on and leaves, `A` follows. -/
def corridorWalk : List (Action Bool) :=
  [.place false 1 1, .placeRandom true (fun k => if k % 2 = 0 then 1 else 2) 1 0 0, .move false .east,
    .move true .east, .move false .east, .remove true, .place true 1 1]

theorem maze_players_consistent_corridor : ∃ g : Game Bool 3 5,
    runs (step avatarAB) (Game.initial corridorMaze) corridorWalk = some g ∧
    g.loc false = some (1, 2) ∧ g.loc true = some (1, 1) ∧
    (∀ p, g.maze.cells.get? p = some (avatarAB false) ↔ p = (1, 2)) ∧
    (∀ p, g.maze.cells.get? p = some (avatarAB true) ↔ p = (1, 1)) := by
  have returns : (runs (step avatarAB) (Game.initial corridorMaze) corridorWalk).isSome := by decide
  obtain ⟨g, ran⟩ := Option.isSome_iff_exists.mp returns
  have first : g.loc false = some (1, 2) := by
    have value : (runs (step avatarAB) (Game.initial corridorMaze) corridorWalk).map
      (fun g => g.loc false) = some (some (1, 2)) := by decide
    rw [ran] at value
    exact Option.some.inj value
  have second : g.loc true = some (1, 1) := by
    have value : (runs (step avatarAB) (Game.initial corridorMaze) corridorWalk).map
      (fun g => g.loc true) = some (some (1, 1)) := by decide
    rw [ran] at value
    exact Option.some.inj value
  have shown := maze_players_consistent avatarAB (by decide) (by decide) corridorMaze corridorMaze_walled
    corridorWalk g ran
  exact ⟨g, ran, first, second, shown.2.1 false (1, 2) first, shown.2.1 true (1, 1) second⟩

end Game
end MazeWar
