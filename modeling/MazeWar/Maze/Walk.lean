import MazeWar.Foundation.Frame
import MazeWar.Foundation.Runs
import MazeWar.Maze.Motion

/-!
# Walks

An object that `maze_move` takes from cell to cell leaves each of them blank, so `REVERSE` takes it
back the way it came and nothing else changes.
-/

namespace MazeWar
open Foundation
variable {rows cols : Nat} {s t : MazeState rows cols} {d : Direction} {p q : Int × Int} {o : Object} {dir : Int}

/-! ### Directions and their reverses -/

/-- `REVERSE`. -/
def reverse (dir : Int) : Int := if dir < 2 then dir + 2 else dir - 2

namespace Direction

def opposite : Direction → Direction
  | north => south
  | west => east
  | south => north
  | east => west

theorem opposite_code (d : Direction) : d.opposite.code = reverse d.code := by
  cases d <;> decide

theorem opposite_next (d : Direction) (p : Int × Int) : d.opposite.next (d.next p) = p := by
  obtain ⟨row, col⟩ := p
  cases d <;> simp only [opposite, next, Prod.mk.injEq, true_and, and_true] <;> omega

def ofCode? (dir : Int) : Option Direction := [north, west, south, east].find? fun d => d.code = dir

theorem ofCode?_code (d : Direction) : ofCode? d.code = some d := by
  cases d <;> decide

theorem code_of_ofCode? (known : ofCode? dir = some d) : dir = d.code := by
  have found := List.find?_some known
  exact (of_decide_eq_true found).symm

end Direction

/-! ### One step -/

/-- What a move that succeeds has found and done. -/
theorem mazeMove_succeeded (ran : (mazeMove p.1 p.2 d.code).run cellMachine s = some (0, t)) :
    ∃ o, s.cells.get? p = some o ∧ o ≠ empty ∧ s.cells.get? (d.next p) = some empty ∧
      t = movedTo s p (d.next p) o := by
  rw [mazeMove_code, moveTo_run] at ran
  obtain ⟨o, present, ran⟩ := Option.bind_eq_some_iff.mp ran
  by_cases blank : o = empty
  · rw [if_pos blank] at ran
    cases ran
  · rw [if_neg blank] at ran
    obtain ⟨target, ahead, outcome⟩ := Option.map_eq_some_iff.mp ran
    by_cases clear : target = empty
    · rw [if_pos clear] at outcome
      cases outcome
      exact ⟨o, present, blank, clear ▸ ahead, rfl⟩
    · rw [if_neg clear] at outcome
      cases outcome

/-- Moving an object to a blank cell and back changes nothing. -/
theorem movedTo_back (present : s.cells.get? p = some o) (blank : s.cells.get? q = some empty) (apart : q ≠ p) :
    movedTo (movedTo s p q o) q p o = s := by
  apply Shared.ext_get?
  · intro r
    by_cases here : r = p
    · subst here
      rw [movedTo_new apart.symm (Memory.mem_of_get? present), present]
    · by_cases there : r = q
      · subst there
        rw [movedTo_old (Memory.mem_of_get? blank), blank]
      · rw [movedTo_other there here, movedTo_other here there]
  · rfl

theorem mazeMove_undone (ran : (mazeMove p.1 p.2 d.code).run cellMachine s = some (0, t)) :
    (mazeMove (d.next p).1 (d.next p).2 (reverse d.code)).run cellMachine t = some (0, s) := by
  obtain ⟨o, present, solid, blank, rfl⟩ := mazeMove_succeeded ran
  have apart := d.next_ne p
  have arrived : (movedTo s p (d.next p) o).cells.get? (d.next p) = some o :=
    movedTo_new apart (Memory.mem_of_get? blank)
  have vacated : (movedTo s p (d.next p) o).cells.get? (d.opposite.next (d.next p)) = some empty := by
    rw [d.opposite_next]
    exact movedTo_old (Memory.mem_of_get? present)
  rw [← d.opposite_code, mazeMove_ahead arrived solid vacated, if_pos rfl, d.opposite_next,
    movedTo_back present blank apart]

/-! ### Whole walks -/

/-- A maze, and the cell that the object which walks is in. -/
structure Walker (rows cols : Nat) where
  maze : MazeState rows cols
  place : Int × Int

namespace Walker
variable {w v : Walker rows cols}

/-- `maze_move` from the cell of the object, when it stays in the maze and returns 0. -/
def step (w : Walker rows cols) (dir : Int) : Option (Walker rows cols) :=
  (Direction.ofCode? dir).bind fun d =>
    ((mazeMove w.place.1 w.place.2 dir).run cellMachine w.maze).bind fun answer =>
      if answer.1 = 0 then some ⟨answer.2, d.next w.place⟩ else none

theorem step_iff : w.step dir = some v ↔ ∃ d : Direction, ∃ t, dir = d.code ∧
    (mazeMove w.place.1 w.place.2 dir).run cellMachine w.maze = some (0, t) ∧ v = ⟨t, d.next w.place⟩ := by
  constructor
  · intro stepped
    obtain ⟨d, known, stepped⟩ := Option.bind_eq_some_iff.mp stepped
    obtain ⟨⟨result, t⟩, ran, stepped⟩ := Option.bind_eq_some_iff.mp stepped
    split_ifs at stepped with zero
    obtain rfl : result = 0 := zero
    exact ⟨d, t, Direction.code_of_ofCode? known, ran, (Option.some.inj stepped).symm⟩
  · rintro ⟨d, t, rfl, ran, rfl⟩
    simp [step, Direction.ofCode?_code, ran]

theorem step_undone (stepped : w.step dir = some v) : v.step (reverse dir) = some w := by
  obtain ⟨d, t, rfl, ran, rfl⟩ := step_iff.mp stepped
  apply step_iff.mpr
  refine ⟨d.opposite, w.maze, d.opposite_code.symm, mazeMove_undone ran, ?_⟩
  rw [d.opposite_next]

theorem step_carries (present : w.maze.cells.get? w.place = some o) (stepped : w.step dir = some v) :
    v.maze.cells.get? v.place = some o := by
  obtain ⟨d, t, rfl, ran, rfl⟩ := step_iff.mp stepped
  obtain ⟨o', present', _, blank, rfl⟩ := mazeMove_succeeded ran
  obtain rfl := Option.some.inj (present.symm.trans present')
  exact movedTo_new (d.next_ne _) (Memory.mem_of_get? blank)

end Walker

/-- A walk takes the object to its last cell, and `REVERSE` of its directions, the last first, takes
it back to the first and restores the maze. -/
theorem walk_undone (dirs : List Int) (present : s.cells.get? p = some o)
    (walked : runs Walker.step ⟨s, p⟩ dirs = some ⟨t, q⟩) :
    t.cells.get? q = some o ∧ runs Walker.step ⟨t, q⟩ (dirs.reverse.map reverse) = some ⟨s, p⟩ := by
  constructor
  · exact runs_invariant (I := fun w : Walker rows cols => w.maze.cells.get? w.place = some o)
      (fun w dir v present stepped => Walker.step_carries present stepped) present walked
  · exact runs_undo (fun w dir v stepped => Walker.step_undone stepped) walked

/-- `A` walks south, west and south over open ground, and goes back north, east and north. -/
theorem walk_undone_open : ∃ t,
    runs Walker.step ⟨(⟨openGround, 1⟩ : MazeState 8 3), (0, 1)⟩ [2, 1, 2] = some ⟨t, (2, 0)⟩ ∧
      t.cells.get? (2, 0) = some 65 ∧
      runs Walker.step ⟨t, (2, 0)⟩ [0, 3, 0] = some ⟨⟨openGround, 1⟩, (0, 1)⟩ := by
  have ends : (runs Walker.step ⟨(⟨openGround, 1⟩ : MazeState 8 3), (0, 1)⟩ [2, 1, 2]).map Walker.place =
      some (2, 0) := by decide
  obtain ⟨⟨t, q⟩, walked, rfl⟩ := Option.map_eq_some_iff.mp ends
  obtain ⟨arrived, back⟩ := walk_undone [2, 1, 2] (o := 65) (by decide) walked
  exact ⟨t, walked, arrived, back⟩

end MazeWar
