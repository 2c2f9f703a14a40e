import MazeWar.Maze.Geometry

/-!
# Moves, up to the boundary

`maze_move` is exact and atomic wherever the cell it looks at exists. It tests no bounds, so an
object at the boundary that moves outwards reads outside the maze.
-/

namespace MazeWar
open Foundation
variable {rows cols : Nat} {s : MazeState rows cols} {d : Direction} {p q r : Int × Int} {o target : Object}
  {row col dir : Int}

/-- The maze after the object `o` moved from `p` to `q`. -/
def movedTo (s : MazeState rows cols) (p q : Int × Int) (o : Object) : MazeState rows cols :=
  { s with cells := (s.cells.put q o).put p empty }

theorem movedTo_old (inside : InMaze rows cols p) : (movedTo s p q o).cells.get? p = some empty :=
  Memory.get?_put_self inside

theorem movedTo_new (different : q ≠ p) (inside : InMaze rows cols q) :
    (movedTo s p q o).cells.get? q = some o := by
  unfold movedTo
  rw [Memory.get?_put_ne different, Memory.get?_put_self inside]

theorem movedTo_other (notOld : r ≠ p) (notNew : r ≠ q) :
    (movedTo s p q o).cells.get? r = s.cells.get? r := by
  unfold movedTo
  rw [Memory.get?_put_ne notOld, Memory.get?_put_ne notNew]

/-! ### The cases of a move -/

theorem mazeMove_ahead (present : s.cells.get? p = some o) (solid : o ≠ empty)
    (ahead : s.cells.get? (d.next p) = some target) :
    (mazeMove p.1 p.2 d.code).run cellMachine s =
      some (if target = empty then (0, movedTo s p (d.next p) o) else (-1, s)) := by
  rw [mazeMove_code, moveTo_run, present, Option.bind_some, if_neg solid, ahead]
  rfl

theorem mazeMove_blank (blank : s.cells.get? (row, col) = some empty) :
    (mazeMove row col dir).run cellMachine s = some (-1, s) := by
  simp [mazeMove, cell, blank]

theorem mazeMove_outside (present : s.cells.get? p = some o) (solid : o ≠ empty)
    (outside : s.cells.get? (d.next p) = none) : (mazeMove p.1 p.2 d.code).run cellMachine s = none := by
  rw [mazeMove_code, moveTo_run, present, Option.bind_some, if_neg solid, outside]
  rfl

theorem mazeMove_unknown (unknown : ∀ d : Direction, dir ≠ d.code) (present : s.cells.get? (row, col) = some o) :
    (mazeMove row col dir).run cellMachine s = some (-1, s) := by
  unfold mazeMove
  simp only [if_neg (unknown _)]
  by_cases blank : o = empty <;> simp [cell, present, blank]

/-! ### The specification -/

/-- The move is possible: an object in the cell, a blank in the cell of the maze next to it. -/
def CanMove (s : MazeState rows cols) (d : Direction) (p : Int × Int) : Prop :=
  s.cells.get? p ≠ some empty ∧ s.cells.get? (d.next p) = some empty

/-- The object of `p`, and nothing else, is one step further. -/
structure Moved (s t : MazeState rows cols) (d : Direction) (p : Int × Int) : Prop where
  arrived : t.cells.get? (d.next p) = s.cells.get? p
  left : t.cells.get? p = some empty
  rest : ∀ q, q ≠ p → q ≠ d.next p → t.cells.get? q = s.cells.get? q

/-- `maze_move` stays in the maze, succeeds exactly when the move is possible, moves the object
when it succeeds, and changes nothing when it does not. -/
structure MoveExact (s : MazeState rows cols) (row col dir : Int) : Prop where
  inside : ∀ b ∈ touched (mazeMove row col dir) s, InMaze rows cols b
  outcome : ∃ result t, (mazeMove row col dir).run cellMachine s = some (result, t) ∧
    (result = 0 ↔ ∃ d : Direction, dir = d.code ∧ CanMove s d (row, col)) ∧
    (result = 0 → ∃ d : Direction, dir = d.code ∧ Moved s t d (row, col)) ∧
    (result ≠ 0 → ∀ q, t.cells.get? q = s.cells.get? q)

theorem Direction.code_injective {d d' : Direction} (same : d.code = d'.code) : d = d' := by
  cases d <;> cases d' <;> first | rfl | exact absurd same (by decide)

/-- A call that returns -1 and changes nothing is exact when the move is not possible. -/
theorem moveExact_refused (ran : (mazeMove row col dir).run cellMachine s = some (-1, s))
    (blocked : ∀ d : Direction, dir = d.code → ¬ CanMove s d (row, col)) : MoveExact s row col dir := by
  refine ⟨touched_mem (by rw [ran]; rfl), -1, s, ran, ?_, fun zero => absurd zero (by decide), fun _ _ => rfl⟩
  exact iff_of_false (by decide) fun ⟨d, code, possible⟩ => blocked d code possible

theorem moveExact_ahead (present : s.cells.get? (row, col) = some o) (solid : o ≠ empty)
    (ahead : s.cells.get? (d.next (row, col)) = some target) : MoveExact s row col d.code := by
  have ran := mazeMove_ahead present solid ahead
  by_cases clear : target = empty
  · rw [if_pos clear] at ran
    have possible : CanMove s d (row, col) := ⟨by rw [present]; simpa using solid, by rw [ahead, clear]⟩
    refine ⟨touched_mem (by rw [ran]; rfl), 0, _, ran, iff_of_true rfl ⟨d, rfl, possible⟩, fun _ => ⟨d, rfl, ?_⟩,
      fun nonzero => absurd rfl nonzero⟩
    refine ⟨?_, movedTo_old (Memory.mem_of_get? present), fun q notOld notNew => movedTo_other notOld notNew⟩
    rw [movedTo_new (d.next_ne _) (Memory.mem_of_get? ahead), present]
  · rw [if_neg clear] at ran
    refine moveExact_refused ran fun d' code possible => clear ?_
    obtain rfl := Direction.code_injective code
    exact Option.some.inj (ahead.symm.trans possible.2)

/-- On a cell of the maze, `maze_move` meets its specification exactly when the cell is blank or
the cell it names next is in the maze. -/
theorem mazeMove_exact_iff (inside : InMaze rows cols (row, col)) :
    MoveExact s row col dir ↔
      s.cells.get? (row, col) = some empty ∨ ∀ d : Direction, dir = d.code → InMaze rows cols (d.next (row, col)) := by
  obtain ⟨o, present⟩ := Memory.exists_get? (m := s.cells) inside
  constructor
  · intro meets
    by_cases blank : o = empty
    · exact Or.inl (by rw [present, blank])
    · refine Or.inr fun d code => ?_
      by_contra outside
      obtain ⟨result, t, ran, _⟩ := meets.outcome
      have nothing : s.cells.get? (d.next (row, col)) = none := dif_neg outside
      rw [code, mazeMove_outside present blank nothing] at ran
      cases ran
  · intro holds
    by_cases blank : o = empty
    · have clear : s.cells.get? (row, col) = some empty := by rw [present, blank]
      exact moveExact_refused (mazeMove_blank clear) fun d code possible => possible.1 clear
    · have within := holds.resolve_left (by rw [present]; simpa using blank)
      by_cases known : ∃ d : Direction, dir = d.code
      · obtain ⟨d, rfl⟩ := known
        obtain ⟨target, ahead⟩ := Memory.exists_get? (m := s.cells) (within d rfl)
        exact moveExact_ahead present blank ahead
      · have unknown : ∀ d : Direction, dir ≠ d.code := fun d same => known ⟨d, same⟩
        exact moveExact_refused (mazeMove_unknown unknown present) fun d code _ => unknown d code

/-- Open ground with `A` in the top row. -/
def openGround : Maze 8 3 := fun p => if p.1 = (0, 1) then 65 else empty

/-- `A` moves north out of the maze: row -1 is read. -/
theorem mazeMove_leaves_maze :
    (-1, 1) ∈ touched (mazeMove 0 1 Direction.north.code) (⟨openGround, 1⟩ : MazeState 8 3) ∧
      ¬ MoveExact (⟨openGround, 1⟩ : MazeState 8 3) 0 1 Direction.north.code := by
  have escaped : (-1, 1) ∈ touched (mazeMove 0 1 Direction.north.code) (⟨openGround, 1⟩ : MazeState 8 3) := by decide
  exact ⟨escaped, fun meets => absurd (meets.inside _ escaped) (by decide)⟩

/-- Moving south instead is exact, and possible. -/
theorem mazeMove_exact_south : MoveExact (⟨openGround, 1⟩ : MazeState 8 3) 0 1 Direction.south.code :=
  (mazeMove_exact_iff (by decide)).mpr (Or.inr fun d code => by
    obtain rfl := Direction.code_injective code
    decide)

end MazeWar
