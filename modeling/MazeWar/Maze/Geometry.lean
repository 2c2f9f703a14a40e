import MazeWar.Maze.Behavior

/-!
# Directions and distances

The cells ahead of a location and beside them, in terms of `Direction.next` and the turns,
independently of the four direction branches of the source.
-/

namespace MazeWar
variable {rows cols : Nat} {d : Direction} {p : Int × Int} {i : Int}

namespace Direction

/-- `TURN_LEFT`. -/
def turnLeft : Direction → Direction
  | north => west
  | west => south
  | south => east
  | east => north

/-- `TURN_RIGHT`. -/
def turnRight : Direction → Direction
  | north => east
  | west => north
  | south => west
  | east => south

theorem turnLeft_code (d : Direction) :
    d.turnLeft.code = if d.code = east.code then north.code else d.code + 1 := by
  cases d <;> decide

theorem turnRight_code (d : Direction) :
    d.turnRight.code = if d.code = north.code then east.code else d.code - 1 := by
  cases d <;> decide

/-- The cell `i` units ahead. -/
def ahead : Direction → Int → Int × Int → Int × Int
  | north, i, (row, col) => (row - i, col)
  | west, i, (row, col) => (row, col - i)
  | south, i, (row, col) => (row + i, col)
  | east, i, (row, col) => (row, col + i)

theorem ahead_zero (d : Direction) (p : Int × Int) : d.ahead 0 p = p := by
  cases d <;> simp [ahead]

theorem ahead_one (d : Direction) (p : Int × Int) : d.ahead 1 p = d.next p := by
  cases d <;> rfl

theorem next_ahead (d : Direction) (i : Int) (p : Int × Int) : d.next (d.ahead i p) = d.ahead (i + 1) p := by
  obtain ⟨row, col⟩ := p
  cases d <;> simp only [next, ahead, Prod.mk.injEq, true_and, and_true] <;> omega

theorem ahead_next (d : Direction) (i : Int) (p : Int × Int) : d.ahead i (d.next p) = d.ahead (i + 1) p := by
  obtain ⟨row, col⟩ := p
  cases d <;> simp only [next, ahead, Prod.mk.injEq, true_and, and_true] <;> omega

theorem iterate_next (d : Direction) (k : Nat) (p : Int × Int) : d.next^[k] p = d.ahead k p := by
  induction k with
  | zero => exact (d.ahead_zero p).symm
  | succ k ih =>
    rw [Function.iterate_succ_apply', ih, next_ahead, Nat.cast_succ]

theorem ahead_inj {j : Int} : d.ahead i p = d.ahead j p ↔ i = j := by
  obtain ⟨row, col⟩ := p
  cases d <;> simp only [ahead, Prod.mk.injEq, true_and, and_true] <;> omega

theorem turnLeft_ahead_ne (d : Direction) (i j : Int) (p : Int × Int) :
    d.turnLeft.next (d.ahead i p) ≠ d.ahead j p := by
  intro same
  cases d <;> simp only [turnLeft, next, ahead, Prod.mk.injEq] at same <;> omega

theorem turnRight_ahead_ne (d : Direction) (i j : Int) (p : Int × Int) :
    d.turnRight.next (d.ahead i p) ≠ d.ahead j p := by
  intro same
  cases d <;> simp only [turnRight, next, ahead, Prod.mk.injEq] at same <;> omega

/-- The number of cells from a location, inclusive, to the boundary. -/
def room (rows cols : Nat) : Direction → Int × Int → Int
  | north, (row, _) => row + 1
  | west, (_, col) => col + 1
  | south, (row, _) => rows - row
  | east, (_, col) => cols - col

theorem room_next (rows cols : Nat) (d : Direction) (p : Int × Int) :
    d.room rows cols (d.next p) = d.room rows cols p - 1 := by
  cases d <;> simp only [room, next] <;> omega

theorem ahead_inMaze_iff (inside : InMaze rows cols p) (low : 0 ≤ i) :
    InMaze rows cols (d.ahead i p) ↔ i < d.room rows cols p := by
  obtain ⟨above, below, left, right⟩ := inside
  cases d <;> simp only [InMaze, ahead, room] <;> omega

theorem iterate_inMaze_iff (inside : InMaze rows cols p) (k : Nat) :
    InMaze rows cols (d.next^[k] p) ↔ k < d.room rows cols p := by
  rw [iterate_next]
  exact ahead_inMaze_iff inside (Int.natCast_nonneg k)

end Direction

/-- A location with a cell on its left and one on its right. -/
structure Flanked (rows cols : Nat) (d : Direction) (p : Int × Int) : Prop where
  inside : InMaze rows cols p
  left : InMaze rows cols (d.turnLeft.next p)
  right : InMaze rows cols (d.turnRight.next p)

theorem Inner.flanked (inner : Inner rows cols p) (d : Direction) : Flanked rows cols d p :=
  ⟨inner.inMaze, inner.next d.turnLeft, inner.next d.turnRight⟩

/-- Moving along the direction keeps the sides, up to the boundary. -/
theorem Flanked.ahead (flanked : Flanked rows cols d p) (low : 0 ≤ i) (high : i < d.room rows cols p) :
    Flanked rows cols d (d.ahead i p) := by
  obtain ⟨inside, left, right⟩ := flanked
  refine ⟨(Direction.ahead_inMaze_iff inside low).mpr high, ?_, ?_⟩
  · cases d <;> simp only [InMaze, Direction.turnLeft, Direction.next, Direction.ahead, Direction.room] at * <;> omega
  · cases d <;> simp only [InMaze, Direction.turnRight, Direction.next, Direction.ahead, Direction.room] at * <;> omega

theorem Inner.room (inner : Inner rows cols p) (d : Direction) : 2 ≤ d.room rows cols p := by
  obtain ⟨above, below, left, right⟩ := inner
  cases d <;> simp only [Direction.room] <;> omega

end MazeWar
