import MazeWar.Foundation.Memory

/-!
# The maze module

`maze.c` as programs over the cells of `the_maze` and the semaphore `mutex`.
`the_row` and `the_col` are set by `maze_init` and constant from then on, so they
are parameters. Debugging output is left out.
-/

namespace MazeWar
open Foundation

abbrev Object := UInt8

/-- `EMPTY`, the blank character. -/
def empty : Object := 32

/-- `IS_AVATAR`: `isupper` in the C locale. -/
def isAvatar (c : Object) : Bool := 65 ≤ c && c ≤ 90

def isWall (c : Object) : Bool := !(c == empty) && !isAvatar c && 32 < c && c < 65

inductive Direction where
  | north | west | south | east
  deriving DecidableEq, Repr

namespace Direction

def code : Direction → Int
  | north => 0
  | west => 1
  | south => 2
  | east => 3

/-- One unit in a direction, by the (row, column) increments documented in `maze.h`. -/
def next : Direction → Int × Int → Int × Int
  | north, (row, col) => (row - 1, col)
  | west, (row, col) => (row, col - 1)
  | south, (row, col) => (row + 1, col)
  | east, (row, col) => (row, col + 1)

end Direction

/-- The cells that exist. An index outside them is undefined behaviour in the source. -/
def InMaze (rows cols : Nat) (p : Int × Int) : Prop :=
  0 ≤ p.1 ∧ p.1 < rows ∧ 0 ≤ p.2 ∧ p.2 < cols

instance (rows cols : Nat) : DecidablePred (InMaze rows cols) :=
  fun p => inferInstanceAs (Decidable (0 ≤ p.1 ∧ p.1 < rows ∧ 0 ≤ p.2 ∧ p.2 < cols))

/-- `the_maze`: a rectangle of cells. -/
abbrev Maze (rows cols : Nat) := Memory (InMaze rows cols) Object

abbrev MazeState (rows cols : Nat) := Shared (InMaze rows cols) Object

abbrev MazeProgram := CellProgram (Int × Int) Object

def cell (row col : Int) : MazeProgram Object := Program.perform (CellOp.load (row, col))

def setCell (row col : Int) (o : Object) : MazeProgram Unit := Program.perform (CellOp.store (row, col) o)

def mutexP : MazeProgram Unit := Program.perform CellOp.wait

def mutexV : MazeProgram Unit := Program.perform CellOp.post

def mazeSetPlayer (avatar : Object) (row col : Int) : MazeProgram Int := do
  if (← cell row col) = empty then
    setCell row col avatar
    return 0
  return -1

/-- The loop of `maze_set_player_random`, for at most `fuel` rounds; `none` if it has not
ended by then. `draw` is the sequence that `rand_r` returns. No round changes `i`. -/
def mazeSetPlayerRandomLoop (rows cols : Nat) (draw : Nat → Nat) (avatar : Object) (i : Int) :
    Nat → Nat → Int → Int → Int → MazeProgram (Option (Int × Int × Int))
  | 0, _, isSet, x, y => return if isSet ≠ 0 ∧ i < 20 then none else some (isSet, x, y)
  | fuel + 1, drawn, isSet, x, y => do
    if isSet ≠ 0 ∧ i < 20 then
      let x : Int := (draw drawn % rows : Nat)
      let y : Int := (draw (drawn + 1) % cols : Nat)
      let isSet ← mazeSetPlayer avatar x y
      mazeSetPlayerRandomLoop rows cols draw avatar i fuel (drawn + 2) isSet x y
    else return some (isSet, x, y)

/-- Returns the result, `*rowp` and `*colp`. -/
def mazeSetPlayerRandom (rows cols : Nat) (draw : Nat → Nat) (fuel : Nat) (avatar : Object)
    (rowp colp : Int) : MazeProgram (Option (Int × Int × Int)) := do
  match ← mazeSetPlayerRandomLoop rows cols draw avatar 0 fuel 0 (-1) 0 0 with
  | none => return none
  | some (isSet, x, y) => return some (if isSet = 0 then (0, x, y) else (-1, rowp, colp))

/-- The avatar is not consulted. -/
def mazeRemovePlayer (_avatar : Object) (row col : Int) : MazeProgram Unit := do
  mutexP
  if (← cell row col) ≠ empty then
    setCell row col empty
  mutexV

def mazeMove (row col dir : Int) : MazeProgram Int := do
  if (← cell row col) ≠ empty then
    if dir = Direction.north.code then
      if (← cell (row - 1) col) = empty then
        setCell (row - 1) col (← cell row col)
        setCell row col empty
        return 0
    else if dir = Direction.west.code then
      if (← cell row (col - 1)) = empty then
        setCell row (col - 1) (← cell row col)
        setCell row col empty
        return 0
    else if dir = Direction.south.code then
      if (← cell (row + 1) col) = empty then
        setCell (row + 1) col (← cell row col)
        setCell row col empty
        return 0
    else if dir = Direction.east.code then
      if (← cell row (col + 1)) = empty then
        setCell row (col + 1) (← cell row col)
        setCell row col empty
        return 0
  return -1

/-- The body of the four scans of `maze_find_target`. The result of a hit is read again
after the semaphore has been released. -/
def scanCell (row col : Int) : MazeProgram (ForInStep (Option Object)) := do
  if (← cell row col) ≠ empty then
    if isAvatar (← cell row col) then
      mutexV
      return .done (some (← cell row col))
    mutexV
    return .done (some empty)
  return .yield none

def mazeFindTarget (rows cols : Nat) (row col dir : Int) : MazeProgram Object := do
  mutexP
  let found ←
    if dir = Direction.north.code ∧ row - 1 ≥ 0 then
      Program.forDown (row - 1) 0 none fun i _ => scanCell i col
    else if dir = Direction.west.code ∧ col - 1 ≥ 0 then
      Program.forDown (col - 1) 0 none fun i _ => scanCell row i
    else if dir = Direction.south.code ∧ row + 1 ≤ rows then
      Program.forUp (row + 1) rows none fun i _ => scanCell i col
    else if dir = Direction.east.code ∧ col + 1 ≤ cols then
      Program.forUp (col + 1) cols none fun i _ => scanCell row i
    else pure none
  match found with
  | some target => return target
  | none =>
    mutexV
    return empty

/-- The caller's view array: `view i j` is entry `j` at distance `i`. -/
abbrev View := Int → Int → Object

def viewDepth : Int := 16
def leftWall : Int := 0
def corridor : Int := 1
def rightWall : Int := 2

def View.set (view : View) (i j : Int) (o : Object) : View :=
  fun i' j' => if i' = i ∧ j' = j then o else view i' j'

/-- The body of the four loops of `maze_get_view`. -/
def viewRow (view : View) (i : Int) (left middle right : Int × Int) :
    MazeProgram (ForInStep View) := do
  let view := view.set i leftWall (← cell left.1 left.2)
  let view := view.set i corridor (← cell middle.1 middle.2)
  let view := view.set i rightWall (← cell right.1 right.2)
  return .yield view

/-- The arithmetic on `int` does not overflow for origins in the maze: the row and the column are below `rows` and
`cols`, and the depth is capped at `viewDepth` from above. A negative depth of the order of 2^31 is left out. -/
def mazeGetView (rows cols : Nat) (view : View) (row col gaze depth : Int) :
    MazeProgram (Int × View) := do
  let depth := if depth ≥ viewDepth then viewDepth else depth
  if gaze = Direction.north.code then
    let stop := if row - depth < 0 then row + 1 else depth
    let view ← Program.forUp 0 stop view fun i view =>
      viewRow view i (row - i, col - 1) (row - i, col) (row - i, col + 1)
    return (stop, view)
  else if gaze = Direction.west.code then
    let stop := if col - depth < 0 then col + 1 else depth
    let view ← Program.forUp 0 stop view fun i view =>
      viewRow view i (row + 1, col - i) (row, col - i) (row - 1, col - i)
    return (stop, view)
  else if gaze = Direction.south.code then
    let stop := if row + depth > rows then rows - row else depth
    let view ← Program.forUp 0 stop view fun i view =>
      viewRow view i (row + i, col + 1) (row + i, col) (row + i, col - 1)
    return (stop, view)
  else if gaze = Direction.east.code then
    let stop := if col + depth > cols then cols - col else depth
    let view ← Program.forUp 0 stop view fun i view =>
      viewRow view i (row - 1, col + i) (row, col + i) (row + 1, col + i)
    return (stop, view)
  return (-1, view)

end MazeWar
