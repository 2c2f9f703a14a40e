import MazeWar.Maze.Races

/-!
# Printing the maze

`show_maze` prints the rows as strings. A row has a cell for each column and none for a terminator, so it
is read past its end, whatever other threads are doing.
-/

namespace MazeWar
open Foundation
variable {rows cols fuel : Nat}

/-- What `%s` reads of a row: its cells from a column on, up to the first NUL. `none` if that has not
been reached after `fuel` of them. -/
def printRow (row : Int) : Nat → Int → MazeProgram (Option (List Object))
  | 0, _ => return none
  | fuel + 1, col => do
    let o ← cell row col
    if o = 0 then return some []
    return (← printRow row fuel (col + 1)).map (o :: ·)

/-- The lines that are printed. -/
def showMaze (rows fuel : Nat) : MazeProgram (Option (List (List Object))) :=
  Program.forUp 0 rows (some []) fun i lines => do
    match ← printRow i fuel 0 with
    | none => return .done none
    | some line => return .yield (lines.map (· ++ [line]))

/-- What threads do with the maze: they call its functions and print it. A random placement that has not
come about after `attempts` rounds is left at that. -/
inductive Errand where
  | call (f : MazeFunction)
  | setPlayerRandom (avatar : Object) (draw : Nat → Nat) (attempts : Nat) (rowp colp : Int)
  | showMaze

namespace Errand

def program (rows cols fuel : Nat) : Errand → MazeProgram MazeValue
  | call f => f.program rows cols
  | setPlayerRandom avatar draw attempts rowp colp => do
    let _ ← mazeSetPlayerRandom rows cols draw attempts avatar rowp colp
    return .nothing
  | showMaze => do
    let _ ← MazeWar.showMaze rows fuel
    return .nothing

def all (rows cols fuel : Nat) : List Errand → MazeProgram (List MazeValue)
  | [] => pure []
  | errand :: rest => do
    let value ← errand.program rows cols fuel
    let values ← all rows cols fuel rest
    return value :: values

/-- The call is in the bounds of the maze, and the avatar that it places is not a NUL. -/
def Printable (rows cols : Nat) : Errand → Prop
  | call (.setPlayer avatar row col) => avatar ≠ 0 ∧ InMaze rows cols (row, col)
  | call f => f.InBounds rows cols
  | setPlayerRandom avatar _ _ _ _ => avatar ≠ 0
  | showMaze => True

end Errand

/-- Anything but the terminator of a string. -/
def Character (_ : Int × Int) (o : Object) : Prop := o ≠ 0

theorem printRow_secures (row col : Int) : Secures Character Character (fun _ => True) (printRow row fuel col) := by
  induction fuel generalizing col with
  | zero => trivial
  | succ fuel ih =>
    intro o _
    show Secures _ _ _ (if o = 0 then _ else _ : MazeProgram _)
    split
    · trivial
    · exact (ih (col + 1)).bind fun _ _ => trivial

theorem showMaze_secures : Secures Character Character (fun _ => True) (showMaze rows fuel) := by
  refine Secures.loop (fun _ _ => True) trivial (fun k lines _ _ => ?_) fun _ _ => trivial
  refine (printRow_secures _ 0).bind fun line _ => ?_
  cases line <;> trivial

theorem mazeSetPlayerRandom_secures {avatar : Object} {draw : Nat → Nat} {attempts : Nat} {rowp colp : Int}
    (character : avatar ≠ 0) : Secures Character Character (fun _ => True)
      (mazeSetPlayerRandom rows cols draw attempts avatar rowp colp) := by
  have attempted : ∀ drawn isSet x y, Secures Character Character (fun _ => True)
      (mazeSetPlayerRandomLoop rows cols draw avatar 0 attempts drawn isSet x y) := by
    induction attempts with
    | zero => intros; trivial
    | succ attempts ih =>
      intro drawn isSet x y
      rw [mazeSetPlayerRandomLoop]
      split
      · exact (mazeSetPlayer_secures fun _ => character).bind fun _ _ => ih _ _ _ _
      · trivial
  refine (attempted 0 (-1) 0 0).bind fun outcome _ => ?_
  cases outcome <;> trivial

theorem Errand.Printable.inBounds {f : MazeFunction} (printable : (Errand.call f).Printable rows cols) :
    f.InBounds rows cols := by
  cases f with
  | setPlayer avatar row col => exact printable.2
  | removePlayer avatar row col | move row col dir | findTarget row col dir | getView view row col gaze depth =>
    exact printable

theorem Errand.Printable.grants {f : MazeFunction} (printable : (Errand.call f).Printable rows cols) :
    f.Grants Character Character := by
  have blank : ∀ p, Character p empty := fun _ => by simp [Character, empty]
  cases f with
  | setPlayer avatar row col => exact fun _ => printable.1
  | removePlayer avatar row col => exact fun _ _ _ => blank _
  | move row col dir => exact fun _ _ _ _ _ _ _ held => ⟨held, blank _⟩
  | findTarget row col dir | getView view row col gaze depth => trivial

theorem Errand.all_secures {errands : List Errand} (printable : ∀ errand ∈ errands, errand.Printable rows cols) :
    Secures Character Character (fun _ => True) (all rows cols fuel errands) := by
  induction errands with
  | nil => trivial
  | cons errand rest ih =>
    rw [List.forall_mem_cons] at printable
    have first : Secures Character Character (fun _ => True) (errand.program rows cols fuel) := by
      cases errand with
      | showMaze => exact showMaze_secures.bind fun _ _ => trivial
      | setPlayerRandom avatar draw attempts rowp colp =>
        exact (mazeSetPlayerRandom_secures printable.1).bind fun _ _ => trivial
      | call f =>
        exact (MazeFunction.program_secures printable.1.inBounds (printable.1.grants)).mono fun _ _ => trivial
    exact first.bind fun _ _ => (ih printable.2).bind fun _ _ => trivial

/-! ### Past the end of the row -/

section
variable {ι : Type} [DecidableEq ι] {i : ι} {during : List ι} {α : Type}
  {pool t : Pool ι (CellOp (Int × Int) Object) CellOp.Res α (MazeState rows cols)}

end

end MazeWar
