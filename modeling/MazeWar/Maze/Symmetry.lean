import MazeWar.Foundation.Relabel
import MazeWar.Maze.Exclusion
import MazeWar.Maze.Walk

/-!
# Symmetries of the maze

Each function of the maze module has a branch for every direction. The branches agree: in a maze that
is turned or reflected, the functions do what they do in the maze, turned or reflected.
-/

namespace MazeWar
open Foundation
variable {rows cols rows' cols' : Nat} {s : MazeState rows cols} {p : Int × Int} {d : Direction} {dir : Int}

/-- A one-to-one map of the cells of one maze to those of another that takes directions to directions
and keeps left and right, or swaps them. -/
structure Symmetry (rows cols rows' cols' : Nat) where
  place : Relabelling (InMaze rows cols) (InMaze rows' cols')
  turn : Direction → Direction
  mirrors : Bool
  ahead : ∀ d i p, place (d.ahead i p) = (turn d).ahead i (place p)
  left : ∀ d, turn d.turnLeft = if mirrors then (turn d).turnRight else (turn d).turnLeft
  right : ∀ d, turn d.turnRight = if mirrors then (turn d).turnLeft else (turn d).turnRight
  room : ∀ d p, (turn d).room rows' cols' (place p) = d.room rows cols p

namespace Symmetry

/-! ### A quarter turn -/

def turned (cols : Nat) (p : Int × Int) : Int × Int := (cols - 1 - p.2, p.1)

def turnedBack (cols : Nat) (p : Int × Int) : Int × Int := (p.2, cols - 1 - p.1)

theorem turnedBack_turned (cols : Nat) : Function.LeftInverse (turnedBack cols) (turned cols) :=
  fun _ => Prod.ext rfl (sub_sub_cancel _ _)

theorem turned_turnedBack (cols : Nat) : Function.RightInverse (turnedBack cols) (turned cols) :=
  fun _ => Prod.ext (sub_sub_cancel _ _) rfl

theorem turned_inside (rows cols : Nat) (p : Int × Int) : InMaze cols rows (turned cols p) ↔ InMaze rows cols p := by
  unfold InMaze turned
  omega

theorem turned_ahead (cols : Nat) (d : Direction) (i : Int) (p : Int × Int) :
    turned cols (d.ahead i p) = d.turnLeft.ahead i (turned cols p) := by
  cases d <;> simp only [turned, Direction.turnLeft, Direction.ahead, Prod.mk.injEq, and_true] <;> omega

theorem turned_right (d : Direction) : d.turnRight.turnLeft = d.turnLeft.turnRight := by
  cases d <;> rfl

theorem turned_room (rows cols : Nat) (d : Direction) (p : Int × Int) :
    d.turnLeft.room cols rows (turned cols p) = d.room rows cols p := by
  cases d <;> simp only [turned, Direction.turnLeft, Direction.room] <;> omega

def turnedCells (rows cols : Nat) : Relabelling (InMaze rows cols) (InMaze cols rows) where
  toFun := turned cols
  invFun := turnedBack cols
  left_inv := turnedBack_turned cols
  right_inv := turned_turnedBack cols
  inside := turned_inside rows cols

/-- A quarter turn to the left. -/
def rotation (rows cols : Nat) : Symmetry rows cols cols rows where
  place := turnedCells rows cols
  turn := Direction.turnLeft
  mirrors := false
  ahead := turned_ahead cols
  left _ := rfl
  right := turned_right
  room := turned_room rows cols

/-! ### A reflection -/

def reflected (cols : Nat) (p : Int × Int) : Int × Int := (p.1, cols - 1 - p.2)

def swapped : Direction → Direction
  | .north => .north
  | .west => .east
  | .south => .south
  | .east => .west

theorem reflected_reflected (cols : Nat) : Function.Involutive (reflected cols) :=
  fun _ => Prod.ext rfl (sub_sub_cancel _ _)

theorem reflected_inside (rows cols : Nat) (p : Int × Int) : InMaze rows cols (reflected cols p) ↔ InMaze rows cols p := by
  unfold InMaze reflected
  omega

theorem reflected_ahead (cols : Nat) (d : Direction) (i : Int) (p : Int × Int) :
    reflected cols (d.ahead i p) = (swapped d).ahead i (reflected cols p) := by
  cases d <;> simp only [reflected, swapped, Direction.ahead, Prod.mk.injEq, true_and] <;> omega

theorem swapped_left (d : Direction) : swapped d.turnLeft = (swapped d).turnRight := by
  cases d <;> rfl

theorem swapped_right (d : Direction) : swapped d.turnRight = (swapped d).turnLeft := by
  cases d <;> rfl

theorem reflected_room (rows cols : Nat) (d : Direction) (p : Int × Int) :
    (swapped d).room rows cols (reflected cols p) = d.room rows cols p := by
  cases d <;> simp only [reflected, swapped, Direction.room] <;> omega

def reflectedCells (rows cols : Nat) : Relabelling (InMaze rows cols) (InMaze rows cols) where
  toFun := reflected cols
  invFun := reflected cols
  left_inv := reflected_reflected cols
  right_inv := reflected_reflected cols
  inside := reflected_inside rows cols

/-- West and east exchanged. -/
def reflection (rows cols : Nat) : Symmetry rows cols rows cols where
  place := reflectedCells rows cols
  turn := swapped
  mirrors := true
  ahead := reflected_ahead cols
  left := swapped_left
  right := swapped_right
  room := reflected_room rows cols

/-! ### Names of directions, calls and values -/

variable (σ : Symmetry rows cols rows' cols')

theorem next (d : Direction) (p : Int × Int) : σ.place (d.next p) = (σ.turn d).next (σ.place p) := by
  rw [← d.ahead_one, σ.ahead, Direction.ahead_one]

/-- A number that is no direction stays as it is. -/
def code (dir : Int) : Int := ((Direction.ofCode? dir).map fun d => (σ.turn d).code).getD dir

theorem code_known (d : Direction) : σ.code d.code = (σ.turn d).code := by
  rw [code, Direction.ofCode?_code]
  rfl

theorem code_unknown (unknown : ∀ d : Direction, dir ≠ d.code) : σ.code dir = dir := by
  have none : Direction.ofCode? dir = none := by
    by_contra found
    obtain ⟨d, known⟩ := Option.ne_none_iff_exists'.mp found
    exact unknown d (Direction.code_of_ofCode? known)
  rw [code, none]
  rfl

/-- The walls of a view on the sides where they are seen. -/
def view (view : View) : View := fun i j => view i (if σ.mirrors then 2 - j else j)

def function : MazeFunction → MazeFunction
  | .setPlayer avatar row col => .setPlayer avatar (σ.place (row, col)).1 (σ.place (row, col)).2
  | .removePlayer avatar row col => .removePlayer avatar (σ.place (row, col)).1 (σ.place (row, col)).2
  | .move row col dir => .move (σ.place (row, col)).1 (σ.place (row, col)).2 (σ.code dir)
  | .findTarget row col dir => .findTarget (σ.place (row, col)).1 (σ.place (row, col)).2 (σ.code dir)
  | .getView view row col gaze depth =>
    .getView (σ.view view) (σ.place (row, col)).1 (σ.place (row, col)).2 (σ.code gaze) depth

def value : MazeValue → MazeValue
  | .shown depth view => .shown depth (σ.view view)
  | .code result => .code result
  | .target object => .target object
  | .nothing => .nothing

end Symmetry

/-- The location that a function is called for. -/
def MazeFunction.place : MazeFunction → Int × Int
  | .setPlayer _ row col | .removePlayer _ row col | .move row col _ | .findTarget row col _
  | .getView _ row col _ _ => (row, col)

/-! ### Programs that are renamed -/

namespace Symmetry
variable (σ : Symmetry rows cols rows' cols')

theorem setPlayer_relabel (avatar : Object) (p : Int × Int) :
    relabel σ.place (mazeSetPlayer avatar p.1 p.2) = mazeSetPlayer avatar (σ.place p).1 (σ.place p).2 := by
  refine congrArg (Program.call (CellOp.load (σ.place p))) (funext fun o => ?_)
  show relabel σ.place (if o = empty then _ else _ : MazeProgram Int) = if o = empty then _ else _
  split <;> rfl

theorem removePlayer_relabel (avatar : Object) (p : Int × Int) :
    relabel σ.place (mazeRemovePlayer avatar p.1 p.2) = mazeRemovePlayer avatar (σ.place p).1 (σ.place p).2 := by
  refine congrArg (Program.call CellOp.wait) (funext fun _ => ?_)
  refine congrArg (Program.call (CellOp.load (σ.place p))) (funext fun o => ?_)
  show relabel σ.place (if o ≠ empty then _ else _ : MazeProgram Unit) = if o ≠ empty then _ else _
  split <;> rfl

theorem moveTo_relabel (p q : Int × Int) : relabel σ.place (moveTo p q) = moveTo (σ.place p) (σ.place q) := by
  refine congrArg (Program.call (CellOp.load (σ.place p))) (funext fun o => ?_)
  show relabel σ.place (if o ≠ empty then _ else _ : MazeProgram Int) = if o ≠ empty then _ else _
  split
  · refine congrArg (Program.call (CellOp.load (σ.place q))) (funext fun target => ?_)
    show relabel σ.place (if target = empty then _ else _ : MazeProgram Int) = if target = empty then _ else _
    split <;> rfl
  · rfl

theorem mazeMove_unknown_dir (unknown : ∀ d : Direction, dir ≠ d.code) (p : Int × Int) :
    mazeMove p.1 p.2 dir = (do
      let _ ← cell p.1 p.2
      return -1) := by
  unfold mazeMove
  simp only [if_neg (unknown _)]
  refine congrArg (Program.call (CellOp.load p)) (funext fun o => ?_)
  show (if o ≠ empty then _ else _ : MazeProgram Int) = _
  split <;> rfl

theorem move_relabel (p : Int × Int) (dir : Int) :
    relabel σ.place (mazeMove p.1 p.2 dir) = mazeMove (σ.place p).1 (σ.place p).2 (σ.code dir) := by
  by_cases known : ∃ d : Direction, dir = d.code
  · obtain ⟨d, rfl⟩ := known
    rw [σ.code_known, mazeMove_code, mazeMove_code, σ.moveTo_relabel, σ.next]
  · have unknown : ∀ d : Direction, dir ≠ d.code := fun d same => known ⟨d, same⟩
    rw [σ.code_unknown unknown, mazeMove_unknown_dir unknown, mazeMove_unknown_dir unknown]
    rfl

theorem scanCell_relabel (p : Int × Int) :
    relabel σ.place (scanCell p.1 p.2) = scanCell (σ.place p).1 (σ.place p).2 := by
  refine congrArg (Program.call (CellOp.load (σ.place p))) (funext fun o => ?_)
  show relabel σ.place (if o ≠ empty then _ else _ : MazeProgram _) = if o ≠ empty then _ else _
  split
  · refine congrArg (Program.call (CellOp.load (σ.place p))) (funext fun again => ?_)
    show relabel σ.place (if isAvatar again = true then _ else _ : MazeProgram _) = if isAvatar again = true then _ else _
    split <;> rfl
  · rfl

theorem scanAlong_relabel (d : Direction) (p : Int × Int) :
    relabel σ.place (scanAlong rows cols d p) = scanAlong rows' cols' (σ.turn d) (σ.place p) := by
  simp only [scanAlong, relabel_loop, scanCell_relabel, σ.ahead, σ.room]

theorem searchWith_relabel (scan : MazeProgram (Option Object)) :
    relabel σ.place (searchWith scan) = searchWith (relabel σ.place scan) := by
  refine congrArg (Program.call CellOp.wait) (funext fun _ => ?_)
  refine (relabel_bind scan _).trans (congrArg _ (funext fun found => ?_))
  cases found <;> rfl

theorem findTarget_relabel (inside : InMaze rows cols p) (dir : Int) :
    relabel σ.place (mazeFindTarget rows cols p.1 p.2 dir) =
      mazeFindTarget rows' cols' (σ.place p).1 (σ.place p).2 (σ.code dir) := by
  by_cases known : ∃ d : Direction, dir = d.code
  · obtain ⟨d, rfl⟩ := known
    have target : InMaze rows' cols' (σ.place p) := (σ.place.inside p).mpr inside
    have turned : mazeFindTarget rows' cols' (σ.place p).1 (σ.place p).2 (σ.turn d).code =
      searchWith (scanAlong rows' cols' (σ.turn d) (σ.place p)) := mazeFindTarget_code target (σ.turn d)
    rw [σ.code_known, turned, mazeFindTarget_code inside, σ.searchWith_relabel, σ.scanAlong_relabel]
  · have unknown : ∀ d : Direction, dir ≠ d.code := fun d same => known ⟨d, same⟩
    rw [σ.code_unknown unknown, mazeFindTarget_unknown unknown, mazeFindTarget_unknown unknown, σ.searchWith_relabel]
    rfl

/-! ### Views -/

theorem viewRow_run (view : View) (i : Int) (left middle right : Int × Int) :
    (viewRow view i left middle right).run cellMachine s =
      (s.cells.get? left).bind fun l => (s.cells.get? middle).bind fun o => (s.cells.get? right).map fun r =>
        (.yield (((view.set i leftWall l).set i corridor o).set i rightWall r), s) := by
  simp only [viewRow, cell, Program.perform_bind, run_load]
  refine congrArg _ (funext fun l => congrArg _ (funext fun o => ?_))
  cases s.cells.get? right <;> rfl

/-- The walls of a mirrored row are stored in the other order. -/
theorem view_set (view : View) (i : Int) (l o r : Object) :
    σ.view (((view.set i leftWall l).set i corridor o).set i rightWall r) =
      (((σ.view view).set i leftWall (if σ.mirrors then r else l)).set i corridor o).set i rightWall
        (if σ.mirrors then l else r) := by
  funext i' j
  unfold Symmetry.view View.set leftWall corridor rightWall
  cases σ.mirrors <;> grind

theorem turnLeft_next (d : Direction) (p : Int × Int) : (σ.turn d).turnLeft.next (σ.place p) =
    σ.place ((if σ.mirrors then d.turnRight else d.turnLeft).next p) := by
  rw [σ.next]
  cases mirrors : σ.mirrors with
  | false => simp [σ.left, mirrors]
  | true => simp [σ.right, mirrors]

theorem turnRight_next (d : Direction) (p : Int × Int) : (σ.turn d).turnRight.next (σ.place p) =
    σ.place ((if σ.mirrors then d.turnLeft else d.turnRight).next p) := by
  rw [σ.next]
  cases mirrors : σ.mirrors with
  | false => simp [σ.right, mirrors]
  | true => simp [σ.left, mirrors]

theorem patchRow_run (d : Direction) (p : Int × Int) (i : Int) (view : View) (s : MazeState rows cols) :
    (patchRow (σ.turn d) (σ.place p) i (σ.view view)).run cellMachine (σ.place.shared s) =
      ((patchRow d p i view).run cellMachine s).map fun answer => (onState σ.view answer.1, σ.place.shared answer.2) := by
  have cells : ∀ q, (σ.place.shared s).cells.get? (σ.place q) = s.cells.get? q := fun q => σ.place.memory_get?
  rw [patchRow, patchRow, viewRow_run, viewRow_run, ← σ.ahead, σ.turnLeft_next, σ.turnRight_next, cells, cells, cells]
  have stored := fun l o r => (σ.view_set view i l o r).symm
  cases mirrors : σ.mirrors with
  | false =>
    simp only [mirrors, Bool.false_eq_true, if_false] at stored ⊢
    simp only [stored, Option.map_bind, Option.map_map, Function.comp_def, onState]
  | true =>
    -- The mirrored row is read from its other end.
    simp only [mirrors, if_true] at stored ⊢
    generalize s.cells.get? (d.turnLeft.next (d.ahead i p)) = l
    generalize s.cells.get? (d.turnRight.next (d.ahead i p)) = r
    cases l <;> cases r <;> simp [stored, onState]

theorem viewReach_place (d : Direction) (p : Int × Int) (depth : Int) :
    viewReach rows' cols' (σ.turn d) (σ.place p) depth = viewReach rows cols d p depth := by
  rw [viewReach, viewReach, σ.room]

theorem getView_run (view : View) (p : Int × Int) (gaze depth : Int) (s : MazeState rows cols) :
    (mazeGetView rows' cols' (σ.view view) (σ.place p).1 (σ.place p).2 (σ.code gaze) depth).run cellMachine
        (σ.place.shared s) =
      ((mazeGetView rows cols view p.1 p.2 gaze depth).run cellMachine s).map fun answer =>
        ((answer.1.1, σ.view answer.1.2), σ.place.shared answer.2) := by
  by_cases known : ∃ d : Direction, gaze = d.code
  · obtain ⟨d, rfl⟩ := known
    rw [σ.code_known, mazeGetView_code, mazeGetView_code]
    simp only [viewAlong, Program.forUp, σ.viewReach_place, Program.run_bind, Prod.mk.eta]
    rw [run_loop_onState (fun i state s => σ.patchRow_run d p i state s), Option.bind_map, Option.map_bind]
    rfl
  · have unknown : ∀ d : Direction, gaze ≠ d.code := fun d same => known ⟨d, same⟩
    rw [σ.code_unknown unknown, mazeGetView_unknown unknown, mazeGetView_unknown unknown]
    rfl

/-! ### Calls -/

def outcome (answer : MazeValue × MazeState rows cols) : MazeValue × MazeState rows' cols' :=
  (σ.value answer.1, σ.place.shared answer.2)

/-- A call whose value is no view is renamed as a whole. -/
theorem function_run_of_relabel {α : Type} {program : MazeProgram α} {program' : MazeProgram α} {value : α → MazeValue}
    (same : relabel σ.place program = program') (kept : ∀ a, σ.value (value a) = value a) (s : MazeState rows cols) :
    (program' >>= fun a => pure (value a)).run cellMachine (σ.place.shared s) =
      ((program >>= fun a => pure (value a)).run cellMachine s).map σ.outcome := by
  rw [← same, Program.run_bind, Program.run_bind, run_relabel, Option.bind_map, Option.map_bind]
  refine congrArg _ (funext fun answer => ?_)
  simp [Relabelling.outcome, outcome, kept]

theorem function_run {f : MazeFunction} (inside : InMaze rows cols f.place) (s : MazeState rows cols) :
    ((σ.function f).program rows' cols').run cellMachine (σ.place.shared s) =
      ((f.program rows cols).run cellMachine s).map σ.outcome := by
  cases f with
  | setPlayer avatar row col =>
    exact σ.function_run_of_relabel (σ.setPlayer_relabel avatar (row, col)) (fun _ => rfl) s
  | removePlayer avatar row col =>
    have kept : ∀ a : Unit, σ.value ((fun _ => .nothing) a) = (fun _ => .nothing) a := fun _ => rfl
    exact σ.function_run_of_relabel (σ.removePlayer_relabel avatar (row, col)) kept s
  | move row col dir => exact σ.function_run_of_relabel (σ.move_relabel (row, col) dir) (fun _ => rfl) s
  | findTarget row col dir =>
    exact σ.function_run_of_relabel (σ.findTarget_relabel (p := (row, col)) inside dir) (fun _ => rfl) s
  | getView view row col gaze depth =>
    simp only [function, MazeFunction.program, Program.run_bind]
    rw [σ.getView_run view (row, col) gaze depth s, Option.bind_map, Option.map_bind]
    rfl

theorem all_run {fs : List MazeFunction} (inside : ∀ f ∈ fs, InMaze rows cols f.place) (s : MazeState rows cols) :
    (MazeFunction.all rows' cols' (fs.map σ.function)).run cellMachine (σ.place.shared s) =
      ((MazeFunction.all rows cols fs).run cellMachine s).map fun answer =>
        (answer.1.map σ.value, σ.place.shared answer.2) := by
  induction fs generalizing s with
  | nil => rfl
  | cons f rest ih =>
    rw [List.forall_mem_cons] at inside
    simp only [List.map_cons, MazeFunction.all, Program.run_bind, σ.function_run inside.1, Option.bind_map, Option.map_bind]
    refine congrArg _ (funext fun first => ?_)
    simp only [Function.comp_apply, outcome, ih inside.2, Option.bind_map, Option.map_bind]
    refine congrArg _ (funext fun later => ?_)
    rfl

end Symmetry

/-- In a maze that is turned by a quarter, or reflected, any calls return what they return in the maze,
with the walls of the views where they are then seen, and leave the maze as it is left, turned or
reflected. They end if they end in the maze. -/
theorem maze_turned_and_reflected (fs : List MazeFunction) (inside : ∀ f ∈ fs, InMaze rows cols f.place)
    (s : MazeState rows cols) :
    (MazeFunction.all cols rows (fs.map (Symmetry.rotation rows cols).function)).run cellMachine
        ((Symmetry.rotation rows cols).place.shared s) =
      ((MazeFunction.all rows cols fs).run cellMachine s).map (fun answer =>
        (answer.1.map (Symmetry.rotation rows cols).value, (Symmetry.rotation rows cols).place.shared answer.2)) ∧
    (MazeFunction.all rows cols (fs.map (Symmetry.reflection rows cols).function)).run cellMachine
        ((Symmetry.reflection rows cols).place.shared s) =
      ((MazeFunction.all rows cols fs).run cellMachine s).map (fun answer =>
        (answer.1.map (Symmetry.reflection rows cols).value, (Symmetry.reflection rows cols).place.shared answer.2)) :=
  ⟨(Symmetry.rotation rows cols).all_run inside s, (Symmetry.reflection rows cols).all_run inside s⟩

/-- Turned, the hall runs from south to north, and reflected, from east to west. -/
theorem maze_turned_and_reflected_hall :
    ((MazeFunction.all 6 3 [.findTarget 4 1 Direction.north.code, .move 4 1 Direction.north.code]).run cellMachine
        ((Symmetry.rotation 3 6).place.shared ⟨hall, 1⟩)).map Prod.fst = some [.target 66, .code 0] ∧
    ((MazeFunction.all 3 6 [.findTarget 1 4 Direction.west.code, .move 1 4 Direction.west.code]).run cellMachine
        ((Symmetry.reflection 3 6).place.shared ⟨hall, 1⟩)).map Prod.fst = some [.target 66, .code 0] := by
  obtain ⟨turned, reflected⟩ := maze_turned_and_reflected
    [.findTarget 1 1 Direction.east.code, .move 1 1 Direction.east.code] (by
      intro f member
      simp only [List.mem_cons, List.not_mem_nil, or_false] at member
      obtain rfl | rfl := member <;> exact hall_inner.inMaze) ⟨hall, 1⟩
  have values : ((MazeFunction.all 3 6 [.findTarget 1 1 Direction.east.code, .move 1 1 Direction.east.code]).run
      cellMachine ⟨hall, 1⟩).map Prod.fst = some [.target 66, .code 0] := rfl
  obtain ⟨⟨_, t⟩, ran, rfl⟩ := Option.map_eq_some_iff.mp values
  rw [ran] at turned reflected
  exact ⟨congrArg (Option.map Prod.fst) turned, congrArg (Option.map Prod.fst) reflected⟩

end MazeWar
