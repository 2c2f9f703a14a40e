import MazeWar.Maze.Geometry

/-!
# The view from a location

`maze_get_view` copies the oriented patch of the maze: one loop for the four branches,
one description of what it fills in.
-/

namespace MazeWar
open Foundation
variable {rows cols : Nat} {s : MazeState rows cols} {d : Direction} {p : Int × Int} {view : View} {depth : Int}

theorem View.set_at (view : View) (i j : Int) (o : Object) : view.set i j o i j = o := if_pos ⟨rfl, rfl⟩

theorem View.set_other {i j i' j' : Int} (view : View) (o : Object) (other : i' ≠ i ∨ j' ≠ j) :
    view.set i j o i' j' = view i' j' := by
  unfold View.set
  exact if_neg fun same => other.elim (· same.1) (· same.2)

/-- The rows below `stop` of `view` show the cells beside and at each distance; the others are those of `old`. -/
structure Patch (m : Maze rows cols) (d : Direction) (p : Int × Int) (old : View) (stop : Int) (view : View) : Prop where
  left : ∀ i, 0 ≤ i → i < stop → m.get? (d.turnLeft.next (d.ahead i p)) = some (view i leftWall)
  middle : ∀ i, 0 ≤ i → i < stop → m.get? (d.ahead i p) = some (view i corridor)
  right : ∀ i, 0 ≤ i → i < stop → m.get? (d.turnRight.next (d.ahead i p)) = some (view i rightWall)
  rest : ∀ i j, ¬ (0 ≤ i ∧ i < stop) → view i j = old i j

theorem Patch.start {m : Maze rows cols} : Patch m d p view 0 view :=
  ⟨by omega, by omega, by omega, fun _ _ _ => rfl⟩

theorem Patch.add {m : Maze rows cols} {old : View} {i : Int} {l o r : Object} (patch : Patch m d p old i view)
    (low : 0 ≤ i) (left : m.get? (d.turnLeft.next (d.ahead i p)) = some l)
    (middle : m.get? (d.ahead i p) = some o) (right : m.get? (d.turnRight.next (d.ahead i p)) = some r) :
    Patch m d p old (i + 1) (((view.set i leftWall l).set i corridor o).set i rightWall r) := by
  have others : ∀ {k : Int} (j : Int), k ≠ i →
      ((view.set i leftWall l).set i corridor o).set i rightWall r k j = view k j := by
    intro k j other
    rw [View.set_other _ _ (.inl other), View.set_other _ _ (.inl other), View.set_other _ _ (.inl other)]
  refine ⟨?_, ?_, ?_, ?_⟩
  · intro k from_zero before
    by_cases last : k = i
    · rw [last, View.set_other _ _ (.inr (by decide)), View.set_other _ _ (.inr (by decide)), View.set_at]
      exact left
    · rw [others _ last]
      exact patch.left k from_zero (by omega)
  · intro k from_zero before
    by_cases last : k = i
    · rw [last, View.set_other _ _ (.inr (by decide)), View.set_at]
      exact middle
    · rw [others _ last]
      exact patch.middle k from_zero (by omega)
  · intro k from_zero before
    by_cases last : k = i
    · rw [last, View.set_at]
      exact right
    · rw [others _ last]
      exact patch.right k from_zero (by omega)
  · intro k j outside
    rw [others _ (by omega)]
    exact patch.rest k j (by omega)

/-! ### The loop -/

def patchRow (d : Direction) (p : Int × Int) (i : Int) (view : View) : MazeProgram (ForInStep View) :=
  viewRow view i (d.turnLeft.next (d.ahead i p)) (d.ahead i p) (d.turnRight.next (d.ahead i p))

theorem patchRow_ends {old : View} {i : Int} (patch : Patch s.cells d p old i view) (low : 0 ≤ i)
    (flanked : Flanked rows cols d (d.ahead i p)) :
    (patchRow d p i view).Ends cellMachine s
      (Program.Outcome (fun _ _ => False) fun view t => t = s ∧ Patch s.cells d p old (i + 1) view) := by
  obtain ⟨l, left⟩ := Memory.exists_get? (m := s.cells) flanked.left
  obtain ⟨o, middle⟩ := Memory.exists_get? (m := s.cells) flanked.inside
  obtain ⟨r, right⟩ := Memory.exists_get? (m := s.cells) flanked.right
  refine ⟨.yield _, s, ?_, rfl, patch.add low left middle right⟩
  simp [patchRow, viewRow, cell, left, middle, right]

theorem patchLoop_ends {stop : Int} (flanked : Flanked rows cols d p) (near : stop ≤ d.room rows cols p) :
    (Program.forUp 0 stop view (patchRow d p)).Ends cellMachine s
      fun filled t => t = s ∧ Patch s.cells d p view stop filled := by
  refine Program.Ends.forUp (fun i filled t => t = s ∧ Patch s.cells d p view i filled) ⟨rfl, Patch.start⟩ ?_ ?_
  · intro i filled t low high inv
    obtain ⟨rfl, patch⟩ := inv
    refine (patchRow_ends patch low (flanked.ahead low (by omega))).mono fun step u holds => ?_
    exact holds.mono (fun _ _ => False.elim) fun _ _ filled => filled
  · intro filled t inv
    obtain ⟨same, patch⟩ := inv
    refine ⟨same, fun i low high => ?_, fun i low high => ?_, fun i low high => ?_, fun i j outside => ?_⟩
    · exact patch.left i low (by omega)
    · exact patch.middle i low (by omega)
    · exact patch.right i low (by omega)
    · exact patch.rest i j (by omega)

/-- How far the view reaches. -/
def viewReach (rows cols : Nat) (d : Direction) (p : Int × Int) (depth : Int) : Int :=
  min (min depth viewDepth) (d.room rows cols p)

/-- The branch that the four directions of `maze_get_view` share. -/
def viewAlong (rows cols : Nat) (view : View) (d : Direction) (p : Int × Int) (depth : Int) :
    MazeProgram (Int × View) := do
  let stop := viewReach rows cols d p depth
  let view ← Program.forUp 0 stop view (patchRow d p)
  return (stop, view)

theorem mazeGetView_code (d : Direction) (row col : Int) :
    mazeGetView rows cols view row col d.code depth = viewAlong rows cols view d (row, col) depth := by
  have clip : (if depth ≥ viewDepth then viewDepth else depth) = min depth viewDepth := by
    unfold viewDepth
    split <;> omega
  unfold mazeGetView viewAlong viewReach
  rw [clip]
  generalize min depth viewDepth = depth
  cases d with
  | north =>
    have stop : (if row - depth < 0 then row + 1 else depth) = min depth (row + 1) := by split <;> omega
    dsimp only
    rw [stop]
    rfl
  | west =>
    have stop : (if col - depth < 0 then col + 1 else depth) = min depth (col + 1) := by split <;> omega
    dsimp only
    rw [stop]
    rfl
  | south =>
    have stop : (if row + depth > rows then rows - row else depth) = min depth (rows - row) := by split <;> omega
    dsimp only
    rw [stop]
    rfl
  | east =>
    have stop : (if col + depth > cols then cols - col else depth) = min depth (cols - col) := by split <;> omega
    dsimp only
    rw [stop]
    rfl

/-- From a flanked location the view is filled with the patch ahead, and the maze is left as it is. -/
theorem mazeGetView_patch (flanked : Flanked rows cols d p) (view : View) (depth : Int) :
    (mazeGetView rows cols view p.1 p.2 d.code depth).Ends cellMachine s fun result t =>
      t = s ∧ result.1 = viewReach rows cols d p depth ∧ Patch s.cells d p view result.1 result.2 := by
  rw [mazeGetView_code]
  refine Program.Ends.bind (patchLoop_ends flanked (min_le_right _ _)) ?_
  intro filled t holds
  exact Program.Ends.pure ⟨holds.1, rfl, holds.2⟩

theorem mazeGetView_ends {row col : Int} (inner : Inner rows cols (row, col)) (view : View) (gaze depth : Int) :
    (mazeGetView rows cols view row col gaze depth).Ends cellMachine s fun _ t => t = s := by
  by_cases known : ∃ d : Direction, gaze = d.code
  · obtain ⟨d, rfl⟩ := known
    exact (mazeGetView_patch (inner.flanked d) view depth).mono fun _ _ holds => holds.1
  · have other : ∀ d : Direction, gaze ≠ d.code := fun d same => known ⟨d, same⟩
    unfold mazeGetView
    rw [if_neg (other _), if_neg (other _), if_neg (other _), if_neg (other _)]
    exact Program.Ends.pure rfl

/-! ### The specification -/

/-- The returned depth is the least of the depth asked for, `VIEW_DEPTH` and the distance to the
boundary, and the rows below it are the cells reached by that many steps and then a step to the
left, none, or one to the right. -/
theorem mazeGetView_exact {row col : Int} (inner : Inner rows cols (row, col)) (d : Direction)
    (depth : Int) (view : View) (s : MazeState rows cols) :
    ∃ reached filled, (mazeGetView rows cols view row col d.code depth).run cellMachine s =
        some ((reached, filled), s) ∧
      reached = min depth (min viewDepth (d.room rows cols (row, col))) ∧
      (∀ i : Nat, i < reached →
        s.cells.get? (d.turnLeft.next (d.next^[i] (row, col))) = some (filled i leftWall) ∧
        s.cells.get? (d.next^[i] (row, col)) = some (filled i corridor) ∧
        s.cells.get? (d.turnRight.next (d.next^[i] (row, col))) = some (filled i rightWall)) ∧
      ∀ i j, ¬ (0 ≤ i ∧ i < reached) → filled i j = view i j := by
  obtain ⟨⟨reached, filled⟩, t, ran, rfl, reach, patch⟩ :=
    mazeGetView_patch (s := s) (inner.flanked d) view depth
  refine ⟨reached, filled, ran, ?_, ?_, ?_⟩
  · rw [← min_assoc]
    exact reach
  · intro i below
    rw [Direction.iterate_next]
    exact ⟨patch.left i (Int.natCast_nonneg i) below, patch.middle i (Int.natCast_nonneg i) below,
      patch.right i (Int.natCast_nonneg i) below⟩
  · exact patch.rest

/-- `A` and `B` at the ends of a corridor. -/
def hall : Maze 3 6 := fun p =>
  if p.1 = (1, 1) then 65 else if p.1 = (1, 4) then 66 else if p.1.1 = 1 ∧ p.1.2 ∈ [2, 3] then empty else 42

theorem hall_inner : Inner 3 6 (1, 1) := ⟨by decide, by decide, by decide, by decide⟩

theorem mazeGetView_exact_hall : ∃ filled : View,
    (mazeGetView 3 6 (fun _ _ => 0) 1 1 Direction.east.code 16).run cellMachine ⟨hall, 1⟩ =
      some ((5, filled), ⟨hall, 1⟩) ∧
    filled 0 corridor = 65 ∧ filled 3 corridor = 66 ∧ filled 4 leftWall = 42 ∧ filled 5 corridor = 0 := by
  obtain ⟨reached, filled, ran, reach, shown, rest⟩ :=
    mazeGetView_exact hall_inner .east 16 (fun _ _ => 0) ⟨hall, 1⟩
  obtain rfl : reached = 5 := reach
  refine ⟨filled, ran, ?_, ?_, ?_, rest 5 _ (by decide)⟩
  · exact Option.some.inj ((shown 0 (by decide)).2.1.symm.trans (by decide))
  · exact Option.some.inj ((shown 3 (by decide)).2.1.symm.trans (by decide))
  · exact Option.some.inj ((shown 4 (by decide)).1.symm.trans (by decide))

/-! ### The boundary -/

theorem viewReach_pos (inside : InMaze rows cols p) (deep : 1 ≤ depth) : 1 ≤ viewReach rows cols d p depth := by
  have here : 0 < d.room rows cols p := by
    rw [← Direction.ahead_inMaze_iff inside (le_refl 0), Direction.ahead_zero]
    exact inside
  unfold viewReach viewDepth
  omega

/-- The first row of a view is read, whatever the depth. -/
theorem viewAlong_touches (view : View) (some : 1 ≤ viewReach rows cols d p depth) :
    d.turnLeft.next (d.ahead 0 p) ∈ touched (viewAlong rows cols view d p depth) s ∧
      (InMaze rows cols (d.turnLeft.next (d.ahead 0 p)) → InMaze rows cols (d.ahead 0 p) →
        d.turnRight.next (d.ahead 0 p) ∈ touched (viewAlong rows cols view d p depth) s) := by
  obtain ⟨n, rounds⟩ : ∃ n, (viewReach rows cols d p depth - 0).toNat = n + 1 :=
    ⟨(viewReach rows cols d p depth - 0).toNat - 1, by omega⟩
  unfold viewAlong Program.forUp
  dsimp only
  rw [rounds]
  simp only [Program.loop, patchRow, viewRow, cell, Program.perform_bind, Program.call_bind]
  refine ⟨mem_touched_load _, fun left inside => ?_⟩
  obtain ⟨l, leftPresent⟩ := Memory.exists_get? (m := s.cells) left
  obtain ⟨o, present⟩ := Memory.exists_get? (m := s.cells) inside
  rw [touched_load leftPresent, touched_load present]
  exact List.mem_cons_of_mem _ (List.mem_cons_of_mem _ (mem_touched_load _))

/-- `maze_get_view` stays in the maze exactly if the origin has a cell on its left and one on its right. -/
theorem mazeGetView_inside_iff {row col : Int} (inside : InMaze rows cols (row, col)) (d : Direction)
    (deep : 1 ≤ depth) (view : View) (s : MazeState rows cols) :
    (∀ b ∈ touched (mazeGetView rows cols view row col d.code depth) s, InMaze rows cols b) ↔
      InMaze rows cols (d.turnLeft.next (row, col)) ∧ InMaze rows cols (d.turnRight.next (row, col)) := by
  constructor
  · intro within
    rw [mazeGetView_code] at within
    have touches := viewAlong_touches (s := s) view (viewReach_pos (d := d) inside deep)
    rw [Direction.ahead_zero] at touches
    have left := within _ touches.1
    exact ⟨left, within _ (touches.2 left inside)⟩
  · intro ⟨left, right⟩
    exact (mazeGetView_patch (p := (row, col)) ⟨inside, left, right⟩ view depth).sound.2

/-- The view south along the first column reads column -1. -/
theorem mazeGetView_leaves_maze :
    (0, -1) ∈ touched (mazeGetView 3 6 (fun _ _ => 0) 0 0 Direction.south.code 1) (⟨hall, 1⟩ : MazeState 3 6) ∧
      ¬ InMaze 3 6 (0, -1) := by decide

theorem mazeGetView_inside_edge :
    (0, 3) ∈ touched (mazeGetView 3 6 (fun _ _ => 0) 0 2 Direction.south.code 16) (⟨hall, 1⟩ : MazeState 3 6) ∧
      ∀ b ∈ touched (mazeGetView 3 6 (fun _ _ => 0) 0 2 Direction.south.code 16) (⟨hall, 1⟩ : MazeState 3 6),
        InMaze 3 6 b :=
  ⟨by decide, (mazeGetView_inside_iff (by decide) .south (by decide) _ _).mpr (by decide)⟩

end MazeWar
