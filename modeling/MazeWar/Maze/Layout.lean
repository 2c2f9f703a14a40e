import MazeWar.Foundation.RowThreads
import MazeWar.Maze.Model

/-!
# The maze in memory

`maze_init` allocates a block for each row and a table of pointers to them, and `maze_fini` frees them. In
between the functions of the maze work on the blocks as on a rectangle of cells.
-/

namespace MazeWar
open Foundation

/-- The blocks that `maze_init` allocates, when it has set the counts. -/
def allocateMaze (theRow theCol : Int) : RowProgram Object Nat := allocateRows theRow theCol

/-- `the_maze` and `maze_get_rows()` are given. -/
def mazeFini (theMaze : Nat) (theRow : Int) : RowProgram Object Unit := freeRows theMaze theRow

/-- `the_maze`, after it has been allocated, used and freed, and what its use has returned. -/
def mazeLifetime {α : Type} (theRow theCol : Int) (program : MazeProgram α) : RowProgram Object (Nat × α) := do
  let theMaze ← allocateMaze theRow theCol
  let value ← program.lower (rowCode theMaze)
  mazeFini theMaze theRow
  return (theMaze, value)

/-- Whatever the allocator and the blocks that are there, some rectangle of cells stands for the blocks of the maze:
what is done between `maze_init` and `maze_fini` has the results that it has on the rectangle, or none as there,
and the blocks are left as they were before. An access to the maze after `maze_fini` has no result. -/
theorem maze_laid_out (malloc : RowAllocator Object) (blocks : Extents Object) (sem rows cols : Nat) :
    ∃ theMaze, ∃ start : Maze rows cols, ∀ (α : Type) (program : MazeProgram α),
      (mazeLifetime rows cols program).run (rowMachine malloc) ⟨blocks, sem⟩ =
        ((program.run cellMachine ⟨start, sem⟩).map fun answer => ((theMaze, answer.1), ⟨blocks, answer.2.sem⟩)) ∧
      ∀ op : CellOp (Int × Int) Object, op.address.isSome →
        (mazeLifetime rows cols program >>= fun ended => rowCode ended.1 op).run (rowMachine malloc) ⟨blocks, sem⟩ =
          none := by
  obtain ⟨theMaze, start, new, used⟩ := rows_lifetime malloc blocks sem rows cols fun p => Iff.rfl
  refine ⟨theMaze, start, fun α program => ?_⟩
  have ended : (mazeLifetime rows cols program).run (rowMachine malloc) ⟨blocks, sem⟩ =
      (program.run cellMachine ⟨start, sem⟩).map fun answer => ((theMaze, answer.1), ⟨blocks, answer.2.sem⟩) := by
    rw [Option.map_eq_bind]
    exact used α (Nat × α) program fun theMaze value => pure (theMaze, value)
  refine ⟨ended, fun op accesses => ?_⟩
  rw [Program.run_bind, ended]
  cases program.run cellMachine ⟨start, sem⟩ with
  | none => rfl
  | some answer => exact rowCode_freed new accesses

/-- The threads that use the maze, when `maze_init` has allocated it. -/
def blockThreads {ι α : Type} (theMaze : Nat) (programs : ι → MazeProgram α) (s : RowState Object) :
    Pool ι (RowOp Object) RowOp.Res α (RowState Object) where
  left i := (programs i).lower (rowCode theMaze)
  shared := s

/-- On the blocks an access takes a load of the row and an access to it, which other threads may come between.
Every run of threads is yet a run on the rectangle, in which the accesses are made at once, in the order in which
they are completed: a thread that ends has the result that it has there, one that cannot go on cannot there, and
`maze_fini` leaves the blocks that there were before. -/
theorem maze_threads_laid_out (malloc : RowAllocator Object) (blocks : Extents Object) (sem rows cols : Nat) :
    ∃ theMaze s, ∃ start : Maze rows cols,
      (allocateMaze rows cols).run (rowMachine malloc) ⟨blocks, sem⟩ = some (theMaze, s) ∧
      ∀ (ι α : Type) [DecidableEq ι] (programs : ι → MazeProgram α) (schedule : List ι)
        (t : Pool ι (RowOp Object) RowOp.Res α (RowState Object)),
        runs (Pool.step (rowMachine malloc)) (blockThreads theMaze programs s) schedule = some t →
        ∃ order flat, order.Sublist schedule ∧
          runs (Pool.step cellMachine) ⟨programs, (⟨start, sem⟩ : MazeState rows cols)⟩ order = some flat ∧
          (∀ i value, t.left i = .done value → flat.left i = .done value) ∧
          (∀ i, t.step (rowMachine malloc) i = none → flat.step cellMachine i = none) ∧
          (mazeFini theMaze rows).run (rowMachine malloc) t.shared = some ((), ⟨blocks, t.shared.sem⟩) := by
  obtain ⟨theMaze, s, allocated, addresses, inv⟩ := allocateRows_ends malloc blocks sem rows cols
  obtain ⟨start, out⟩ := inv.laysOut fun p => (Iff.rfl : InMaze rows cols p ↔ _)
  refine ⟨theMaze, s, start, allocated, fun ι α _ programs schedule t ran => ?_⟩
  have begins : Carried blocks theMaze addresses ⟨programs, ⟨start, sem⟩⟩ (blockThreads theMaze programs s) :=
    ⟨out, inv.sem, fun i => .whole (programs i)⟩
  obtain ⟨order, flat, part, reached, carried⟩ := carried_runs begins ran
  refine ⟨order, flat, part, reached, fun i value => carried.ended, fun i => carried.stuck, ?_⟩
  have freed : (freeRows theMaze addresses.length).run (rowMachine malloc) t.shared = _ :=
    freeRows_run carried.out.toHolds
  rwa [inv.count] at freed

end MazeWar
