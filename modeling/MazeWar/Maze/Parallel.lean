import MazeWar.Foundation.Parallel
import MazeWar.Maze.Exclusion

/-!
# Threads that keep out of each other's way

`maze_set_player`, `maze_move` and `maze_get_view` never take the semaphore. Threads that do not store to
a cell that another accesses do not need it.
-/

namespace MazeWar
open Foundation
variable {rows cols : Nat}

/-- If no thread, run alone, stores to a cell that another one, run alone, accesses, then in every interleaving a
thread that has ended has returned what it returns alone; and when all have ended, their results and the maze are
those of one thread after another, in any order. -/
theorem race_free_calls_serial {ι : Type} [DecidableEq ι] (start : Maze rows cols) {calls : ι → List MazeFunction}
    (raceFree : RaceFree ⟨start, 1⟩ fun i => MazeFunction.all rows cols (calls i)) {schedule : List ι}
    {pool : Pool ι (CellOp (Int × Int) Object) CellOp.Res (List MazeValue) (MazeState rows cols)}
    (ran : runs (Pool.step cellMachine) (mazeThreads start calls) schedule = some pool) :
    (∀ i values, pool.left i = .done values →
      ∃ own, (MazeFunction.all rows cols (calls i)).run cellMachine ⟨start, 1⟩ = some (values, own)) ∧
    ∀ values : ι → List MazeValue, (∀ i, pool.left i = .done (values i)) → ∀ order : List ι, order.Nodup → (∀ i, i ∈ order) →
      runEach (fun i => MazeFunction.all rows cols (calls i)) order ⟨start, 1⟩ =
        some (order.map fun i => (i, values i), pool.shared) := by
  have balanced : ∀ i, Balanced CellOp.role false (MazeFunction.all rows cols (calls i)) :=
    fun i => MazeFunction.all_balanced (calls i)
  refine ⟨fun i values ended => ?_, fun values ended order nodup complete => ?_⟩
  · obtain ⟨own, alone, _⟩ := (Pool.separate_of_runs raceFree balanced rfl ran).ended ended
    exact ⟨own, alone⟩
  · exact Pool.serial_of_raceFree raceFree balanced rfl ran ended nodup complete

/-- `A` steps into the hall from one end, and `B` from the other, where it is removed. -/
def bothEnds : Bool → List MazeFunction
  | false => [.move 1 1 Direction.east.code]
  | true => [.move 1 4 Direction.west.code, .removePlayer 66 1 3]

theorem race_free_calls_serial_bothEnds : ∃ (pool : Pool Bool _ _ _ _) (values : Bool → List MazeValue),
    runs (Pool.step cellMachine) (mazeThreads hall bothEnds)
      [false, true, true, false, false, true, true, false, true, true, false, true, true, true] = some pool ∧
    runEach (fun i => MazeFunction.all 3 6 (bothEnds i)) [false, true] ⟨hall, 1⟩ =
      some ([(false, values false), (true, values true)], pool.shared) ∧
    runEach (fun i => MazeFunction.all 3 6 (bothEnds i)) [true, false] ⟨hall, 1⟩ =
      some ([(true, values true), (false, values false)], pool.shared) := by
  have raceFree : RaceFree ⟨hall, 1⟩ fun i => MazeFunction.all 3 6 (bothEnds i) := by
    unfold RaceFree
    decide
  let values : Bool → List MazeValue
    | false => [.code 0]
    | true => [.code 0, .nothing]
  obtain ⟨pool, ran, ended⟩ : ∃ pool,
      runs (Pool.step cellMachine) (mazeThreads hall bothEnds)
        [false, true, true, false, false, true, true, false, true, true, false, true, true, true] = some pool ∧
      ∀ i, pool.left i = .done (values i) := by
    refine ⟨_, rfl, fun i => ?_⟩
    cases i <;> rfl
  obtain ⟨_, serial⟩ := race_free_calls_serial hall raceFree ran
  exact ⟨pool, values, ran, serial values ended [false, true] (by decide) (by decide),
    serial values ended [true, false] (by decide) (by decide)⟩

end MazeWar
