import MazeWar.Foundation.Locking
import MazeWar.Maze.Independence
import MazeWar.Maze.Search
import MazeWar.Maze.View

/-!
# Threads and the lock of the maze

Threads call the functions of the maze module in any order, one cell access or semaphore operation at
a time. Searches and removals exclude each other, and no thread is kept from going on for ever.
-/

namespace MazeWar
open Foundation
variable {rows cols : Nat} {p : Int × Int} {row col dir gaze depth : Int} {avatar : Object} {view : View} {d : Direction}

/-- The functions of the maze module that threads call, but for `maze_set_player_random`, which need
not return. -/
inductive MazeFunction where
  | setPlayer (avatar : Object) (row col : Int)
  | removePlayer (avatar : Object) (row col : Int)
  | move (row col dir : Int)
  | findTarget (row col dir : Int)
  | getView (view : View) (row col gaze depth : Int)

inductive MazeValue where
  | code (result : Int)
  | target (object : Object)
  | shown (depth : Int) (view : View)
  | nothing

namespace MazeFunction

def program (rows cols : Nat) : MazeFunction → MazeProgram MazeValue
  | setPlayer avatar row col => do return .code (← mazeSetPlayer avatar row col)
  | removePlayer avatar row col => do
    mazeRemovePlayer avatar row col
    return .nothing
  | move row col dir => do return .code (← mazeMove row col dir)
  | findTarget row col dir => do return .target (← mazeFindTarget rows cols row col dir)
  | getView view row col gaze depth => do
    let (depth, view) ← mazeGetView rows cols view row col gaze depth
    return .shown depth view

/-- The cells that the function may access are in the maze. -/
def InBounds (rows cols : Nat) : MazeFunction → Prop
  | setPlayer _ row col | removePlayer _ row col | findTarget row col _ => InMaze rows cols (row, col)
  | move row col dir =>
    InMaze rows cols (row, col) ∧ ∀ d : Direction, dir = d.code → InMaze rows cols (d.next (row, col))
  | getView _ row col gaze _ => ∀ d : Direction, gaze = d.code → Flanked rows cols d (row, col)

def all (rows cols : Nat) : List MazeFunction → MazeProgram (List MazeValue)
  | [] => pure []
  | f :: rest => do
    let value ← f.program rows cols
    let values ← all rows cols rest
    return value :: values

end MazeFunction

/-! ### Every function takes the lock and gives it back -/

theorem role_of_address {op : CellOp (Int × Int) Object} (place : op.address ≠ none) : op.role = .other := by
  cases op with
  | load a | store a o => rfl
  | wait | post => exact absurd rfl place

theorem accesses_balanced {α : Type} {program : MazeProgram α} (accesses : program.Calls fun op => op.address ≠ none) :
    Balanced CellOp.role false program :=
  disciplined_of_calls (accesses.mono fun _ => role_of_address)

theorem mazeRemovePlayer_balanced : Balanced CellOp.role false (mazeRemovePlayer avatar row col) := by
  refine ⟨rfl, fun _ o => ?_⟩
  show Balanced CellOp.role true (if o ≠ empty then _ else _ : MazeProgram Unit)
  split
  · exact fun _ => ⟨rfl, fun _ => rfl⟩
  · exact ⟨rfl, fun _ => rfl⟩

/-- A round of the search that finds something releases the semaphore, and one that does not keeps it. -/
theorem scanCell_disciplined : Disciplined CellOp.role
    (AfterRound true (fun b found => b = found.isNone) fun found => found = none) true (scanCell row col) := by
  intro o
  show Disciplined CellOp.role _ true (if o ≠ empty then _ else _ : MazeProgram _)
  split
  · intro again
    show Disciplined CellOp.role _ true (if isAvatar again = true then _ else _ : MazeProgram _)
    split
    · exact ⟨rfl, fun _ _ => rfl⟩
    · exact ⟨rfl, fun _ => rfl⟩
  · exact ⟨rfl, rfl⟩

theorem searchWith_balanced {scan : MazeProgram (Option Object)}
    (scans : Disciplined CellOp.role (fun b found => b = found.isNone) true scan) :
    Balanced CellOp.role false (searchWith scan) := by
  refine ⟨rfl, fun _ => scans.bind fun b found holds => ?_⟩
  obtain rfl := holds
  cases found with
  | none => exact ⟨rfl, fun _ => rfl⟩
  | some target => rfl

theorem mazeFindTarget_balanced : Balanced CellOp.role false (mazeFindTarget rows cols row col dir) := by
  have scans : ∀ (cells : Int → Int × Int) stride n start, Disciplined CellOp.role (fun b found => b = found.isNone) true
      (Program.loop (fun i _ => scanCell (cells i).1 (cells i).2) stride n start none) := by
    intro cells stride n start
    refine Disciplined.loop (I := fun found => found = none) (fun i _ _ => scanCell_disciplined) ?_ stride n start rfl
    rintro _ rfl
    rfl
  unfold mazeFindTarget
  dsimp only
  split_ifs
  · exact searchWith_balanced (scans (fun i => (i, col)) _ _ _)
  · exact searchWith_balanced (scans (fun i => (row, i)) _ _ _)
  · exact searchWith_balanced (scans (fun i => (i, col)) _ _ _)
  · exact searchWith_balanced (scans (fun i => (row, i)) _ _ _)
  · exact searchWith_balanced rfl

theorem viewRow_calls {allowed : CellOp (Int × Int) Object → Prop} {i : Int} {left middle right : Int × Int}
    (cells : ∀ op, op.address = some left ∨ op.address = some middle ∨ op.address = some right → allowed op) :
    (viewRow view i left middle right).Calls allowed :=
  ⟨cells _ (.inl rfl), fun _ => ⟨cells _ (.inr (.inl rfl)), fun _ => ⟨cells _ (.inr (.inr rfl)), fun _ => trivial⟩⟩⟩

theorem mazeGetView_unknown (unknown : ∀ d : Direction, gaze ≠ d.code) :
    mazeGetView rows cols view row col gaze depth = pure (-1, view) := by
  unfold mazeGetView
  rw [if_neg (unknown _), if_neg (unknown _), if_neg (unknown _), if_neg (unknown _)]

/-- The view is read from cells that are `flanked`. -/
theorem mazeGetView_calls {allowed : CellOp (Int × Int) Object → Prop}
    (cells : ∀ d : Direction, gaze = d.code → ∀ i, 0 ≤ i → i < d.room rows cols (row, col) → ∀ op : CellOp (Int × Int) Object,
      op.address = some (d.turnLeft.next (d.ahead i (row, col))) ∨ op.address = some (d.ahead i (row, col)) ∨
        op.address = some (d.turnRight.next (d.ahead i (row, col))) → allowed op) :
    (mazeGetView rows cols view row col gaze depth).Calls allowed := by
  by_cases known : ∃ d : Direction, gaze = d.code
  · obtain ⟨d, rfl⟩ := known
    rw [mazeGetView_code]
    refine Program.Calls.bind (Program.Calls.rounds (fun k below view => ?_) view) fun _ => trivial
    have near : viewReach rows cols d (row, col) depth ≤ d.room rows cols (row, col) := min_le_right _ _
    exact viewRow_calls (cells d rfl _ (by omega) (by omega))
  · rw [mazeGetView_unknown fun d same => known ⟨d, same⟩]
    trivial

theorem MazeFunction.balanced (f : MazeFunction) : Balanced CellOp.role false (f.program rows cols) := by
  have access : ∀ {q : Int × Int} (op : CellOp (Int × Int) Object), op.address = some q → op.address ≠ none :=
    fun op place => by rw [place]; exact Option.some_ne_none _
  cases f with
  | setPlayer avatar row col => exact (accesses_balanced (mazeSetPlayer_calls access)).bind fun _ => rfl
  | removePlayer avatar row col => exact mazeRemovePlayer_balanced.bind fun _ => rfl
  | move row col dir =>
    exact (accesses_balanced (mazeMove_calls access fun d op _ => access op)).bind fun _ => rfl
  | findTarget row col dir => exact mazeFindTarget_balanced.bind fun _ => rfl
  | getView view row col gaze depth =>
    refine (accesses_balanced (mazeGetView_calls fun d _ i _ _ op place => ?_)).bind fun _ => rfl
    rcases place with left | middle | right
    · exact access op left
    · exact access op middle
    · exact access op right

theorem MazeFunction.all_balanced (fs : List MazeFunction) : Balanced CellOp.role false (all rows cols fs) := by
  induction fs with
  | nil => rfl
  | cons f rest ih => exact f.balanced.bind fun _ => ih.bind fun _ => rfl

/-! ### Every function stays in the maze -/

/-- The operation does not access a cell outside the maze. -/
def Inside (rows cols : Nat) (op : CellOp (Int × Int) Object) : Prop := ∀ a ∈ op.address, InMaze rows cols a

theorem inside_of_address {q : Int × Int} {op : CellOp (Int × Int) Object} (place : op.address = some q)
    (inside : InMaze rows cols q) : Inside rows cols op := by
  intro a member
  rw [place, Option.mem_some_iff] at member
  exact member ▸ inside

theorem inside_of_semaphore {op : CellOp (Int × Int) Object} (none : op.address = none) : Inside rows cols op := by
  intro a member
  rw [none] at member
  cases member

theorem scanCell_inside (inside : InMaze rows cols (row, col)) : (scanCell row col).Calls (Inside rows cols) := by
  have access : Inside rows cols (.load (row, col)) := inside_of_address rfl inside
  have release : Inside rows cols .post := inside_of_semaphore rfl
  refine ⟨access, fun o => ?_⟩
  show (if o ≠ empty then _ else _ : MazeProgram _).Calls (Inside rows cols)
  split
  · refine ⟨access, fun again => ?_⟩
    show (if isAvatar again = true then _ else _ : MazeProgram _).Calls (Inside rows cols)
    split
    · exact ⟨release, fun _ => ⟨access, fun _ => trivial⟩⟩
    · exact ⟨release, fun _ => trivial⟩
  · trivial

theorem searchWith_inside {scan : MazeProgram (Option Object)} (inside : scan.Calls (Inside rows cols)) :
    (searchWith scan).Calls (Inside rows cols) := by
  refine ⟨inside_of_semaphore rfl, fun _ => inside.bind fun found => ?_⟩
  cases found with
  | none => exact ⟨inside_of_semaphore rfl, fun _ => trivial⟩
  | some target => trivial

theorem mazeFindTarget_unknown (unknown : ∀ d : Direction, dir ≠ d.code) :
    mazeFindTarget rows cols row col dir = searchWith (pure none) := by
  unfold mazeFindTarget
  dsimp only
  rw [if_neg (unknown _ ·.1), if_neg (unknown _ ·.1), if_neg (unknown _ ·.1), if_neg (unknown _ ·.1)]
  rfl

theorem mazeFindTarget_inside (inside : InMaze rows cols (row, col)) (dir : Int) :
    (mazeFindTarget rows cols row col dir).Calls (Inside rows cols) := by
  by_cases known : ∃ d : Direction, dir = d.code
  · obtain ⟨d, rfl⟩ := known
    rw [mazeFindTarget_code inside]
    refine searchWith_inside (Program.Calls.rounds (fun k below _ => scanCell_inside ?_) none)
    exact (Direction.ahead_inMaze_iff inside (by omega)).mpr (by omega)
  · rw [mazeFindTarget_unknown fun d same => known ⟨d, same⟩]
    exact searchWith_inside trivial

theorem MazeFunction.program_inside {f : MazeFunction} (inside : f.InBounds rows cols) :
    (f.program rows cols).Calls (Inside rows cols) := by
  cases f with
  | setPlayer avatar row col =>
    exact (mazeSetPlayer_calls fun op place => inside_of_address place inside).bind fun _ => trivial
  | removePlayer avatar row col =>
    exact (mazeRemovePlayer_calls (fun op place => inside_of_address place inside)
      fun op none => inside_of_semaphore none).bind fun _ => trivial
  | move row col dir =>
    exact (mazeMove_calls (fun op place => inside_of_address place inside.1)
      fun d op code place => inside_of_address place (inside.2 d code)).bind fun _ => trivial
  | findTarget row col dir => exact (mazeFindTarget_inside inside dir).bind fun _ => trivial
  | getView view row col gaze depth =>
    refine (mazeGetView_calls fun d code i low high op place => ?_).bind fun _ => trivial
    have flanked := (inside d code).ahead low high
    rcases place with left | middle | right
    · exact inside_of_address left flanked.left
    · exact inside_of_address middle flanked.inside
    · exact inside_of_address right flanked.right

theorem MazeFunction.all_inside {fs : List MazeFunction} (inside : ∀ f ∈ fs, f.InBounds rows cols) :
    (all rows cols fs).Calls (Inside rows cols) := by
  induction fs with
  | nil => trivial
  | cons f rest ih =>
    rw [List.forall_mem_cons] at inside
    exact (program_inside inside.1).bind fun _ => (ih inside.2).bind fun _ => trivial

/-! ### Any number of threads -/

/-- Threads in a maze whose semaphore `maze_init` has set to one. -/
def mazeThreads {ι : Type} (start : Maze rows cols) (calls : ι → List MazeFunction) :
    Pool ι (CellOp (Int × Int) Object) CellOp.Res (List MazeValue) (MazeState rows cols) where
  left i := MazeFunction.all rows cols (calls i)
  shared := ⟨start, 1⟩

/-- In every interleaving of any number of threads that call the functions of the maze module in its
bounds, at most one thread is in a critical section and the semaphore is zero just then; a thread can go
on as long as one has calls left; and no run is infinite. -/
theorem maze_calls_exclude_and_end {ι : Type} [DecidableEq ι] [Fintype ι] (start : Maze rows cols)
    {calls : ι → List MazeFunction} (inside : ∀ i, ∀ f ∈ calls i, f.InBounds rows cols) {schedule : List ι}
    {pool : Pool ι (CellOp (Int × Int) Object) CellOp.Res (List MazeValue) (MazeState rows cols)}
    (ran : runs (Pool.step cellMachine) (mazeThreads start calls) schedule = some pool) :
    (∀ i j, pool.InSection cellLock i → pool.InSection cellLock j → i = j) ∧
    (pool.shared.sem = 0 ↔ ∃ i, pool.InSection cellLock i) ∧ pool.shared.sem ≤ 1 ∧
    (pool.Finished ∨ ∃ i, (pool.step cellMachine i).isSome) ∧
    ¬ ∃ later : Nat → Pool ι (CellOp (Int × Int) Object) CellOp.Res (List MazeValue) (MazeState rows cols),
      later 0 = pool ∧ ∀ n, ∃ i, (later n).step cellMachine i = some (later (n + 1)) := by
  have results : ∀ op : CellOp (Int × Int) Object, Nonempty op.Res := by
    intro op
    cases op <;> exact ⟨default⟩
  have balanced : ∀ i, Balanced CellOp.role false ((mazeThreads start calls).left i) :=
    fun i => MazeFunction.all_balanced (calls i)
  obtain ⟨holder, held⟩ : ∃ holder, Pool.Held cellLock holder pool := Pool.held_of_runs balanced rfl ran
  have counted : pool.shared.sem = if holder = none then 1 else 0 := held.count
  have within : ∀ i, (pool.left i).Calls (Inside rows cols) :=
    runs_invariant (I := fun pool => ∀ i, (pool.left i).Calls (Inside rows cols))
      (fun _ _ _ within stepped => Pool.calls_step within stepped) (fun i => MazeFunction.all_inside (inside i)) ran
  refine ⟨fun i j first second => ?_, ?_, ?_, held.progress within ?_ ?_, ?_⟩
  · rw [held.inSection_iff] at first second
    exact Option.some.inj (first.symm.trans second)
  · simp only [counted, held.inSection_iff]
    cases holder <;> simp
  · rw [counted]
    split <;> omega
  · intro op s taken free
    cases op with
    | wait => exact Option.isSome_iff_exists.mpr ⟨((), _), cellMachine_wait.mpr ⟨free, rfl⟩⟩
    | load a | store a v | post => cases taken
  · intro op s allowed other
    cases op with
    | load a =>
      obtain ⟨o, present⟩ := Memory.exists_get? (m := s.cells) (allowed a rfl)
      exact Option.isSome_iff_exists.mpr ⟨_, cellMachine_load.mpr ⟨present, rfl⟩⟩
    | store a v => exact Option.isSome_iff_exists.mpr ⟨((), _), cellMachine_store.mpr ⟨allowed a rfl, rfl⟩⟩
    | wait => exact absurd rfl other
    | post => rfl
  · rintro ⟨later, _, steps⟩
    exact (wellFounded_iff_isEmpty_descending_chain.mp (Pool.step_wellFounded cellMachine)).false ⟨later, steps⟩

/-- In the hall `A` looks for a target while `B` is removed: the search holds the semaphore. -/
def huntAndRemoval : Bool → List MazeFunction
  | false => [.findTarget 1 1 Direction.east.code]
  | true => [.removePlayer 66 1 4]

theorem maze_calls_exclude_hall : ∃ pool,
    runs (Pool.step cellMachine) (mazeThreads hall huntAndRemoval) [false, false] = some pool ∧
    (pool.step cellMachine true).isSome = false ∧ (∃! i, pool.InSection cellLock i) ∧
    ∃ i, (pool.step cellMachine i).isSome := by
  have taken : ((runs (Pool.step cellMachine) (mazeThreads hall huntAndRemoval) [false, false]).map fun pool =>
      (pool.shared.sem, (pool.step cellMachine true).isSome, (pool.step cellMachine false).isSome)) =
        some (0, false, true) := by decide
  obtain ⟨pool, ran, fields⟩ := Option.map_eq_some_iff.mp taken
  simp only [Prod.mk.injEq] at fields
  obtain ⟨zero, waits, goes⟩ := fields
  have bounds : ∀ i, ∀ f ∈ huntAndRemoval i, f.InBounds 3 6 := by
    intro i f member
    cases i with
    | false =>
      obtain rfl := List.mem_singleton.mp member
      show InMaze 3 6 (1, 1)
      decide
    | true =>
      obtain rfl := List.mem_singleton.mp member
      show InMaze 3 6 (1, 4)
      decide
  obtain ⟨exclude, section_, _, _, _⟩ := maze_calls_exclude_and_end hall bounds ran
  obtain ⟨i, inside⟩ := section_.mp zero
  exact ⟨pool, ran, waits, ⟨i, inside, fun j other => exclude j i other inside⟩, false, goes⟩

end MazeWar
