import MazeWar.Maze.Geometry

/-!
# The search along a direction

`maze_find_target` stops at the first object ahead and reports it if it is an avatar.
It leaves the maze as it is and reads only cells of the maze.
-/

namespace MazeWar
open Foundation
variable {rows cols : Nat} {s t : MazeState rows cols} {row col : Int} {d : Direction} {p : Int × Int}
  {path : Nat → Int × Int} {n : Nat}

/-- What is found on the first `n` cells of a path: nothing if all are blank, and otherwise the
first object when it is an avatar and `EMPTY` when it is not. -/
def Finds (m : Maze rows cols) (path : Nat → Int × Int) (n : Nat) : Option Object → Prop
  | none => ∀ k < n, m.get? (path k) = some empty
  | some target => ∃ k < n, ∃ o, (∀ j < k, m.get? (path j) = some empty) ∧ m.get? (path k) = some o ∧
      o ≠ empty ∧ target = if isAvatar o then o else empty

/-- What a scan leaves behind: the semaphore is released by a hit only. -/
def Scanned (s : MazeState rows cols) (found : Option Object) (t : MazeState rows cols) : Prop :=
  t = if found.isSome then { s with sem := s.sem + 1 } else s

theorem scanCell_ends {o : Object} (present : s.cells.get? (row, col) = some o) :
    (scanCell row col).Ends cellMachine s (Program.Outcome
      (fun found t => o ≠ empty ∧ found = some (if isAvatar o then o else empty) ∧ Scanned s found t)
      fun found t => o = empty ∧ found = none ∧ t = s) := by
  by_cases blank : o = empty
  · exact ⟨.yield none, s, by simp [scanCell, cell, present, blank], blank, rfl, rfl⟩
  · by_cases upper : isAvatar o = true
    · refine ⟨.done (some o), { s with sem := s.sem + 1 }, ?_, blank, ?_, rfl⟩
      · simp [scanCell, cell, mutexV, present, blank, upper]
      · rw [if_pos upper]
    · refine ⟨.done (some empty), { s with sem := s.sem + 1 }, ?_, blank, ?_, rfl⟩
      · simp [scanCell, cell, mutexV, present, blank, upper]
      · rw [if_neg upper]

/-- The scan that the four directions of `maze_find_target` share. -/
def scanAlong (rows cols : Nat) (d : Direction) (p : Int × Int) : MazeProgram (Option Object) :=
  Program.loop (fun k _ => scanCell (d.ahead (k + 1) p).1 (d.ahead (k + 1) p).2) 1
    (d.room rows cols p - 1).toNat 0 none

/-- The cells that the scan visits, in order. -/
def scanned (d : Direction) (p : Int × Int) (k : Nat) : Int × Int := d.ahead (k + 1) p

theorem scanAlong_ends (inside : InMaze rows cols p) :
    (scanAlong rows cols d p).Ends cellMachine s fun found t =>
      Scanned s found t ∧ Finds s.cells (scanned d p) (d.room rows cols p - 1).toNat found := by
  refine Program.Ends.loop
    (fun k found t => found = none ∧ t = s ∧ ∀ j < k, s.cells.get? (scanned d p j) = some empty)
    ⟨rfl, rfl, fun _ none => absurd none (Nat.not_lt_zero _)⟩ ?_ ?_
  · intro k found t bound inv
    obtain ⟨rfl, rfl, before⟩ := inv
    have reached : InMaze rows cols (scanned d p k) :=
      (Direction.ahead_inMaze_iff inside (by omega)).mpr (by omega)
    obtain ⟨o, present⟩ := Memory.exists_get? (m := t.cells) reached
    rw [zero_add, mul_one]
    refine (scanCell_ends present).mono fun step u holds => holds.mono ?_ ?_
    · intro found u hit
      obtain ⟨solid, rfl, released⟩ := hit
      exact ⟨released, k, bound, o, before, present, solid, rfl⟩
    · intro found u missed
      obtain ⟨blank, rfl, rfl⟩ := missed
      refine ⟨rfl, rfl, fun j below => ?_⟩
      rcases Nat.lt_succ_iff_lt_or_eq.mp below with earlier | rfl
      · exact before j earlier
      · rw [present, blank]
  · intro found t inv
    obtain ⟨rfl, rfl, all⟩ := inv
    exact ⟨rfl, all⟩

/-- `maze_find_target` around its scan. -/
def searchWith (scan : MazeProgram (Option Object)) : MazeProgram Object := do
  mutexP
  match ← scan with
  | some target => return target
  | none =>
    mutexV
    return empty

theorem scanAlong_of_loop {body : Int → Option Object → MazeProgram (ForInStep (Option Object))} {start stride : Int}
    {n : Nat} (rounds : n = (d.room rows cols p - 1).toNat)
    (visits : ∀ k, body (start + k * stride) = fun _ => scanCell (d.ahead (k + 1) p).1 (d.ahead (k + 1) p).2) :
    Program.loop body stride n start none = scanAlong rows cols d p := by
  have reindexed := Program.loop_rounds body stride start n 0 none
  rw [Nat.cast_zero, zero_mul, add_zero] at reindexed
  rw [reindexed, funext visits, rounds]
  rfl

theorem scanAlong_none (edge : d.room rows cols p ≤ 1) : scanAlong rows cols d p = pure none := by
  have rounds : (d.room rows cols p - 1).toNat = 0 := by omega
  unfold scanAlong
  rw [rounds]
  rfl

theorem mazeFindTarget_code (inside : InMaze rows cols (row, col)) (d : Direction) :
    mazeFindTarget rows cols row col d.code = searchWith (scanAlong rows cols d (row, col)) := by
  obtain ⟨above, below, left, right⟩ := inside
  simp only at above below left right
  unfold mazeFindTarget
  dsimp only
  cases d with
  | north =>
    by_cases beyond : 1 ≤ row
    · rw [if_pos ⟨rfl, by omega⟩]
      refine congrArg searchWith (scanAlong_of_loop ?_ fun k => ?_)
      · simp only [Direction.room]
        omega
      · have index : row - 1 + k * -1 = row - (k + 1) := by omega
        rw [index]
        rfl
    · rw [scanAlong_none (by simp only [Direction.room]; omega)]
      simp [Direction.code, beyond]
      rfl
  | west =>
    by_cases beyond : 1 ≤ col
    · rw [if_neg (absurd ·.1 (by decide)), if_pos ⟨rfl, by omega⟩]
      refine congrArg searchWith (scanAlong_of_loop ?_ fun k => ?_)
      · simp only [Direction.room]
        omega
      · have index : col - 1 + k * -1 = col - (k + 1) := by omega
        rw [index]
        rfl
    · rw [scanAlong_none (by simp only [Direction.room]; omega)]
      simp [Direction.code, beyond]
      rfl
  | south =>
    rw [if_neg (absurd ·.1 (by decide)), if_neg (absurd ·.1 (by decide)), if_pos ⟨rfl, by omega⟩]
    refine congrArg searchWith (scanAlong_of_loop ?_ fun k => ?_)
    · simp only [Direction.room]
      omega
    · have index : row + 1 + k * 1 = row + (k + 1) := by omega
      rw [index]
      rfl
  | east =>
    rw [if_neg (absurd ·.1 (by decide)), if_neg (absurd ·.1 (by decide)), if_neg (absurd ·.1 (by decide)),
      if_pos ⟨rfl, by omega⟩]
    refine congrArg searchWith (scanAlong_of_loop ?_ fun k => ?_)
    · simp only [Direction.room]
      omega
    · have index : col + 1 + k * 1 = col + (k + 1) := by omega
      rw [index]
      rfl

/-! ### What the search returns -/

theorem searchWith_ends {scan : MazeProgram (Option Object)} {R : Option Object → Prop} (free : 0 < s.sem)
    (ends : scan.Ends cellMachine { s with sem := s.sem - 1 } fun found t =>
      Scanned { s with sem := s.sem - 1 } found t ∧ R found) :
    (searchWith scan).Ends cellMachine s fun target t => t = s ∧ ∃ found, R found ∧ target = found.getD empty := by
  have restored : s.sem - 1 + 1 = s.sem := by omega
  refine Program.Ends.call (if_pos free) ?_
  dsimp only [Program.bind]
  refine Program.Ends.bind ends fun found t holds => ?_
  obtain ⟨rfl, finds⟩ := holds
  cases found with
  | none => exact ⟨empty, s, by simp [mutexV, restored], rfl, none, finds, rfl⟩
  | some target => exact ⟨target, s, by simp [restored], rfl, some target, finds, rfl⟩

theorem mazeFindTarget_finds (free : 0 < s.sem) (inside : InMaze rows cols p) (d : Direction) :
    (mazeFindTarget rows cols p.1 p.2 d.code).Ends cellMachine s fun target t => t = s ∧ ∃ found,
      Finds s.cells (scanned d p) (d.room rows cols p - 1).toNat found ∧ target = found.getD empty := by
  rw [mazeFindTarget_code inside]
  exact searchWith_ends free (scanAlong_ends inside)

theorem mazeFindTarget_ends (free : 0 < s.sem) (inside : InMaze rows cols (row, col)) (dir : Int) :
    (mazeFindTarget rows cols row col dir).Ends cellMachine s fun _ t => t = s := by
  by_cases known : ∃ d : Direction, dir = d.code
  · obtain ⟨d, rfl⟩ := known
    exact (mazeFindTarget_finds free inside d).mono fun _ _ holds => holds.1
  · have other : ∀ d : Direction, dir ≠ d.code := fun d same => known ⟨d, same⟩
    have nothing : mazeFindTarget rows cols row col dir = searchWith (pure none) := by
      unfold mazeFindTarget
      dsimp only
      rw [if_neg (other _ ·.1), if_neg (other _ ·.1), if_neg (other _ ·.1), if_neg (other _ ·.1)]
      rfl
    rw [nothing]
    have scan : (pure none : MazeProgram (Option Object)).Ends cellMachine { s with sem := s.sem - 1 }
        fun found t => Scanned { s with sem := s.sem - 1 } found t ∧ True := Program.Ends.pure ⟨rfl, trivial⟩
    exact (searchWith_ends free scan).mono fun _ _ holds => holds.1

end MazeWar
