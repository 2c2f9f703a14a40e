import MazeWar.Foundation.Frame
import MazeWar.Maze.Motion

/-!
# Independent calls

`maze_set_player`, `maze_remove_player` and `maze_move` depend on and change only the cells they
name, so calls on disjoint cells can be made in any order.
-/

namespace MazeWar
open Foundation
variable {rows cols : Nat} {s : MazeState rows cols} {p q : Int × Int} {row col dir : Int} {avatar : Object}

inductive MazeCall where
  | setPlayer (avatar : Object) (row col : Int)
  | removePlayer (avatar : Object) (row col : Int)
  | move (row col dir : Int)
  deriving DecidableEq, Repr

namespace MazeCall

/-- The call and what it returns; `maze_remove_player` returns nothing. -/
def program : MazeCall → MazeProgram (Option Int)
  | setPlayer avatar row col => do return some (← mazeSetPlayer avatar row col)
  | removePlayer avatar row col => do
    mazeRemovePlayer avatar row col
    return none
  | move row col dir => do return some (← mazeMove row col dir)

def named : MazeCall → Int × Int
  | setPlayer _ row col | removePlayer _ row col | move row col _ => (row, col)

/-- The neighbour that a move names. -/
def IsTarget (q : Int × Int) : MazeCall → Prop
  | setPlayer _ _ _ | removePlayer _ _ _ => False
  | move row col dir => ∃ d : Direction, dir = d.code ∧ q = d.next (row, col)

/-- The named cell, and for a move its neighbour if that is in the maze. -/
def footprint (rows cols : Nat) (call : MazeCall) : Set (Int × Int) :=
  {q | q = call.named ∨ InMaze rows cols q ∧ call.IsTarget q}

@[simp] theorem footprint_setPlayer : (setPlayer avatar row col).footprint rows cols = {(row, col)} := by
  ext q
  simp [footprint, named, IsTarget]

@[simp] theorem footprint_removePlayer : (removePlayer avatar row col).footprint rows cols = {(row, col)} := by
  ext q
  simp [footprint, named, IsTarget]

theorem footprint_move (d : Direction) (inside : InMaze rows cols (d.next (row, col))) :
    (move row col d.code).footprint rows cols = {(row, col), d.next (row, col)} := by
  ext q
  constructor
  · intro member
    rcases member with here | ⟨_, d', code, next⟩
    · exact Or.inl here
    · exact Or.inr (Direction.code_injective code ▸ next)
  · intro member
    rcases member with here | next
    · exact Or.inl here
    · exact Or.inr ⟨next ▸ inside, d, rfl, next⟩

end MazeCall

/-! ### The cells that a call may access -/

theorem mazeSetPlayer_calls {allowed : CellOp (Int × Int) Object → Prop}
    (here : ∀ op, op.address = some (row, col) → allowed op) : (mazeSetPlayer avatar row col).Calls allowed := by
  refine ⟨here _ rfl, fun o => ?_⟩
  show (if o = empty then _ else _ : MazeProgram Int).Calls allowed
  split
  · exact ⟨here _ rfl, fun _ => trivial⟩
  · trivial

theorem moveTo_calls {allowed : CellOp (Int × Int) Object → Prop} (old : ∀ op, op.address = some p → allowed op)
    (new : ∀ op, op.address = some q → allowed op) : (moveTo p q).Calls allowed := by
  refine ⟨old _ rfl, fun o => ?_⟩
  show (if o ≠ empty then _ else _ : MazeProgram Int).Calls allowed
  split
  · refine ⟨new _ rfl, fun target => ?_⟩
    show (if target = empty then _ else _ : MazeProgram Int).Calls allowed
    split
    · exact ⟨old _ rfl, fun _ => ⟨new _ rfl, fun _ => ⟨old _ rfl, fun _ => trivial⟩⟩⟩
    · trivial
  · trivial

theorem mazeMove_calls {allowed : CellOp (Int × Int) Object → Prop}
    (here : ∀ op, op.address = some (row, col) → allowed op)
    (next : ∀ (d : Direction) op, dir = d.code → op.address = some (d.next (row, col)) → allowed op) :
    (mazeMove row col dir).Calls allowed := by
  by_cases known : ∃ d : Direction, dir = d.code
  · obtain ⟨d, rfl⟩ := known
    rw [mazeMove_code]
    exact moveTo_calls here fun op => next d op rfl
  · have unknown : ∀ d : Direction, dir ≠ d.code := fun d same => known ⟨d, same⟩
    unfold mazeMove
    simp only [if_neg (unknown _)]
    refine ⟨here _ rfl, fun o => ?_⟩
    show (if o ≠ empty then _ else _ : MazeProgram Int).Calls allowed
    split <;> trivial

theorem mazeRemovePlayer_calls {allowed : CellOp (Int × Int) Object → Prop}
    (here : ∀ op, op.address = some (row, col) → allowed op) (lock : ∀ op, op.address = none → allowed op) :
    (mazeRemovePlayer avatar row col).Calls allowed := by
  refine ⟨lock _ rfl, fun _ => ⟨here _ rfl, fun o => ?_⟩⟩
  show (if o ≠ empty then _ else _ : MazeProgram Unit).Calls allowed
  split
  · exact ⟨here _ rfl, fun _ => ⟨lock _ rfl, fun _ => trivial⟩⟩
  · exact ⟨lock _ rfl, fun _ => trivial⟩

namespace MazeCall
variable {call : MazeCall}

theorem program_within (call : MazeCall) : Within (InMaze rows cols) (call.footprint rows cols) call.program := by
  have here : ∀ op : CellOp (Int × Int) Object, op.address = some call.named →
      ∀ a ∈ op.address, InMaze rows cols a → a ∈ call.footprint rows cols := by
    intro op place a member inside
    rw [place, Option.mem_some_iff] at member
    exact Or.inl member.symm
  cases call with
  | setPlayer avatar row col => exact (mazeSetPlayer_calls here).bind fun _ => trivial
  | removePlayer avatar row col =>
    refine (mazeRemovePlayer_calls here fun op none a member => ?_).bind fun _ => trivial
    rw [none] at member
    cases member
  | move row col dir =>
    refine (mazeMove_calls here fun d op code place a member inside => ?_).bind fun _ => trivial
    rw [place, Option.mem_some_iff] at member
    exact Or.inr ⟨inside, d, code, member.symm⟩

theorem program_keepsSem (call : MazeCall) : KeepsSem (InMaze rows cols) call.program := by
  have access : ∀ p (op : CellOp (Int × Int) Object), op.address = some p → op.address ≠ none :=
    fun p op place => by rw [place]; exact Option.some_ne_none p
  cases call with
  | setPlayer avatar row col =>
    exact keepsSem_of_calls ((mazeSetPlayer_calls (access _)).bind fun _ => trivial)
  | move row col dir =>
    exact keepsSem_of_calls ((mazeMove_calls (access _) fun d op _ => access _ op).bind fun _ => trivial)
  | removePlayer avatar row col =>
    intro s v t ran
    rw [program, Program.run_bind] at ran
    obtain ⟨⟨_, u⟩, removed, ran⟩ := Option.bind_eq_some_iff.mp ran
    cases ran
    by_cases free : 0 < s.sem
    · rw [mazeRemovePlayer_run free] at removed
      obtain ⟨o, present, outcome⟩ := Option.map_eq_some_iff.mp removed
      cases outcome
      split <;> rfl
    · simp [mazeRemovePlayer, mutexP, free] at removed

/-- The call returns: its cells exist, and the lock it takes is free. -/
theorem program_returns (free : 0 < s.sem) (inside : InMaze rows cols call.named)
    (target : ∀ q, call.IsTarget q → InMaze rows cols q) : (call.program.run cellMachine s).isSome := by
  obtain ⟨o, present⟩ := Memory.exists_get? (m := s.cells) inside
  cases call with
  | setPlayer avatar row col =>
    simp only [named] at present
    rw [program, Program.run_bind, mazeSetPlayer_run, present]
    rfl
  | removePlayer avatar row col =>
    simp only [named] at present
    rw [program, Program.run_bind, mazeRemovePlayer_run free, present]
    rfl
  | move row col dir =>
    simp only [named] at present
    by_cases blank : o = empty
    · rw [program, Program.run_bind, mazeMove_blank (blank ▸ present)]
      rfl
    · by_cases known : ∃ d : Direction, dir = d.code
      · obtain ⟨d, rfl⟩ := known
        obtain ⟨o', ahead⟩ := Memory.exists_get? (m := s.cells) (target (d.next (row, col)) ⟨d, rfl, rfl⟩)
        rw [program, Program.run_bind, mazeMove_ahead present blank ahead]
        rfl
      · rw [program, Program.run_bind, mazeMove_unknown (fun d same => known ⟨d, same⟩) present]
        rfl

end MazeCall

/-- Calls whose footprints are pairwise disjoint have the same outcome in every order: the same
final maze, and the same value for each call. They all return when their cells are in the maze. -/
theorem independent_calls_commute (s : MazeState rows cols) (free : 0 < s.sem) (calls order : List MazeCall)
    (permuted : calls.Perm order)
    (apart : calls.Pairwise fun call other => Disjoint (call.footprint rows cols) (other.footprint rows cols)) :
    Option.Rel (fun outcome outcome' => outcome.1.Perm outcome'.1 ∧ outcome.2 = outcome'.2)
      (runEach MazeCall.program calls s) (runEach MazeCall.program order s) ∧
    ((∀ call ∈ calls, InMaze rows cols call.named ∧ ∀ q, call.IsTarget q → InMaze rows cols q) →
      (runEach MazeCall.program calls s).isSome) := by
  refine ⟨runEach_perm_rel MazeCall.program_within MazeCall.program_keepsSem apart permuted, fun inside => ?_⟩
  refine runEach_returns MazeCall.program_keepsSem fun call member t same => ?_
  obtain ⟨here, next⟩ := inside call member
  exact MazeCall.program_returns (same ▸ free) here next

/-- A removal, a placement and a move in three corners of open ground. -/
def errands : List MazeCall := [.removePlayer 65 0 1, .setPlayer 66 4 0, .move 4 1 Direction.south.code]

theorem independent_calls_commute_errands : ∃ log log' t,
    runEach MazeCall.program errands (⟨openGround, 1⟩ : MazeState 8 3) = some (log, t) ∧
    runEach MazeCall.program errands.reverse (⟨openGround, 1⟩ : MazeState 8 3) = some (log', t) ∧ log.Perm log' := by
  have inside : InMaze 8 3 (Direction.south.next (4, 1)) := by decide
  have apart : errands.Pairwise fun call other => Disjoint (call.footprint 8 3) (other.footprint 8 3) := by
    simp [errands, MazeCall.footprint_move _ inside, Direction.next]
  obtain ⟨same, returns⟩ := independent_calls_commute (⟨openGround, 1⟩ : MazeState 8 3) (by decide) errands
    errands.reverse errands.reverse_perm.symm apart
  have cells : ∀ call ∈ errands, InMaze 8 3 call.named ∧ ∀ q, call.IsTarget q → InMaze 8 3 q := by
    simp only [errands, List.forall_mem_cons]
    refine ⟨⟨by decide, fun q => False.elim⟩, ⟨by decide, fun q => False.elim⟩, ⟨by decide, ?_⟩, by simp⟩
    intro q target
    obtain ⟨d, code, rfl⟩ := target
    exact Direction.code_injective code ▸ inside
  obtain ⟨⟨log, t⟩, ran⟩ := Option.isSome_iff_exists.mp (returns cells)
  rw [ran] at same
  cases reversed : runEach MazeCall.program errands.reverse (⟨openGround, 1⟩ : MazeState 8 3) with
  | none =>
    rw [reversed] at same
    cases same
  | some outcome' =>
    rw [reversed] at same
    cases same with
    | some related =>
      obtain ⟨log', t'⟩ := outcome'
      obtain ⟨reordered, final⟩ := related
      obtain rfl : t = t' := final
      exact ⟨log, log', t, ran, rfl, reordered⟩

end MazeWar
