import MazeWar.Maze.Model

/-!
# What each maze operation does

One equation or postcondition for each function of `maze.c`, run alone.
-/

namespace MazeWar
open Foundation
variable {rows cols : Nat} {s t : MazeState rows cols} {row col : Int} {avatar : Object}

@[simp] theorem empty_not_avatar : isAvatar empty = false := by decide

theorem avatar_ne_empty {o : Object} (upper : isAvatar o = true) : o ≠ empty := by
  rintro rfl
  simp at upper

theorem wall_ne_empty {o : Object} (wall : isWall o = true) : o ≠ empty := by
  rintro rfl
  revert wall
  decide

theorem wall_not_avatar {o : Object} (wall : isWall o = true) : isAvatar o = false := by
  simp only [isWall, Bool.and_eq_true, Bool.not_eq_true'] at wall
  exact wall.1.1.2

theorem Direction.next_ne (d : Direction) (p : Int × Int) : d.next p ≠ p := by
  obtain ⟨row, col⟩ := p
  intro same
  cases d <;> simp only [Direction.next, Prod.mk.injEq] at same <;> omega

/-! ### Placing and removing -/

theorem mazeSetPlayer_run :
    (mazeSetPlayer avatar row col).run cellMachine s = (s.cells.get? (row, col)).map fun o =>
      if o = empty then (0, { s with cells := s.cells.put (row, col) avatar }) else (-1, s) := by
  cases present : s.cells.get? (row, col) with
  | none => simp [mazeSetPlayer, cell, present]
  | some o =>
    have inside := Memory.mem_of_get? present
    by_cases blank : o = empty <;> simp [mazeSetPlayer, cell, setCell, present, blank, inside]

/-- A placement at (row, col) that returned `result`: it succeeded on a blank cell, or
changed nothing. -/
def Placed (avatar : Object) (s : MazeState rows cols) (result row col : Int) (t : MazeState rows cols) : Prop :=
  (result = 0 ∧ s.cells.get? (row, col) = some empty ∧
    t = { s with cells := s.cells.put (row, col) avatar }) ∨ (result ≠ 0 ∧ t = s)

theorem mazeSetPlayer_placed {result : Int}
    (ran : (mazeSetPlayer avatar row col).run cellMachine s = some (result, t)) :
    Placed avatar s result row col t := by
  rw [mazeSetPlayer_run] at ran
  obtain ⟨o, present, outcome⟩ := Option.map_eq_some_iff.mp ran
  by_cases blank : o = empty
  · rw [if_pos blank] at outcome
    cases outcome
    exact Or.inl ⟨rfl, blank ▸ present, rfl⟩
  · rw [if_neg blank] at outcome
    cases outcome
    exact Or.inr ⟨by decide, rfl⟩

section Random
variable {draw : Nat → Nat} {fuel drawn : Nat} {i isSet x y : Int} {u : MazeState rows cols}

/-- Only the last round of the loop can have placed the avatar. -/
theorem mazeSetPlayerRandomLoop_placed {result : Int × Int × Int} (before : Placed avatar s isSet x y t)
    (ran : (mazeSetPlayerRandomLoop rows cols draw avatar i fuel drawn isSet x y).run cellMachine t =
      some (some result, u)) : Placed avatar s result.1 result.2.1 result.2.2 u := by
  induction fuel generalizing drawn isSet x y t with
  | zero =>
    simp only [mazeSetPlayerRandomLoop, Program.run_pure, Option.some.injEq, Prod.mk.injEq] at ran
    obtain ⟨ended, rfl⟩ := ran
    split at ended
    · cases ended
    · cases ended; exact before
  | succ fuel ih =>
    rw [mazeSetPlayerRandomLoop] at ran
    split at ran
    · rename_i again
      obtain ⟨zero, _⟩ | ⟨_, rfl⟩ := before
      · exact (again.1 zero).elim
      · rw [Program.run_bind] at ran
        obtain ⟨⟨r, v⟩, placed, rest⟩ := Option.bind_eq_some_iff.mp ran
        exact ih (mazeSetPlayer_placed placed) rest
    · cases ran; exact before

theorem mazeSetPlayerRandom_placed {rowp colp : Int} {result : Int × Int × Int}
    (ran : (mazeSetPlayerRandom rows cols draw fuel avatar rowp colp).run cellMachine s =
      some (some result, t)) :
    Placed avatar s result.1 result.2.1 result.2.2 t := by
  rw [mazeSetPlayerRandom, Program.run_bind] at ran
  obtain ⟨⟨ended, u⟩, looped, rest⟩ := Option.bind_eq_some_iff.mp ran
  cases ended with
  | none => simp at rest
  | some final =>
    obtain ⟨isSet, x, y⟩ := final
    have placed := mazeSetPlayerRandomLoop_placed (Or.inr ⟨by decide, rfl⟩) looped
    simp only [Program.run_pure, Option.some.injEq, Prod.mk.injEq] at rest
    obtain ⟨rfl, rfl⟩ := rest
    by_cases zero : isSet = 0
    · rw [if_pos zero]
      simpa only [zero] using placed
    · obtain ⟨same, _⟩ | ⟨_, unchanged⟩ := placed
      · exact (zero same).elim
      · rw [if_neg zero]
        exact Or.inr ⟨by simp, unchanged⟩

theorem mazeSetPlayerRandomLoop_sound (tall : 0 < rows) (wide : 0 < cols) :
    ((mazeSetPlayerRandomLoop rows cols draw avatar i fuel drawn isSet x y).run cellMachine s).isSome := by
  induction fuel generalizing drawn isSet x y s with
  | zero => rfl
  | succ fuel ih =>
    rw [mazeSetPlayerRandomLoop]
    split
    · have low := Nat.mod_lt (draw drawn) tall
      have right := Nat.mod_lt (draw (drawn + 1)) wide
      have inside : InMaze rows cols ((draw drawn % rows : Nat), (draw (drawn + 1) % cols : Nat)) :=
        ⟨by simp only; omega, by simp only; omega, by simp only; omega, by simp only; omega⟩
      obtain ⟨o, present⟩ := Memory.exists_get? (m := s.cells) inside
      rw [Program.run_bind, mazeSetPlayer_run, present]
      exact ih
    · rfl

theorem mazeSetPlayerRandom_sound (tall : 0 < rows) (wide : 0 < cols) {rowp colp : Int} :
    Sound (mazeSetPlayerRandom rows cols draw fuel avatar rowp colp) s := by
  refine sound_of_run ?_
  have returns : ((mazeSetPlayerRandomLoop rows cols draw avatar 0 fuel 0 (-1) 0 0).run cellMachine s).isSome :=
    mazeSetPlayerRandomLoop_sound tall wide
  obtain ⟨⟨ended, t⟩, looped⟩ := Option.isSome_iff_exists.mp returns
  rw [mazeSetPlayerRandom, Program.run_bind, looped]
  cases ended <;> rfl

end Random

theorem mazeRemovePlayer_run (free : 0 < s.sem) :
    (mazeRemovePlayer avatar row col).run cellMachine s = (s.cells.get? (row, col)).map fun o =>
      ((), if o = empty then s else { s with cells := s.cells.put (row, col) empty }) := by
  have restored : s.sem - 1 + 1 = s.sem := by omega
  cases present : s.cells.get? (row, col) with
  | none => simp [mazeRemovePlayer, mutexP, cell, present]
  | some o =>
    have inside := Memory.mem_of_get? present
    by_cases blank : o = empty <;>
      simp [mazeRemovePlayer, mutexP, mutexV, cell, setCell, present, blank, inside, free, restored,
        Program.perform]

/-! ### Moving -/

/-- The branch that the four directions of `maze_move` share. -/
def moveTo (p q : Int × Int) : MazeProgram Int := do
  if (← cell p.1 p.2) ≠ empty then
    if (← cell q.1 q.2) = empty then
      setCell q.1 q.2 (← cell p.1 p.2)
      setCell p.1 p.2 empty
      return 0
  return -1

theorem mazeMove_code (d : Direction) :
    mazeMove row col d.code = moveTo (row, col) (d.next (row, col)) := by
  cases d <;> rfl

theorem moveTo_run {p q : Int × Int} :
    (moveTo p q).run cellMachine s = (s.cells.get? p).bind fun o =>
      if o = empty then some (-1, s) else (s.cells.get? q).map fun target =>
        if target = empty then (0, { s with cells := (s.cells.put q o).put p empty }) else (-1, s) := by
  cases present : s.cells.get? p with
  | none => simp [moveTo, cell, present]
  | some o =>
    have inside := Memory.mem_of_get? present
    by_cases blank : o = empty
    · simp [moveTo, cell, present, blank]
    · cases ahead : s.cells.get? q with
      | none => simp [moveTo, cell, present, blank, ahead]
      | some target =>
        have reached := Memory.mem_of_get? ahead
        by_cases clear : target = empty <;>
          simp [moveTo, cell, setCell, present, blank, ahead, clear, inside, reached, Program.perform]

/-! ### Inner cells -/

/-- A cell with a cell on each of its four sides. -/
def Inner (rows cols : Nat) (p : Int × Int) : Prop :=
  1 ≤ p.1 ∧ p.1 + 1 < rows ∧ 1 ≤ p.2 ∧ p.2 + 1 < cols

theorem Inner.inMaze {p : Int × Int} (inner : Inner rows cols p) : InMaze rows cols p := by
  obtain ⟨above, below, left, right⟩ := inner
  exact ⟨by omega, by omega, by omega, by omega⟩

theorem Inner.next {p : Int × Int} (inner : Inner rows cols p) (d : Direction) :
    InMaze rows cols (d.next p) := by
  obtain ⟨above, below, left, right⟩ := inner
  cases d <;> exact ⟨by simp [Direction.next]; omega, by simp [Direction.next]; omega,
    by simp [Direction.next]; omega, by simp [Direction.next]; omega⟩

end MazeWar
