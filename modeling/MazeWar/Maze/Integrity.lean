import MazeWar.Foundation.Runs
import MazeWar.Maze.Motion
import MazeWar.Maze.View

/-!
# Walls and names

Calls with any coordinates inside the maze and any avatars. `maze_remove_player` does not look at
its avatar and `maze_move` moves whatever it finds, so both can carry off walls.
-/

namespace MazeWar
open Foundation
variable {rows cols : Nat}

namespace Integrity

inductive Action where
  | place (avatar : Object) (row col : Int)
  | placeRandom (avatar : Object) (draw : Nat → Nat) (fuel : Nat) (rowp colp : Int)
  | remove (avatar : Object) (row col : Int)
  | move (row col : Int) (d : Direction)

/-- One call. There is no step for an avatar that is not uppercase, for cells outside the maze,
and for a random placement that has not returned. -/
def step (s : MazeState rows cols) : Action → Option (MazeState rows cols)
  | .place avatar row col =>
    if isAvatar avatar ∧ InMaze rows cols (row, col) then
      ((mazeSetPlayer avatar row col).run cellMachine s).map Prod.snd
    else none
  | .placeRandom avatar draw fuel rowp colp =>
    if isAvatar avatar then
      ((mazeSetPlayerRandom rows cols draw fuel avatar rowp colp).run cellMachine s).bind fun answer =>
        answer.1.map fun _ => answer.2
    else none
  | .remove avatar row col =>
    if isAvatar avatar ∧ InMaze rows cols (row, col) then
      ((mazeRemovePlayer avatar row col).run cellMachine s).map Prod.snd
    else none
  | .move row col d =>
    if InMaze rows cols (row, col) ∧ InMaze rows cols (d.next (row, col)) then
      ((mazeMove row col d.code).run cellMachine s).map Prod.snd
    else none

/-- What is promised of a state and of the call made there: the walls of the start stand, and a
removal that changes the maze finds its avatar. -/
structure Promise (start : Maze rows cols) (s : MazeState rows cols) (next : Option Action) : Prop where
  walls : ∀ p o, isWall o = true → start.get? p = some o → s.cells.get? p = some o
  removed : ∀ avatar row col t, next = some (.remove avatar row col) → step s (.remove avatar row col) = some t →
    t.cells ≠ s.cells → s.cells.get? (row, col) = some avatar

/-- The call names what is there: a removal its avatar or a blank, a move no wall that is free to move. -/
def Careful (s : MazeState rows cols) : Action → Prop
  | .remove avatar row col => s.cells.get? (row, col) = some avatar ∨ s.cells.get? (row, col) = some empty
  | .move row col d =>
    (s.cells.get? (row, col)).any isWall = false ∨ s.cells.get? (d.next (row, col)) ≠ some empty
  | .place _ _ _ | .placeRandom _ _ _ _ _ => True

instance (s : MazeState rows cols) (action : Action) : Decidable (Careful s action) :=
  match action with
  | .remove avatar row col =>
    inferInstanceAs (Decidable (s.cells.get? (row, col) = some avatar ∨ s.cells.get? (row, col) = some empty))
  | .move row col d =>
    inferInstanceAs (Decidable ((s.cells.get? (row, col)).any isWall = false ∨
      s.cells.get? (d.next (row, col)) ≠ some empty))
  | .place _ _ _ | .placeRandom _ _ _ _ _ => .isTrue trivial

/-- The invariant of careful runs: the walls are those of the start, and `mutex` is free. -/
structure Walls (start : Maze rows cols) (s : MazeState rows cols) : Prop where
  same : ∀ p o, isWall o = true → (s.cells.get? p = some o ↔ start.get? p = some o)
  free : s.sem = 1

section Invariant
variable {start : Maze rows cols} {s t : MazeState rows cols} {p : Int × Int} {o v : Object} {action : Action}

theorem wall_of_eq_false {w : Object} (wall : isWall o = true) (plain : isWall w = false) : w ≠ o := by
  rintro rfl
  rw [wall] at plain
  cases plain

theorem avatar_not_wall (upper : isAvatar o = true) : isWall o = false := by
  cases wall : isWall o with
  | false => rfl
  | true =>
    rw [wall_not_avatar wall] at upper
    cases upper

theorem empty_not_wall : isWall empty = false := by decide

/-- Writing something that is no wall over something that is no wall. -/
theorem Walls.put (walls : Walls start s) (present : s.cells.get? p = some o) (plain : isWall o = false)
    (plain' : isWall v = false) : Walls start { s with cells := s.cells.put p v } := by
  refine ⟨fun q w wall => ?_, walls.free⟩
  rw [← walls.same q w wall, Memory.get?_put (Memory.mem_of_get? present)]
  by_cases here : q = p
  · have new : v ≠ w := wall_of_eq_false wall plain'
    have old : o ≠ w := wall_of_eq_false wall plain
    rw [if_pos here, here, present]
    simp [new, old]
  · rw [if_neg here]

theorem Walls.placed {avatar : Object} {result row col : Int} (walls : Walls start s) (upper : isAvatar avatar = true)
    (placed : Placed avatar s result row col t) : Walls start t := by
  obtain ⟨_, blank, rfl⟩ | ⟨_, rfl⟩ := placed
  · exact walls.put blank empty_not_wall (avatar_not_wall upper)
  · exact walls

theorem Walls.movedTo {q : Int × Int} (walls : Walls start s) (different : q ≠ p) (present : s.cells.get? p = some o)
    (plain : isWall o = false) (ahead : s.cells.get? q = some empty) : Walls start (movedTo s p q o) := by
  have arrived := walls.put ahead empty_not_wall plain
  exact arrived.put ((Memory.get?_put_ne different.symm).trans present) plain empty_not_wall

/-! ### What each call can do -/

theorem step_place {avatar : Object} {row col : Int} (stepped : step s (.place avatar row col) = some t) :
    isAvatar avatar = true ∧ ∃ result, Placed avatar s result row col t := by
  obtain ⟨allowed, stepped⟩ := Option.ite_none_right_eq_some.mp stepped
  obtain ⟨⟨result, u⟩, ran, rfl⟩ := Option.map_eq_some_iff.mp stepped
  exact ⟨allowed.1, result, mazeSetPlayer_placed ran⟩

theorem step_placeRandom {avatar : Object} {draw : Nat → Nat} {fuel : Nat} {rowp colp : Int}
    (stepped : step s (.placeRandom avatar draw fuel rowp colp) = some t) :
    isAvatar avatar = true ∧ ∃ result row col, Placed avatar s result row col t := by
  obtain ⟨upper, stepped⟩ := Option.ite_none_right_eq_some.mp stepped
  obtain ⟨⟨ended, u⟩, ran, finished⟩ := Option.bind_eq_some_iff.mp stepped
  obtain ⟨result, rfl, rfl⟩ := Option.map_eq_some_iff.mp finished
  exact ⟨upper, _, _, _, mazeSetPlayerRandom_placed ran⟩

theorem step_remove {avatar : Object} {row col : Int} (free : s.sem = 1)
    (stepped : step s (.remove avatar row col) = some t) :
    isAvatar avatar = true ∧ ∃ o, s.cells.get? (row, col) = some o ∧
      t = if o = empty then s else { s with cells := s.cells.put (row, col) empty } := by
  obtain ⟨allowed, stepped⟩ := Option.ite_none_right_eq_some.mp stepped
  obtain ⟨⟨_, u⟩, ran, rfl⟩ := Option.map_eq_some_iff.mp stepped
  rw [mazeRemovePlayer_run (by rw [free]; decide)] at ran
  obtain ⟨o, present, outcome⟩ := Option.map_eq_some_iff.mp ran
  exact ⟨allowed.1, o, present, (Prod.mk.inj outcome).2.symm⟩

theorem step_move {row col : Int} {d : Direction} (stepped : step s (.move row col d) = some t) :
    ∃ o target, s.cells.get? (row, col) = some o ∧ s.cells.get? (d.next (row, col)) = some target ∧
      t = if o ≠ empty ∧ target = empty then movedTo s (row, col) (d.next (row, col)) o else s := by
  obtain ⟨inside, stepped⟩ := Option.ite_none_right_eq_some.mp stepped
  obtain ⟨o, present⟩ := Memory.exists_get? (m := s.cells) inside.1
  obtain ⟨target, ahead⟩ := Memory.exists_get? (m := s.cells) inside.2
  obtain ⟨⟨result, u⟩, ran, rfl⟩ := Option.map_eq_some_iff.mp stepped
  refine ⟨o, target, present, ahead, ?_⟩
  by_cases blank : o = empty
  · rw [mazeMove_blank (blank ▸ present)] at ran
    cases ran
    rw [if_neg fun possible => possible.1 blank]
  · have moved := mazeMove_ahead present blank ahead
    rw [ran, Option.some.injEq] at moved
    by_cases clear : target = empty
    · rw [if_pos clear] at moved
      rw [if_pos ⟨blank, clear⟩]
      exact (Prod.mk.inj moved).2
    · rw [if_neg clear] at moved
      rw [if_neg fun possible => clear possible.2]
      exact (Prod.mk.inj moved).2

/-! ### Careful runs and the others -/

theorem step_walls (walls : Walls start s) (careful : Careful s action) (stepped : step s action = some t) :
    Walls start t := by
  cases action with
  | place avatar row col =>
    obtain ⟨upper, result, placed⟩ := step_place stepped
    exact walls.placed upper placed
  | placeRandom avatar draw fuel rowp colp =>
    obtain ⟨upper, result, row, col, placed⟩ := step_placeRandom stepped
    exact walls.placed upper placed
  | remove avatar row col =>
    obtain ⟨upper, o, present, rfl⟩ := step_remove walls.free stepped
    split
    · exact walls
    · rename_i solid
      rcases careful with own | blank
      · exact walls.put own (avatar_not_wall upper) empty_not_wall
      · exact absurd (Option.some.inj (present.symm.trans blank)) solid
  | move row col d =>
    obtain ⟨o, target, present, ahead, rfl⟩ := step_move stepped
    split
    · rename_i possible
      rcases careful with plain | blocked
      · rw [present] at plain
        exact walls.movedTo (d.next_ne _) present plain (possible.2 ▸ ahead)
      · exact absurd (possible.2 ▸ ahead) blocked
    · exact walls

theorem careful_promise (walls : Walls start s) (careful : Careful s action) : Promise start s (some action) := by
  refine ⟨fun p o wall present => (walls.same p o wall).mpr present, ?_⟩
  intro avatar row col t next stepped changed
  cases next
  rcases careful with own | blank
  · exact own
  · obtain ⟨_, o, present, rfl⟩ := step_remove walls.free stepped
    rw [if_pos (Option.some.inj (present.symm.trans blank))] at changed
    exact absurd rfl changed

/-- A careless call erases something else than its avatar, or carries off a wall. -/
theorem careless_breaks (walls : Walls start s) (careless : ¬ Careful s action) (stepped : step s action = some t)
    (here : Promise start s (some action)) (next : Option Action) : ¬ Promise start t next := by
  intro after
  cases action with
  | place avatar row col => exact careless trivial
  | placeRandom avatar draw fuel rowp colp => exact careless trivial
  | remove avatar row col =>
    obtain ⟨_, o, present, same⟩ := step_remove walls.free stepped
    simp only [Careful, present, Option.some.injEq, not_or] at careless
    rw [if_neg careless.2] at same
    have changed : t.cells ≠ s.cells := by
      intro unchanged
      have erased := Memory.get?_put_self (m := s.cells) (v := empty) (Memory.mem_of_get? present)
      rw [same] at unchanged
      rw [show s.cells.put (row, col) empty = s.cells from unchanged, present] at erased
      exact careless.2 (Option.some.inj erased)
    have own := here.removed avatar row col t rfl stepped changed
    exact careless.1 (Option.some.inj (present.symm.trans own))
  | move row col d =>
    obtain ⟨o, target, present, ahead, same⟩ := step_move stepped
    simp only [Careful, present, Option.any_some, not_or, Bool.not_eq_false, ne_eq, not_not] at careless
    obtain ⟨wall, clear⟩ := careless
    rw [if_pos ⟨wall_ne_empty wall, Option.some.inj (ahead.symm.trans clear)⟩] at same
    have stands := after.walls _ o wall ((walls.same _ o wall).mp present)
    rw [same, movedTo_old (Memory.mem_of_get? present)] at stands
    exact wall_ne_empty wall (Option.some.inj stands).symm

/-- Over a run of calls, the walls stand and removals find their avatars exactly when every
removal names a cell with its avatar or a blank, and no move names a wall with a blank ahead. -/
theorem walls_and_names_iff (start : Maze rows cols) (actions : List Action) (t : MazeState rows cols)
    (ran : runs step ⟨start, 1⟩ actions = some t) :
    Along step (Promise start) ⟨start, 1⟩ actions ↔ Guarded step Careful ⟨start, 1⟩ actions := by
  refine along_iff_guarded (I := Walls start) (fun _ _ _ walls careful stepped => step_walls walls careful stepped)
    (fun s walls => ?_) (fun _ _ _ walls careful _ => careful_promise walls careful)
    (fun _ _ _ walls careless stepped here next => careless_breaks walls careless stepped here next)
    ⟨fun _ _ _ => Iff.rfl, rfl⟩ ran
  exact ⟨fun p o wall present => (walls.same p o wall).mpr present, fun _ _ _ _ none => by cases none⟩

end Invariant

/-- `A` steps on, is removed where it is, and `C` takes the cell. -/
def carefulCalls : List Action := [.move 1 1 .east, .remove 65 1 2, .remove 65 1 2, .place 67 1 2]

theorem walls_and_names_careful : (runs step ⟨hall, 1⟩ carefulCalls).isSome ∧
    Along step (Promise hall) ⟨hall, 1⟩ carefulCalls := by
  have returns : (runs step ⟨hall, 1⟩ carefulCalls).isSome := by decide
  obtain ⟨t, ran⟩ := Option.isSome_iff_exists.mp returns
  exact ⟨returns, (walls_and_names_iff hall carefulCalls t ran).mpr (by decide)⟩

/-- Removing `A` where it is not: `B` disappears, then a wall. -/
theorem remove_erases : ∃ t u, step ⟨hall, 1⟩ (.remove 65 1 4) = some t ∧ step t (.remove 65 0 0) = some u ∧
    hall.get? (1, 4) = some 66 ∧ t.cells.get? (1, 4) = some empty ∧
    hall.get? (0, 0) = some 42 ∧ u.cells.get? (0, 0) = some empty ∧
    ¬ Along step (Promise hall) ⟨hall, 1⟩ [.remove 65 1 4, .remove 65 0 0] := by
  refine ⟨_, _, rfl, rfl, by decide, by decide, by decide, by decide, fun along => ?_⟩
  have removed := (along [] _ _ rfl rfl).removed 65 1 4 _ rfl rfl
  refine absurd (removed fun same => ?_) (by decide)
  exact absurd (congrArg (fun m : Maze 3 6 => m.get? (1, 4)) same) (by decide)

end Integrity
end MazeWar
