import MazeWar.Maze.Motion
import MazeWar.Maze.Search
import MazeWar.Maze.View

/-!
# One corridor

`maze_get_view`, `maze_find_target` and `maze_move` describe the same cells: the corridor
column of a view is what a search sees and what a move runs into.
-/

namespace MazeWar
open Foundation
variable {rows cols : Nat} {s t : MazeState rows cols} {d : Direction} {p : Int × Int} {o : Object}
  {view filled : View} {stop depth : Int}

theorem Finds.first {m : Maze rows cols} {path : Nat → Int × Int} {n k : Nat} {found : Option Object}
    (finds : Finds m path n found) (bound : k < n) (before : ∀ j < k, m.get? (path j) = some empty)
    (present : m.get? (path k) = some o) (solid : o ≠ empty) :
    found = some (if isAvatar o then o else empty) := by
  cases found with
  | none => exact absurd (Option.some.inj (present.symm.trans (finds k bound))) solid
  | some target =>
    obtain ⟨k', _, o', before', present', solid', rfl⟩ := finds
    have notEarlier : ¬ k' < k := fun earlier =>
      solid' (Option.some.inj (present'.symm.trans (before k' earlier)))
    have notLater : ¬ k < k' := fun later => solid (Option.some.inj (present.symm.trans (before' k later)))
    obtain rfl : k = k' := by omega
    rw [Option.some.inj (present.symm.trans present')]

theorem Finds.nothing {m : Maze rows cols} {path : Nat → Int × Int} {n : Nat} {found : Option Object}
    (finds : Finds m path n found) (clear : ∀ k < n, m.get? (path k) = some empty) : found = none := by
  cases found with
  | none => rfl
  | some target =>
    obtain ⟨k, bound, o, _, present, solid, _⟩ := finds
    exact absurd (Option.some.inj (present.symm.trans (clear k bound))) solid

/-! ### The search seen in the view -/

theorem Patch.ahead {k : Nat} (patch : Patch s.cells d p view stop filled) (below : (k : Int) + 1 < stop) :
    s.cells.get? (scanned d p k) = some (filled (k + 1) corridor) :=
  patch.middle (k + 1) (by omega) below

theorem Patch.finds_first {k : Nat} {found : Option Object} (patch : Patch s.cells d p view stop filled)
    (near : stop ≤ d.room rows cols p)
    (finds : Finds s.cells (scanned d p) (d.room rows cols p - 1).toNat found) (low : 1 ≤ k) (high : k < stop)
    (solid : filled k corridor ≠ empty) (before : ∀ j : Nat, 1 ≤ j → j < k → filled j corridor = empty) :
    found.getD empty = if isAvatar (filled k corridor) then filled k corridor else empty := by
  obtain ⟨k, rfl⟩ : ∃ j, k = j + 1 := ⟨k - 1, by omega⟩
  push_cast at high solid ⊢
  have shown := patch.ahead high
  rw [finds.first (by omega) (fun j earlier => ?_) shown solid]
  · rfl
  · rw [patch.ahead (by omega)]
    exact congrArg some (by exact_mod_cast before (j + 1) (by omega) (by omega))

theorem Patch.finds_nothing {found : Option Object} (patch : Patch s.cells d p view stop filled)
    (far : stop = d.room rows cols p)
    (finds : Finds s.cells (scanned d p) (d.room rows cols p - 1).toNat found)
    (clear : ∀ k : Nat, 1 ≤ k → k < stop → filled k corridor = empty) : found.getD empty = empty := by
  rw [finds.nothing fun k bound => ?_]
  · rfl
  · rw [patch.ahead (by omega)]
    exact congrArg some (by exact_mod_cast clear (k + 1) (by omega) (by push_cast; omega))

/-! ### The view after a move -/

/-- One step on, the view is the old one a row further, with the moved object in front. -/
theorem Patch.shifted {stop' : Int} {view' filled' : View} (patch : Patch s.cells d p view stop filled)
    (moved : Patch (movedTo s p (d.next p) o).cells d (d.next p) view' stop' filled')
    (inside : InMaze rows cols (d.next p)) {i : Nat} (below : (i : Int) + 1 < stop) (reached : (i : Int) < stop') :
    filled' i leftWall = filled (i + 1) leftWall ∧ filled' i rightWall = filled (i + 1) rightWall ∧
      filled' i corridor = if i = 0 then o else filled (i + 1) corridor := by
  have start : d.ahead 0 p = p := d.ahead_zero p
  have second : d.ahead 1 p = d.next p := d.ahead_one p
  have leftOff : ∀ j, d.turnLeft.next (d.ahead (i + 1) p) ≠ d.ahead j p := fun j => d.turnLeft_ahead_ne (i + 1) j p
  have rightOff : ∀ j, d.turnRight.next (d.ahead (i + 1) p) ≠ d.ahead j p := fun j => d.turnRight_ahead_ne (i + 1) j p
  have unchanged : ∀ {r}, (∀ j, r ≠ d.ahead j p) → (movedTo s p (d.next p) o).cells.get? r = s.cells.get? r :=
    fun off => movedTo_other (start ▸ off 0) (second ▸ off 1)
  refine ⟨?_, ?_, ?_⟩
  · have new := moved.left i (by omega) reached
    rw [d.ahead_next, unchanged leftOff, patch.left (i + 1) (by omega) below] at new
    exact (Option.some.inj new).symm
  · have new := moved.right i (by omega) reached
    rw [d.ahead_next, unchanged rightOff, patch.right (i + 1) (by omega) below] at new
    exact (Option.some.inj new).symm
  · have new := moved.middle i (by omega) reached
    by_cases first : i = 0
    · subst first
      rw [Nat.cast_zero, d.ahead_zero, movedTo_new (d.next_ne p) inside] at new
      exact (Option.some.inj new).symm
    · have notOld : d.ahead (i + 1) p ≠ p := by
        intro same
        have index := Direction.ahead_inj.mp (same.trans start.symm)
        omega
      have notNew : d.ahead (i + 1) p ≠ d.next p := by
        intro same
        have index := Direction.ahead_inj.mp (same.trans second.symm)
        omega
      rw [d.ahead_next, movedTo_other notOld notNew, patch.middle (i + 1) (by omega) below] at new
      rw [if_neg first]
      exact (Option.some.inj new).symm

/-! ### Agreement -/

/-- From an occupied inner cell the three functions agree: on whether the cell ahead is free, on
the first object in the corridor, and on the corridor seen from one step ahead. -/
theorem corridor_agrees {row col : Int} (inner : Inner rows cols (row, col)) (s : MazeState rows cols)
    (free : 0 < s.sem) (present : s.cells.get? (row, col) = some o) (solid : o ≠ empty) (gaze : Direction)
    (deep : 2 ≤ depth) (view : View) :
    ∃ reached v result t target,
      (mazeGetView rows cols view row col gaze.code depth).run cellMachine s = some ((reached, v), s) ∧
      (mazeMove row col gaze.code).run cellMachine s = some (result, t) ∧
      (mazeFindTarget rows cols row col gaze.code).run cellMachine s = some (target, s) ∧
      1 < reached ∧ (result = 0 ↔ v 1 corridor = empty) ∧
      (∀ k : Nat, 1 ≤ k → k < reached → v k corridor ≠ empty →
        (∀ j : Nat, 1 ≤ j → j < k → v j corridor = empty) →
        target = if isAvatar (v k corridor) then v k corridor else empty) ∧
      ((∀ k : Nat, 1 ≤ k → k < reached → v k corridor = empty) → reached < min depth viewDepth → target = empty) ∧
      (result = 0 → ∀ old, ∃ reached' v',
        (mazeGetView rows cols old (gaze.next (row, col)).1 (gaze.next (row, col)).2 gaze.code depth).run
          cellMachine t = some ((reached', v'), t) ∧
        ∀ i : Nat, (i : Int) + 1 < reached → i < reached' ∧ v' i leftWall = v (i + 1) leftWall ∧
          v' i rightWall = v (i + 1) rightWall ∧ v' i corridor = if i = 0 then o else v (i + 1) corridor) := by
  have flanked := inner.flanked gaze
  have room := inner.room gaze
  obtain ⟨⟨reached, v⟩, u, viewed, unread, reach, patch⟩ := mazeGetView_patch (s := s) flanked view depth
  obtain ⟨target, w, searched, unsearched, found, finds, value⟩ := mazeFindTarget_finds free flanked.inside gaze
  simp only at reach patch
  rw [unread] at viewed
  rw [unsearched, value] at searched
  have far : 1 < reached := by
    rw [reach, viewReach, viewDepth]
    omega
  have ahead : s.cells.get? (gaze.next (row, col)) = some (v 1 corridor) := by
    rw [← gaze.ahead_one]
    exact patch.middle 1 (by omega) far
  have seen : ∀ k : Nat, 1 ≤ k → k < reached → v k corridor ≠ empty →
      (∀ j : Nat, 1 ≤ j → j < k → v j corridor = empty) →
      found.getD empty = if isAvatar (v k corridor) then v k corridor else empty := by
    intro k low high stands before
    exact patch.finds_first (reach ▸ min_le_right _ _) finds low high stands before
  have unseen : (∀ k : Nat, 1 ≤ k → k < reached → v k corridor = empty) → reached < min depth viewDepth →
      found.getD empty = empty := by
    intro blank short
    refine patch.finds_nothing ?_ finds blank
    rw [reach, viewReach] at short ⊢
    omega
  have moved := mazeMove_ahead present solid ahead
  by_cases clear : v 1 corridor = empty
  · rw [if_pos clear] at moved
    refine ⟨reached, v, 0, movedTo s (row, col) (gaze.next (row, col)) o, found.getD empty, viewed, moved, searched,
      far, iff_of_true rfl clear, seen, unseen, fun _ old => ?_⟩
    have beside : Flanked rows cols gaze (gaze.next (row, col)) := by
      rw [← gaze.ahead_one]
      exact flanked.ahead (by omega) (by omega)
    obtain ⟨⟨reached', v'⟩, u', again, same, reach', patch'⟩ := mazeGetView_patch
      (s := movedTo s (row, col) (gaze.next (row, col)) o) beside old depth
    simp only at reach' patch'
    rw [same] at again
    refine ⟨reached', v', again, fun i below => ?_⟩
    have within : (i : Int) < reached' := by
      rw [reach', viewReach, gaze.room_next]
      rw [reach, viewReach] at below
      omega
    exact ⟨within, patch.shifted patch' beside.inside below within⟩
  · rw [if_neg clear] at moved
    exact ⟨reached, v, -1, s, found.getD empty, viewed, moved, searched, far, iff_of_false (by decide) clear,
      seen, unseen, fun zero => absurd zero (by decide)⟩

/-- `A` looks down the hall at `B`, two steps away, and moves towards it. -/
theorem corridor_agrees_hall : ∃ v t reached' v',
    (mazeGetView 3 6 (fun _ _ => 0) 1 1 Direction.east.code 9).run cellMachine ⟨hall, 1⟩ =
      some ((5, v), ⟨hall, 1⟩) ∧
    (mazeMove 1 1 Direction.east.code).run cellMachine ⟨hall, 1⟩ = some (0, t) ∧
    (mazeFindTarget 3 6 1 1 Direction.east.code).run cellMachine ⟨hall, 1⟩ = some (66, ⟨hall, 1⟩) ∧
    v 1 corridor = empty ∧
    (mazeGetView 3 6 v 1 2 Direction.east.code 9).run cellMachine t = some ((reached', v'), t) ∧
    v' 0 corridor = 65 ∧ v' 3 leftWall = v 4 leftWall := by
  obtain ⟨reached, v, result, t, target, viewed, moved, searched, _, free, _, _, later⟩ :=
    corridor_agrees hall_inner ⟨hall, 1⟩ (by decide) (o := 65) (by decide) (by decide) .east
      (show (2 : Int) ≤ 9 by decide) fun _ _ => 0
  have depth : ((mazeGetView 3 6 (fun _ _ => 0) 1 1 Direction.east.code 9).run cellMachine ⟨hall, 1⟩).map
    (fun r => r.1.1) = some 5 := by decide
  have success : ((mazeMove 1 1 Direction.east.code).run cellMachine (⟨hall, 1⟩ : MazeState 3 6)).map
    (fun r => r.1) = some 0 := by decide
  have hit : ((mazeFindTarget 3 6 1 1 Direction.east.code).run cellMachine ⟨hall, 1⟩).map
    (fun r => r.1) = some 66 := by decide
  rw [viewed, Option.map_some, Option.some.injEq] at depth
  rw [moved, Option.map_some, Option.some.injEq] at success
  rw [searched, Option.map_some, Option.some.injEq] at hit
  simp only at depth success hit
  subst depth success hit
  obtain ⟨reached', v', again, shifted⟩ := later rfl v
  obtain ⟨_, _, _, front⟩ := shifted 0 (by decide)
  obtain ⟨_, side, _, _⟩ := shifted 3 (by decide)
  exact ⟨v, t, reached', v', viewed, moved, searched, free.mp rfl, again, front, side⟩

end MazeWar
