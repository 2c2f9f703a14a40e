import MazeWar.Maze.Consistency
import MazeWar.Maze.Target
import MazeWar.Maze.Walk

/-!
# Lines of sight

Who fires at a player can be fired at: the target in a direction sees its shooter in the reverse direction,
and the two views show the two avatars at the same distance.
-/

namespace MazeWar
open Foundation
variable {rows cols : Nat} {m : Maze rows cols} {s : MazeState rows cols} {d : Direction} {p q : Int × Int} {o o' : Object}
  {k : Nat} {i j : Int}

namespace Direction

theorem ahead_ahead (d : Direction) (i j : Int) (p : Int × Int) : d.ahead i (d.ahead j p) = d.ahead (i + j) p := by
  obtain ⟨row, col⟩ := p
  cases d <;> simp only [ahead, Prod.mk.injEq, true_and, and_true] <;> omega

theorem opposite_ahead (d : Direction) (i : Int) (p : Int × Int) : d.opposite.ahead i p = d.ahead (-i) p := by
  obtain ⟨row, col⟩ := p
  cases d <;> simp only [opposite, ahead, Prod.mk.injEq, true_and, and_true] <;> omega

/-- Looking back along a line. -/
theorem opposite_iterate (d : Direction) {j k : Nat} (near : j ≤ k) (p : Int × Int) :
    d.opposite.next^[j] (d.next^[k] p) = d.next^[k - j] p := by
  rw [iterate_next, iterate_next, iterate_next, opposite_ahead, ahead_ahead]
  congr 1
  omega

end Direction

theorem FirstInLine.back (first : FirstInLine m d p k o) (own : m.get? p = some o') :
    FirstInLine m d.opposite (d.next^[k] p) k o' := by
  refine ⟨first.away, ?_, fun j away before => ?_⟩
  · rw [d.opposite_iterate le_rfl, Nat.sub_self]
    exact own
  · rw [d.opposite_iterate before.le]
    exact first.before (k - j) (by omega) (by omega)

namespace Game
variable {ι : Type} [DecidableEq ι] {avatar : ι → Object} {start : Maze rows cols} {g : Game ι rows cols} {a b c : ι}

section Located
variable {depth : Int}

omit [DecidableEq ι]

end Located

end Game
end MazeWar
