import MazeWar.Maze.Search
import MazeWar.Maze.View

/-!
# The first object in line

What `maze_find_target` is for: the avatar that is first in line, if an avatar is. Whatever its
accesses return, the call takes the semaphore once and then releases it once.
-/

namespace MazeWar
open Foundation
variable {rows cols : Nat} {m : Maze rows cols} {s : MazeState rows cols} {row col : Int} {d : Direction}
  {p : Int × Int} {k k' n : Nat} {o o' : Object}

/-- The cell `k` steps away is in the maze and holds `o`, and all cells before it are blank. -/
structure FirstInLine (m : Maze rows cols) (d : Direction) (p : Int × Int) (k : Nat) (o : Object) : Prop where
  away : 1 ≤ k
  holds : m.get? (d.next^[k] p) = some o
  before : ∀ j, 1 ≤ j → j < k → m.get? (d.next^[j] p) = some empty

theorem FirstInLine.le (first : FirstInLine m d p k o) (other : FirstInLine m d p k' o') (solid : o' ≠ empty) :
    k ≤ k' := by
  by_contra later
  have blank := first.before k' other.away (Nat.lt_of_not_le later)
  exact solid (Option.some.inj (other.holds.symm.trans blank))

theorem FirstInLine.unique (first : FirstInLine m d p k o) (other : FirstInLine m d p k' o') (solid : o ≠ empty)
    (solid' : o' ≠ empty) : k = k' ∧ o = o' := by
  obtain rfl : k = k' := Nat.le_antisymm (first.le other solid') (other.le first solid)
  exact ⟨rfl, Option.some.inj (first.holds.symm.trans other.holds)⟩

/-! ### What the scan finds -/

theorem scanned_eq (d : Direction) (p : Int × Int) (k : Nat) : scanned d p k = d.next^[k + 1] p := by
  rw [Direction.iterate_next, scanned, Nat.cast_succ]

theorem Finds.some_first {target : Object} (finds : Finds m (scanned d p) n (some target)) :
    ∃ k o, FirstInLine m d p k o ∧ o ≠ empty ∧ target = if isAvatar o then o else empty := by
  obtain ⟨k, _, o, before, present, solid, same⟩ := finds
  refine ⟨k + 1, o, ⟨Nat.le_add_left 1 k, ?_, fun j away earlier => ?_⟩, solid, same⟩
  · rw [← scanned_eq]
    exact present
  · obtain ⟨i, rfl⟩ := Nat.exists_eq_add_of_le' away
    rw [← scanned_eq]
    exact before i (by omega)

theorem Finds.none_nobody (inside : InMaze rows cols p)
    (finds : Finds m (scanned d p) (d.room rows cols p - 1).toNat none) (first : FirstInLine m d p k o) : o = empty := by
  have away := first.away
  have within := (d.iterate_inMaze_iff inside k).mp (Memory.mem_of_get? first.holds)
  obtain ⟨i, rfl⟩ := Nat.exists_eq_add_of_le' away
  have blank := finds i (by omega)
  rw [scanned_eq, first.holds] at blank
  exact Option.some.inj blank

/-- The value that a search returns. -/
theorem Finds.target (inside : InMaze rows cols p) {found : Option Object}
    (finds : Finds m (scanned d p) (d.room rows cols p - 1).toNat found) :
    (∃ k o, FirstInLine m d p k o ∧ isAvatar o = true ∧ found.getD empty = o) ∨
      ((∀ k o, FirstInLine m d p k o → isAvatar o = false) ∧ found.getD empty = empty) := by
  cases found with
  | none =>
    refine .inr ⟨fun k o first => ?_, rfl⟩
    rw [finds.none_nobody inside first]
    exact empty_not_avatar
  | some target =>
    obtain ⟨k, o, first, solid, rfl⟩ := finds.some_first
    by_cases upper : isAvatar o = true
    · exact .inl ⟨k, o, first, upper, if_pos upper⟩
    · refine .inr ⟨fun k' o' first' => ?_, if_neg upper⟩
      by_contra upper'
      have solid' := avatar_ne_empty (Bool.eq_true_of_not_eq_false upper')
      obtain ⟨_, rfl⟩ := first'.unique first solid' solid
      exact upper (Bool.eq_true_of_not_eq_false upper')

/-! ### The semaphore -/

abbrev MazeLog := List ((op : CellOp (Int × Int) Object) × op.Res)

/-- The operations on the semaphore, in order. -/
def semaphoreOps (log : MazeLog) : List (CellOp (Int × Int) Object) :=
  (log.map Sigma.fst).filter fun op => op.address.isNone

theorem semaphoreOps_append (before after : MazeLog) :
    semaphoreOps (before ++ after) = semaphoreOps before ++ semaphoreOps after := by
  simp [semaphoreOps]

/-- A cell of the scan releases the semaphore if the scan ends there. -/
theorem scanCell_releases {log : MazeLog} {outcome : ForInStep (Option Object)}
    (emits : (scanCell row col).Emits log outcome) :
    (outcome = .yield none ∧ semaphoreOps log = []) ∨ ∃ o, outcome = .done (some o) ∧ semaphoreOps log = [.post] := by
  simp only [scanCell, cell, mutexV, Program.perform_bind, Program.emits_call] at emits
  obtain ⟨o, rest, rfl, emits⟩ := emits
  split at emits
  · simp only [Program.emits_call] at emits
    obtain ⟨again, rest, rfl, emits⟩ := emits
    split at emits
    · obtain ⟨_, rest, rfl, last, rest', rfl, rfl, rfl⟩ := emits
      exact .inr ⟨last, rfl, rfl⟩
    · obtain ⟨_, rest, rfl, rfl, rfl⟩ := emits
      exact .inr ⟨empty, rfl, rfl⟩
  · obtain ⟨rfl, rfl⟩ := emits
    exact .inl ⟨rfl, rfl⟩

theorem scanLoop_releases {path : Int → Int × Int} {n : Nat} {i : Int} {log : MazeLog} {found : Option Object}
    (emits : (Program.loop (fun k _ => scanCell (path k).1 (path k).2) 1 n i none).Emits log found) :
    semaphoreOps log = if found.isSome then [.post] else [] := by
  induction n generalizing i log with
  | zero =>
    obtain ⟨rfl, rfl⟩ := emits
    rfl
  | succ n ih =>
    obtain ⟨before, outcome, after, rfl, round, rest⟩ := Program.emits_bind.mp emits
    rw [semaphoreOps_append]
    rcases scanCell_releases round with ⟨rfl, none⟩ | ⟨o, rfl, one⟩
    · rw [none, ih rest, List.nil_append]
    · obtain ⟨rfl, rfl⟩ := rest
      rw [one]
      rfl

theorem mazeFindTarget_semaphore (inside : InMaze rows cols (row, col)) {log : MazeLog} {target : Object}
    (emits : (mazeFindTarget rows cols row col d.code).Emits log target) : semaphoreOps log = [.wait, .post] := by
  rw [mazeFindTarget_code inside] at emits
  simp only [searchWith, mutexP, Program.perform_bind, Program.emits_call] at emits
  obtain ⟨_, rest, rfl, emits⟩ := emits
  obtain ⟨scan, found, last, rfl, scans, emits⟩ := Program.emits_bind.mp emits
  have released := scanLoop_releases scans
  change .wait :: semaphoreOps (scan ++ last) = _
  rw [semaphoreOps_append, released]
  cases found with
  | none =>
    obtain ⟨_, _, rfl, rfl, _⟩ := emits
    rfl
  | some o =>
    obtain ⟨rfl, _⟩ := emits
    rfl

/-! ### The specification -/

/-- `maze_find_target` returns an avatar exactly if it is first in line, and otherwise `EMPTY`. It
leaves the maze as it is, reads cells of the maze only, and waits and posts once. -/
theorem mazeFindTarget_exact (inside : InMaze rows cols (row, col)) (d : Direction) (s : MazeState rows cols)
    (free : 0 < s.sem) :
    (∃ target, (mazeFindTarget rows cols row col d.code).run cellMachine s = some (target, s) ∧
      (∀ o, isAvatar o = true → (target = o ↔ ∃ k, FirstInLine s.cells d (row, col) k o)) ∧
      ((∀ k o, FirstInLine s.cells d (row, col) k o → isAvatar o = false) → target = empty)) ∧
    (∀ b ∈ touched (mazeFindTarget rows cols row col d.code) s, InMaze rows cols b) ∧
    ∀ log target, (mazeFindTarget rows cols row col d.code).Emits log target →
      semaphoreOps log = [.wait, .post] := by
  have ends := mazeFindTarget_finds free inside d
  refine ⟨?_, ends.sound.2, fun log target emits => mazeFindTarget_semaphore inside emits⟩
  obtain ⟨target, t, ran, rfl, found, finds, rfl⟩ := ends
  refine ⟨_, ran, ?_⟩
  rcases finds.target inside with ⟨k, o, first, upper, same⟩ | ⟨nobody, same⟩
  · rw [same]
    refine ⟨fun o' upper' => ⟨?_, ?_⟩, fun nobody => ?_⟩
    · rintro rfl
      exact ⟨k, first⟩
    · rintro ⟨k', first'⟩
      exact (first.unique first' (avatar_ne_empty upper) (avatar_ne_empty upper')).2
    · rw [nobody k o first] at upper
      cases upper
  · rw [same]
    refine ⟨fun o upper => iff_of_false (avatar_ne_empty upper).symm ?_, fun _ => rfl⟩
    rintro ⟨k, first⟩
    rw [nobody k o first] at upper
    cases upper

theorem hall_first : FirstInLine hall .east (1, 1) 3 66 where
  away := by decide
  holds := by decide
  before j away earlier := by
    obtain rfl | rfl : j = 1 ∨ j = 2 := by omega
    · decide
    · decide

theorem mazeFindTarget_exact_hall :
    (mazeFindTarget 3 6 1 1 Direction.east.code).run cellMachine ⟨hall, 1⟩ = some (66, ⟨hall, 1⟩) := by
  obtain ⟨⟨target, ran, returned, _⟩, _⟩ :=
    mazeFindTarget_exact hall_inner.inMaze .east ⟨hall, 1⟩ Nat.one_pos
  rw [ran, (returned 66 rfl).mpr ⟨3, hall_first⟩]

end MazeWar
