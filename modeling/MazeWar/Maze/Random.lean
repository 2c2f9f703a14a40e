import MazeWar.Maze.View

/-!
# Random placement

The loop of `maze_set_player_random` counts its attempts in a variable that it never increments,
so it ends with the first attempt that hits a blank cell, and with no other.
-/

namespace MazeWar
open Foundation
variable {rows cols : Nat} {s t : MazeState rows cols} {draw : Nat → Nat} {avatar : Object} {n k : Nat}
  {isSet x y rowp colp : Int}

/-- The cell of an attempt: the draws are taken in pairs. -/
def attempted (rows cols : Nat) (draw : Nat → Nat) (k : Nat) : Int × Int :=
  ((draw (2 * k) % rows : Nat), (draw (2 * k + 1) % cols : Nat))

theorem attempted_inMaze (tall : 0 < rows) (wide : 0 < cols) (draw : Nat → Nat) (k : Nat) :
    InMaze rows cols (attempted rows cols draw k) := by
  have low := Nat.mod_lt (draw (2 * k)) tall
  have right := Nat.mod_lt (draw (2 * k + 1)) wide
  refine ⟨?_, ?_, ?_, ?_⟩ <;> simp only [attempted] <;> omega

/-! ### The loop -/

theorem mazeSetPlayerRandomLoop_attempt (again : isSet ≠ 0) :
    (mazeSetPlayerRandomLoop rows cols draw avatar 0 (n + 1) (2 * k) isSet x y).run cellMachine s =
      ((mazeSetPlayer avatar (attempted rows cols draw k).1 (attempted rows cols draw k).2).run cellMachine s).bind
        fun answer => (mazeSetPlayerRandomLoop rows cols draw avatar 0 n (2 * (k + 1)) answer.1
          (attempted rows cols draw k).1 (attempted rows cols draw k).2).run cellMachine answer.2 := by
  rw [mazeSetPlayerRandomLoop, if_pos ⟨again, by decide⟩]
  exact Program.run_bind _ _ _ _

/-- Once the avatar is placed the loop ends. -/
theorem mazeSetPlayerRandomLoop_placedAlready (i : Int) (drawn : Nat) :
    (mazeSetPlayerRandomLoop rows cols draw avatar i n drawn 0 x y).run cellMachine s = some (some (0, x, y), s) := by
  cases n <;> simp [mazeSetPlayerRandomLoop]

/-- Attempts on cells that are taken do not end it. -/
theorem mazeSetPlayerRandomLoop_taken (tall : 0 < rows) (wide : 0 < cols) (again : isSet ≠ 0)
    (taken : ∀ j < n, s.cells.get? (attempted rows cols draw (k + j)) ≠ some empty) :
    (mazeSetPlayerRandomLoop rows cols draw avatar 0 n (2 * k) isSet x y).run cellMachine s = some (none, s) := by
  induction n generalizing k isSet x y with
  | zero => simp [mazeSetPlayerRandomLoop, again]
  | succ n ih =>
    obtain ⟨o, present⟩ := Memory.exists_get? (m := s.cells) (attempted_inMaze tall wide draw k)
    have solid : o ≠ empty := by
      rintro rfl
      exact taken 0 (Nat.succ_pos n) present
    rw [mazeSetPlayerRandomLoop_attempt again, mazeSetPlayer_run, present, Option.map_some, if_neg solid,
      Option.bind_some]
    refine ih (show (-1 : Int) ≠ 0 by decide) fun j below => ?_
    rw [Nat.add_right_comm]
    exact taken (j + 1) (Nat.succ_lt_succ below)

/-- The first attempt on a blank cell ends it. -/
theorem mazeSetPlayerRandomLoop_blank (tall : 0 < rows) (wide : 0 < cols) (again : isSet ≠ 0)
    (blank : ∃ j < n, s.cells.get? (attempted rows cols draw (k + j)) = some empty) :
    ∃ result t, (mazeSetPlayerRandomLoop rows cols draw avatar 0 n (2 * k) isSet x y).run cellMachine s =
      some (some result, t) := by
  induction n generalizing k isSet x y with
  | zero =>
    obtain ⟨j, none, _⟩ := blank
    exact absurd none (Nat.not_lt_zero j)
  | succ n ih =>
    obtain ⟨o, present⟩ := Memory.exists_get? (m := s.cells) (attempted_inMaze tall wide draw k)
    rw [mazeSetPlayerRandomLoop_attempt again, mazeSetPlayer_run, present, Option.map_some, Option.bind_some]
    by_cases here : o = empty
    · rw [if_pos here]
      exact ⟨_, _, mazeSetPlayerRandomLoop_placedAlready 0 _⟩
    · rw [if_neg here]
      refine ih (show (-1 : Int) ≠ 0 by decide) ?_
      obtain ⟨j, below, blank⟩ := blank
      obtain _ | j := j
      · exact absurd (Option.some.inj (present.symm.trans blank)) here
      · exact ⟨j, Nat.lt_of_succ_lt_succ below, by rw [Nat.add_right_comm]; exact blank⟩

/-! ### The function -/

theorem mazeSetPlayerRandom_ends_iff (avatar : Object) (rowp colp : Int) (tall : 0 < rows) (wide : 0 < cols) :
    (∃ result t, (mazeSetPlayerRandom rows cols draw n avatar rowp colp).run cellMachine s = some (some result, t)) ↔
      ∃ k < n, s.cells.get? (attempted rows cols draw k) = some empty := by
  rw [mazeSetPlayerRandom, Program.run_bind]
  constructor
  · rintro ⟨result, t, ran⟩
    by_contra taken
    have stuck : (mazeSetPlayerRandomLoop rows cols draw avatar 0 n (2 * 0) (-1) 0 0).run cellMachine s = some (none, s) :=
      mazeSetPlayerRandomLoop_taken tall wide (by decide) fun j below blank =>
        taken ⟨j, below, by rwa [Nat.zero_add] at blank⟩
    rw [Nat.mul_zero] at stuck
    rw [stuck] at ran
    cases ran
  · rintro ⟨k, below, blank⟩
    obtain ⟨⟨isSet, x, y⟩, t, looped⟩ : ∃ result t,
        (mazeSetPlayerRandomLoop rows cols draw avatar 0 n (2 * 0) (-1) 0 0).run cellMachine s = some (some result, t) :=
      mazeSetPlayerRandomLoop_blank tall wide (by decide) ⟨k, below, by rwa [Nat.zero_add]⟩
    rw [Nat.mul_zero] at looped
    rw [looped]
    exact ⟨_, t, rfl⟩

/-- The function returns after at most 20 attempts, with a nonzero result if none of them was on a
blank cell. -/
def ReturnsInTime (draw : Nat → Nat) (avatar : Object) (rowp colp : Int) (s : MazeState rows cols) : Prop :=
  ∃ attempts ≤ 20, ∃ result t,
    (mazeSetPlayerRandom rows cols draw attempts avatar rowp colp).run cellMachine s = some (some result, t) ∧
    ((∀ k < attempts, s.cells.get? (attempted rows cols draw k) ≠ some empty) → result.1 ≠ 0)

/-- It returns in time exactly if one of the first 20 attempts is on a blank cell. -/
theorem mazeSetPlayerRandom_in_time_iff (tall : 0 < rows) (wide : 0 < cols) :
    ReturnsInTime draw avatar rowp colp s ↔ ∃ k < 20, s.cells.get? (attempted rows cols draw k) = some empty := by
  constructor
  · rintro ⟨attempts, atMost, result, t, ran, _⟩
    obtain ⟨k, below, blank⟩ := (mazeSetPlayerRandom_ends_iff avatar rowp colp tall wide).mp ⟨result, t, ran⟩
    exact ⟨k, Nat.lt_of_lt_of_le below atMost, blank⟩
  · rintro ⟨k, below, blank⟩
    obtain ⟨result, t, ran⟩ := (mazeSetPlayerRandom_ends_iff avatar rowp colp tall wide).mpr ⟨k, below, blank⟩
    exact ⟨20, le_refl 20, result, t, ran, fun taken => absurd blank (taken k below)⟩

/-- In a maze without a blank cell it never returns. -/
theorem mazeSetPlayerRandom_hangs :
    ¬ ReturnsInTime (fun _ => 0) 65 0 0 (⟨fun _ => 42, 1⟩ : MazeState 1 1) ∧
      ∀ attempts result t, (mazeSetPlayerRandom 1 1 (fun _ => 0) attempts 65 0 0).run cellMachine
        (⟨fun _ => 42, 1⟩ : MazeState 1 1) ≠ some (some result, t) := by
  have taken : ∀ k, (⟨fun _ => 42, 1⟩ : MazeState 1 1).cells.get? (attempted 1 1 (fun _ => 0) k) ≠ some empty := by
    intro k
    show (⟨fun _ => 42, 1⟩ : MazeState 1 1).cells.get? (0, 0) ≠ some empty
    decide
  have never : ∀ attempts result t, (mazeSetPlayerRandom 1 1 (fun _ => 0) attempts 65 0 0).run cellMachine
      (⟨fun _ => 42, 1⟩ : MazeState 1 1) ≠ some (some result, t) := by
    intro attempts result t ran
    obtain ⟨k, _, blank⟩ := (mazeSetPlayerRandom_ends_iff 65 0 0 Nat.one_pos Nat.one_pos).mp ⟨result, t, ran⟩
    exact taken k blank
  exact ⟨fun ⟨attempts, _, result, t, ran, _⟩ => never attempts result t ran, never⟩

/-- Draws that name a wall of the hall first and then its middle. -/
def wallThenMiddle : Nat → Nat
  | 2 => 1
  | 3 => 2
  | _ => 0

theorem mazeSetPlayerRandom_in_time_hall : ReturnsInTime wallThenMiddle 67 0 0 ⟨hall, 1⟩ :=
  (mazeSetPlayerRandom_in_time_iff (by decide) (by decide)).mpr ⟨1, by decide, by decide⟩

/-! ### What it returns -/

/-- A result other than zero leaves `*rowp` and `*colp` as they were. -/
theorem mazeSetPlayerRandom_outputs {result row col : Int}
    (ran : (mazeSetPlayerRandom rows cols draw n avatar rowp colp).run cellMachine s =
      some (some (result, row, col), t)) (failed : result ≠ 0) : row = rowp ∧ col = colp := by
  rw [mazeSetPlayerRandom, Program.run_bind] at ran
  obtain ⟨⟨ended, u⟩, _, ran⟩ := Option.bind_eq_some_iff.mp ran
  cases ended with
  | none => cases ran
  | some final =>
    obtain ⟨isSet, x, y⟩ := final
    simp only [Program.run_pure, Option.some.injEq, Prod.mk.injEq] at ran
    obtain ⟨outputs, rfl⟩ := ran
    split at outputs <;> cases outputs
    · exact absurd rfl failed
    · exact ⟨rfl, rfl⟩

/-- A result of zero names the blank cell that the avatar was placed in, and any other result means
that nothing has changed. -/
theorem mazeSetPlayerRandom_exact {result row col : Int}
    (ran : (mazeSetPlayerRandom rows cols draw n avatar rowp colp).run cellMachine s =
      some (some (result, row, col), t)) :
    (result = 0 → InMaze rows cols (row, col) ∧ s.cells.get? (row, col) = some empty ∧
      t.cells.get? (row, col) = some avatar ∧ ∀ q, q ≠ (row, col) → t.cells.get? q = s.cells.get? q) ∧
    (result ≠ 0 → (∀ q, t.cells.get? q = s.cells.get? q) ∧ row = rowp ∧ col = colp) := by
  rcases mazeSetPlayerRandom_placed ran with ⟨rfl, blank, rfl⟩ | ⟨failed, rfl⟩
  · refine ⟨fun _ => ?_, fun nonzero => absurd rfl nonzero⟩
    have inside := Memory.mem_of_get? blank
    exact ⟨inside, blank, Memory.get?_put_self inside, fun q other => Memory.get?_put_ne other⟩
  · exact ⟨fun zero => absurd zero failed, fun _ => ⟨fun _ => rfl, mazeSetPlayerRandom_outputs ran failed⟩⟩

/-- The second attempt places `C` in the middle of the hall. -/
theorem mazeSetPlayerRandom_exact_hall : ∃ t,
    (mazeSetPlayerRandom 3 6 wallThenMiddle 20 67 0 0).run cellMachine ⟨hall, 1⟩ = some (some (0, 1, 2), t) ∧
      hall.get? (1, 2) = some empty ∧ t.cells.get? (1, 2) = some 67 := by
  have returns : ((mazeSetPlayerRandom 3 6 wallThenMiddle 20 67 0 0).run cellMachine ⟨hall, 1⟩).map Prod.fst =
      some (some (0, 1, 2)) := by decide
  obtain ⟨⟨outputs, t⟩, ran, rfl⟩ := Option.map_eq_some_iff.mp returns
  obtain ⟨placed, _⟩ := mazeSetPlayerRandom_exact ran
  obtain ⟨_, blank, holds, _⟩ := placed rfl
  exact ⟨t, ran, blank, holds⟩

end MazeWar
