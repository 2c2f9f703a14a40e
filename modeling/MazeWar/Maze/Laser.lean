import MazeWar.Foundation.Carriers
import MazeWar.Foundation.Runs
import MazeWar.Maze.Target

/-!
# The laser among other threads

`maze_find_target` scans under the semaphore, but it reads the avatar that it returns once more
after it has released it. Other threads remove players and move in between.
-/

namespace MazeWar
open Foundation
variable {rows cols : Nat} {m : Maze rows cols} {s t : MazeState rows cols} {row col : Int} {d : Direction}
  {p q : Int × Int}

/-! ### The critical section -/

/-- What is left of the call after the scan: its result, or a read of the avatar that it has hit. -/
def AfterScan (m : Maze rows cols) (left : MazeProgram Object) : Prop :=
  (∃ target, left = .done target) ∨
    ∃ p o, left = .call (.load p) .done ∧ m.get? p = some o ∧ isAvatar o = true

theorem untilPost_scanLoop {path : Int → Int × Int} {n : Nat} {i : Int} {left : MazeProgram Object}
    (scanned : untilPost (Program.loop (fun k _ => scanCell (path k).1 (path k).2) 1 n i none >>= fun found =>
      match found with
      | some target => pure target
      | none => do
        mutexV
        pure empty) s = some (left, t)) : AfterScan s.cells left := by
  induction n generalizing i with
  | zero =>
    cases scanned
    exact .inl ⟨empty, rfl⟩
  | succ n ih =>
    simp only [Program.loop, scanCell, cell, mutexV, Program.perform_bind, Program.call_bind, untilPost_load] at scanned
    obtain ⟨o, present, scanned⟩ := Option.bind_eq_some_iff.mp scanned
    by_cases blank : o = empty
    · rw [if_neg (not_not.mpr blank)] at scanned
      exact ih scanned
    · rw [if_pos blank] at scanned
      simp only [Program.call_bind, untilPost_load, present, Option.bind_some] at scanned
      by_cases upper : isAvatar o = true
      · rw [if_pos upper] at scanned
        cases scanned
        exact .inr ⟨path i, o, rfl, present, upper⟩
      · rw [if_neg upper] at scanned
        cases scanned
        exact .inl ⟨empty, rfl⟩

theorem untilPost_searchWith {scan : MazeProgram (Option Object)} {left : MazeProgram Object}
    (searched : untilPost (searchWith scan) s = some (left, t)) : 0 < s.sem ∧
      untilPost (scan >>= fun found =>
        match found with
        | some target => pure target
        | none => do
          mutexV
          pure empty) { s with sem := s.sem - 1 } = some (left, t) := by
  simp only [searchWith, mutexP, Program.perform_bind, untilPost_wait] at searched
  split at searched
  · exact ⟨‹_›, searched⟩
  · cases searched

/-- The scan leaves the maze as it is, and then either the result is settled or the avatar that is
first in line is read again. -/
theorem mazeFindTarget_scan (inside : InMaze rows cols (row, col)) {left : MazeProgram Object}
    (scanned : untilPost (mazeFindTarget rows cols row col d.code) s = some (left, t)) : t = s ∧
      ((∃ target, left = .done target ∧
        ∀ k o, FirstInLine s.cells d (row, col) k o → isAvatar o = true → target = o) ∨
      ∃ p k o, left = .call (.load p) .done ∧ s.cells.get? p = some o ∧ isAvatar o = true ∧
        FirstInLine s.cells d (row, col) k o) := by
  have searched := scanned
  rw [mazeFindTarget_code inside] at searched
  obtain ⟨free, searched⟩ := untilPost_searchWith searched
  -- Run on from the scan, the call returns what it finds when it is alone.
  obtain ⟨value, u, ran, rfl, found, finds, rfl⟩ := mazeFindTarget_finds free inside d
  rw [run_untilPost, scanned, Option.bind_some] at ran
  rcases untilPost_scanLoop searched with ⟨target, rfl⟩ | ⟨p, o, rfl, present, upper⟩
  · cases ran
    refine ⟨rfl, .inl ⟨_, rfl, fun k o first upper => ?_⟩⟩
    rcases finds.target inside with ⟨k', o', first', upper', same⟩ | ⟨nobody, _⟩
    · rw [same]
      exact (first'.unique first (avatar_ne_empty upper') (avatar_ne_empty upper)).2
    · rw [nobody k o first] at upper
      cases upper
  · rw [run_load] at ran
    obtain ⟨again, reread, ran⟩ := Option.bind_eq_some_iff.mp ran
    cases ran
    obtain rfl : o = found.getD empty := Option.some.inj (present.symm.trans reread)
    refine ⟨rfl, .inr ⟨p, ?_⟩⟩
    rcases finds.target inside with ⟨k, o, first, _, same⟩ | ⟨_, same⟩
    · exact ⟨k, _, rfl, present, upper, same ▸ first⟩
    · rw [same] at upper
      cases upper

/-! ### The other threads -/

/-- A call of `maze_find_target`, or what is left of it, with the cells that its scan has seen; and
what is left of the `maze_move` call of each other thread. -/
structure Hunt (ι : Type) (rows cols : Nat) where
  maze : MazeState rows cols
  laser : MazeProgram Object
  seen : Option (Maze rows cols)
  movers : ι → MazeProgram Int

inductive HuntAction (ι : Type) where
  | scan
  | read
  | removePlayer (avatar : Object) (row col : Int)
  | startMove (i : ι) (row col dir : Int)
  | advance (i : ι)

namespace Hunt
variable {ι : Type} [DecidableEq ι]

def start (cells : Maze rows cols) (row col : Int) (d : Direction) : Hunt ι rows cols where
  maze := ⟨cells, 1⟩
  laser := mazeFindTarget rows cols row col d.code
  seen := none
  movers _ := .done 0

/-- A removal is one step, as it takes the semaphore. A move takes none, and is one step for each access. -/
def step (s : Hunt ι rows cols) : HuntAction ι → Option (Hunt ι rows cols)
  | .scan =>
    if s.seen.isNone then
      (untilPost s.laser s.maze).map fun (laser, maze) => { s with maze, laser, seen := some s.maze.cells }
    else none
  | .read =>
    if s.seen.isSome then (Foundation.advance s.laser s.maze).map fun (laser, maze) => { s with maze, laser }
    else none
  | .removePlayer avatar row col =>
    ((mazeRemovePlayer avatar row col).run cellMachine s.maze).map fun (_, maze) => { s with maze }
  | .startMove i row col dir =>
    match s.movers i with
    | .done _ => some { s with movers := Function.update s.movers i (mazeMove row col dir) }
    | .call _ _ => none
  | .advance i => (Foundation.advance (s.movers i) s.maze).map fun (program, maze) =>
      { s with maze, movers := Function.update s.movers i program }

/-- The value that the call has returned. -/
def result (s : Hunt ι rows cols) : Option Object :=
  match s.laser with
  | .done target => some target
  | .call _ _ => none

/-- If an avatar was first in line for the scan, it is the result. -/
def Faithful (d : Direction) (p : Int × Int) (s : Hunt ι rows cols) : Prop :=
  ∀ seen target, s.seen = some seen → s.result = some target →
    ∀ k o, FirstInLine seen d p k o → isAvatar o = true → target = o

/-- The cell that is about to be read again. -/
def hit (s : Hunt ι rows cols) : Option (Int × Int) :=
  match s.seen, s.laser with
  | some _, .call (.load p) _ => some p
  | _, _ => none

/-- The step does not change the cell that is about to be read again. -/
def Undisturbed (s : Hunt ι rows cols) : HuntAction ι → Prop
  | .removePlayer _ row col => s.hit ≠ some (row, col)
  | .advance i =>
    match s.movers i with
    | .call (.store p o) _ => s.hit = some p → s.maze.cells.get? p = some o
    | _ => True
  | .scan | .read | .startMove _ _ _ _ => True

instance (s : Hunt ι rows cols) : (action : HuntAction ι) → Decidable (s.Undisturbed action)
  | .removePlayer _ row col => inferInstanceAs (Decidable (s.hit ≠ some (row, col)))
  | .advance i =>
    match moving : s.movers i with
    | .call (.store p o) _ =>
      decidable_of_iff (s.hit = some p → s.maze.cells.get? p = some o) (by simp [Undisturbed, moving])
    | .call (.load _) _ | .call .wait _ | .call .post _ | .done _ => .isTrue (by simp [Undisturbed, moving])
  | .scan | .read | .startMove _ _ _ _ => .isTrue trivial

/-! ### The invariant -/

/-- The scan is to come; or the result is settled; or the avatar that was first in line is about to
be read again, and is still where it was. -/
inductive Tracked (row col : Int) (d : Direction) (s : Hunt ι rows cols) : Prop
  | waiting (unseen : s.seen = none) (laser : s.laser = mazeFindTarget rows cols row col d.code)
  | settled {seen target} (saw : s.seen = some seen) (laser : s.laser = .done target)
      (faithful : ∀ k o, FirstInLine seen d (row, col) k o → isAvatar o = true → target = o)
  | reading {seen p k o} (saw : s.seen = some seen) (laser : s.laser = .call (.load p) .done)
      (present : s.maze.cells.get? p = some o) (upper : isAvatar o = true) (first : FirstInLine seen d (row, col) k o)

variable {h h' : Hunt ι rows cols} {action : HuntAction ι} {i : ι} {o : Object}

omit [DecidableEq ι] in
theorem Tracked.faithful (tracked : h.Tracked row col d) : h.Faithful d (row, col) := by
  intro seen target saw ended
  cases tracked with
  | waiting unseen _ =>
    rw [unseen] at saw
    cases saw
  | settled saw' laser faithful =>
    obtain rfl := Option.some.inj (saw'.symm.trans saw)
    rw [result, laser] at ended
    cases ended
    exact faithful
  | reading _ laser =>
    rw [result, laser] at ended
    cases ended

omit [DecidableEq ι] in
/-- Steps of other threads that leave the cell alone keep the invariant. -/
theorem Tracked.others (tracked : h.Tracked row col d) (laser : h'.laser = h.laser) (seen : h'.seen = h.seen)
    (kept : ∀ p, h.hit = some p → h'.maze.cells.get? p = h.maze.cells.get? p) : h'.Tracked row col d := by
  cases tracked with
  | waiting unseen whole => exact .waiting (seen.trans unseen) (laser.trans whole)
  | settled saw ended faithful => exact .settled (seen.trans saw) (laser.trans ended) faithful
  | @reading _ p _ _ saw reads present upper first =>
    have hit : h.hit = some p := by simp only [Hunt.hit, saw, reads]
    exact .reading (seen.trans saw) (laser.trans reads) ((kept p hit).trans present) upper first

theorem removePlayer_cells {avatar : Object} {s t : MazeState rows cols}
    (ran : (mazeRemovePlayer avatar row col).run cellMachine s = some ((), t)) :
    t.cells.get? (row, col) = some empty ∧ ∀ p, p ≠ (row, col) → t.cells.get? p = s.cells.get? p := by
  have free : 0 < s.sem := by
    by_contra blocked
    simp [mazeRemovePlayer, mutexP, blocked] at ran
  rw [mazeRemovePlayer_run free] at ran
  obtain ⟨o, present, same⟩ := Option.map_eq_some_iff.mp ran
  obtain rfl := congrArg Prod.snd same
  dsimp only
  split
  · rename_i blank
    exact ⟨by rw [present, blank], fun _ _ => rfl⟩
  · exact ⟨Memory.get?_put_self (Memory.mem_of_get? present), fun p other => Memory.get?_put_ne other⟩

/-- A step of a mover changes at most the cell that it writes. -/
theorem advance_writes {program left : MazeProgram Int} {s t : MazeState rows cols}
    (advanced : Foundation.advance program s = some (left, t)) (p : Int × Int) :
    t.cells.get? p = s.cells.get? p ∨ ∃ o next, program = .call (.store p o) next ∧ t.cells.get? p = some o := by
  rcases advance_cells advanced with kept | ⟨a, v, next, rfl, inside, written⟩
  · exact .inl (by rw [kept])
  · by_cases here : p = a
    · subst here
      exact .inr ⟨v, next, rfl, by rw [written, Memory.get?_put_self inside]⟩
    · exact .inl (by rw [written, Memory.get?_put_ne here])

theorem step_tracked (inside : InMaze rows cols (row, col)) (tracked : h.Tracked row col d)
    (undisturbed : h.Undisturbed action) (stepped : h.step action = some h') : h'.Tracked row col d := by
  cases action with
  | scan =>
    simp only [step] at stepped
    split at stepped
    · rename_i unseen
      obtain ⟨⟨left, maze⟩, scanned, rfl⟩ := Option.map_eq_some_iff.mp stepped
      cases tracked with
      | waiting _ whole =>
        rw [whole] at scanned
        obtain ⟨rfl, outcome⟩ := mazeFindTarget_scan inside scanned
        rcases outcome with ⟨target, rfl, faithful⟩ | ⟨p, k, o, rfl, present, upper, first⟩
        · exact .settled rfl rfl faithful
        · exact .reading rfl rfl present upper first
      | settled saw | reading saw =>
        rw [saw] at unseen
        cases unseen
    · cases stepped
  | read =>
    simp only [step] at stepped
    split at stepped
    · rename_i saw
      obtain ⟨⟨left, maze⟩, advanced, rfl⟩ := Option.map_eq_some_iff.mp stepped
      cases tracked with
      | waiting unseen _ =>
        rw [unseen] at saw
        cases saw
      | settled _ laser _ =>
        rw [laser] at advanced
        cases advanced
      | reading saw laser present upper first =>
        rw [laser] at advanced
        simp only [Foundation.advance, cellMachine, present, Option.map_some, Option.some.injEq, Prod.mk.injEq] at advanced
        obtain ⟨rfl, rfl⟩ := advanced
        refine .settled saw rfl fun k o first' upper' => ?_
        exact (first.unique first' (avatar_ne_empty upper) (avatar_ne_empty upper')).2
    · cases stepped
  | removePlayer avatar row' col' =>
    obtain ⟨⟨_, maze⟩, ran, rfl⟩ := Option.map_eq_some_iff.mp stepped
    refine tracked.others rfl rfl fun p hit => (removePlayer_cells ran).2 p ?_
    rintro rfl
    exact undisturbed hit
  | startMove i row' col' dir =>
    simp only [step] at stepped
    split at stepped
    · cases stepped
      exact tracked.others rfl rfl fun _ _ => rfl
    · cases stepped
  | advance i =>
    obtain ⟨⟨program, maze⟩, advanced, rfl⟩ := Option.map_eq_some_iff.mp stepped
    refine tracked.others rfl rfl fun p hit => ?_
    rcases advance_writes advanced p with kept | ⟨o, next, moving, written⟩
    · exact kept
    · simp only [Undisturbed, moving] at undisturbed
      exact written.trans (undisturbed hit).symm

/-- An avatar that is about to be read again from a cell that no longer holds it is not the result. -/
theorem misread {seen : Maze rows cols} {k : Nat} {o' : Object} (saw : h.seen = some seen)
    (laser : h.laser = .call (.load p) .done) (first : FirstInLine seen d q k o) (upper : isAvatar o = true)
    (present : h.maze.cells.get? p = some o') (other : o' ≠ o) :
    ∃ u, h.step .read = some u ∧ ¬ u.Faithful d q := by
  refine ⟨{ h with laser := .done o' }, ?_, fun faithful => other (faithful seen o' saw rfl k o first upper)⟩
  simp [step, saw, laser, Foundation.advance, cellMachine, present]

theorem disturbed_misreads (tracked : h.Tracked row col d) (disturbed : ¬ h.Undisturbed action)
    (stepped : h.step action = some h') : ∃ u, h'.step .read = some u ∧ ¬ u.Faithful d (row, col) := by
  cases action with
  | scan | read | startMove => exact absurd trivial disturbed
  | removePlayer avatar row' col' =>
    obtain ⟨⟨_, maze⟩, ran, rfl⟩ := Option.map_eq_some_iff.mp stepped
    have hit : h.hit = some (row', col') := not_not.mp disturbed
    cases tracked with
    | waiting unseen _ => simp [Hunt.hit, unseen] at hit
    | settled saw laser _ => simp [Hunt.hit, saw, laser] at hit
    | reading saw laser _ upper first =>
      obtain rfl : _ = (row', col') := by simpa [Hunt.hit, saw, laser] using hit
      exact misread saw laser first upper (removePlayer_cells ran).1 (avatar_ne_empty upper).symm
  | advance i =>
    obtain ⟨⟨program, maze⟩, advanced, rfl⟩ := Option.map_eq_some_iff.mp stepped
    simp only [Undisturbed] at disturbed
    split at disturbed
    · rename_i p' o' next moving
      obtain ⟨hit, changed⟩ := Classical.not_imp.mp disturbed
      cases tracked with
      | waiting unseen _ => simp [Hunt.hit, unseen] at hit
      | settled saw laser _ => simp [Hunt.hit, saw, laser] at hit
      | reading saw laser present upper first =>
        obtain rfl : p' = _ := by simpa [Hunt.hit, saw, laser, eq_comm] using hit
        rw [moving] at advanced
        obtain ⟨inside, written⟩ := advance_store advanced
        have changedTo : maze.cells.get? p' = some o' := by rw [written, Memory.get?_put_self inside]
        refine misread saw laser first upper changedTo fun same => changed ?_
        rw [present, same]
    · exact absurd trivial disturbed

end Hunt

/-- If no step of another thread changes the cell of a hit before it is read again, then the result
is the avatar that the scan has seen. After every other such step the read returns something else. -/
theorem laser_target_seen {ι : Type} [DecidableEq ι] (cells : Maze rows cols) (inside : InMaze rows cols (row, col))
    (d : Direction) :
    (∀ (actions : List (HuntAction ι)) s, Guarded Hunt.step Hunt.Undisturbed (Hunt.start cells row col d) actions →
      runs Hunt.step (Hunt.start cells row col d) actions = some s → s.Faithful d (row, col)) ∧
    ∀ (actions : List (HuntAction ι)) s action t,
      Guarded Hunt.step Hunt.Undisturbed (Hunt.start cells row col d) actions →
      runs Hunt.step (Hunt.start cells row col d) actions = some s → ¬ s.Undisturbed action →
      s.step action = some t → ∃ u, t.step .read = some u ∧ ¬ u.Faithful d (row, col) := by
  have tracked : ∀ (actions : List (HuntAction ι)) s,
      Guarded Hunt.step Hunt.Undisturbed (Hunt.start cells row col d) actions →
      runs Hunt.step (Hunt.start cells row col d) actions = some s → s.Tracked row col d :=
    fun _ _ guarded ran => runs_guarded_invariant
      (fun _ _ _ tracked undisturbed stepped => Hunt.step_tracked inside tracked undisturbed stepped)
      (.waiting rfl rfl) guarded ran
  refine ⟨fun actions s guarded ran => (tracked actions s guarded ran).faithful, ?_⟩
  intro actions s action t guarded ran disturbed stepped
  exact Hunt.disturbed_misreads (tracked actions s guarded ran) disturbed stepped

/-- `A` fires along the hall, and `B` is removed between the scan and the second read. -/
theorem laser_returns_empty : ∃ s : Hunt Unit 3 6,
    runs Hunt.step (Hunt.start hall 1 1 .east) [.scan, .removePlayer 66 1 4, .read] = some s ∧
      s.result = some empty ∧ ¬ s.Faithful .east (1, 1) := by
  refine ⟨_, rfl, rfl, fun faithful => ?_⟩
  exact absurd (faithful hall empty rfl rfl 3 66 hall_first rfl) (by decide)

/-- `A` itself moves on, and is removed, before `B` is read again. -/
def fireAndLeave : List (HuntAction Unit) :=
  [.startMove () 1 1 Direction.east.code, .advance (), .scan, .advance (), .advance (), .advance (), .advance (),
    .removePlayer 65 1 2, .read]

theorem laser_target_seen_hall : ∃ s : Hunt Unit 3 6,
    runs Hunt.step (Hunt.start hall 1 1 .east) fireAndLeave = some s ∧ s.result = some 66 ∧
      s.Faithful .east (1, 1) := by
  have returns : (runs Hunt.step (Hunt.start hall 1 1 .east) fireAndLeave).map Hunt.result = some (some 66) := by decide
  obtain ⟨s, ran, result⟩ := Option.map_eq_some_iff.mp returns
  exact ⟨s, ran, result, (laser_target_seen hall hall_inner.inMaze .east).1 fireAndLeave s (by decide) ran⟩

end MazeWar
