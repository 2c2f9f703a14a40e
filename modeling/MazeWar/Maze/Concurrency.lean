import MazeWar.Foundation.Carriers
import MazeWar.Maze.Consistency

/-!
# Service threads in the maze

Any number of threads execute `maze_set_player`, `maze_move` and `maze_remove_player` one
cell access or semaphore operation at a time. `maze_move` tests the target cell and writes
it in separate steps and takes no lock, so two threads can enter one cell.
-/

namespace MazeWar
open Foundation
variable {ι : Type} [DecidableEq ι] {rows cols : Nat}

namespace Threads

inductive Call where
  | setPlayer (row col : Int)
  | move (dir : Direction)
  | removePlayer

/-- The call as the thread makes it from its tracked location, if the protocol allows it. -/
def Call.program (avatar : Object) : Call → Option (Int × Int) → Option (MazeProgram Int)
  | .setPlayer row col, none => some (mazeSetPlayer avatar row col)
  | .move dir, some place => some (mazeMove place.1 place.2 dir.code)
  | .removePlayer, some place => some do
    mazeRemovePlayer avatar place.1 place.2
    return 0
  | _, _ => none

def Call.track : Call → Option (Int × Int) → Int → Option (Int × Int)
  | .setPlayer row col, loc, result => if result = 0 then some (row, col) else loc
  | .move dir, loc, result => if result = 0 then loc.map dir.next else loc
  | .removePlayer, _, _ => none

/-- `call` is the call in progress and what remains of it. -/
structure Thread where
  loc : Option (Int × Int) := none
  call : Option (Call × MazeProgram Int) := none

structure World (ι : Type) (rows cols : Nat) where
  maze : MazeState rows cols
  threads : ι → Thread

def World.initial (start : Maze rows cols) : World ι rows cols :=
  { maze := { cells := start, sem := 1 }, threads := fun _ => {} }

inductive Action (ι : Type) where
  | start (i : ι) (call : Call)
  | advance (i : ι)
  | finish (i : ι)

def step (avatar : ι → Object) (w : World ι rows cols) : Action ι → Option (World ι rows cols)
  | .start i call =>
    match w.threads i with
    | { loc, call := none } => (call.program (avatar i) loc).map fun program =>
        { w with threads := Function.update w.threads i { loc, call := some (call, program) } }
    | _ => none
  | .advance i =>
    match w.threads i with
    | { loc, call := some (call, program) } => (advance program w.maze).map fun (rest, maze) =>
        { maze, threads := Function.update w.threads i { loc, call := some (call, rest) } }
    | _ => none
  | .finish i =>
    match w.threads i with
    | { loc, call := some (call, .done result) } =>
      some { w with threads := Function.update w.threads i { loc := call.track loc result } }
    | _ => none

/-- The thread that moves does not write its avatar over a cell that is no longer empty. -/
def TargetStillEmpty (w : World ι rows cols) : Action ι → Prop
  | .advance i =>
    match (w.threads i).call with
    | some (_, program) => StoresOnBlank empty program w.maze
    | none => True
  | .start _ _ | .finish _ => True

omit [DecidableEq ι] in
theorem targetStillEmpty_advance {w : World ι rows cols} {i : ι} {call : Call} {program : MazeProgram Int}
    (running : (w.threads i).call = some (call, program)) :
    TargetStillEmpty w (.advance i) ↔ StoresOnBlank empty program w.maze := by
  simp only [TargetStillEmpty, running]

instance (w : World ι rows cols) : (action : Action ι) → Decidable (TargetStillEmpty w action)
  | .advance i =>
    match running : (w.threads i).call with
    | some (_, program) => decidable_of_iff (StoresOnBlank empty program w.maze)
        (targetStillEmpty_advance running).symm
    | none => .isTrue (by simp [TargetStillEmpty, running])
  | .start _ _ | .finish _ => .isTrue trivial

def Quiet (w : World ι rows cols) : Prop := ∀ i, (w.threads i).call = none

/-- With no call in progress, each placed avatar is in its tracked cell and in no other. -/
def NoAvatarLost (avatar : ι → Object) (w : World ι rows cols) : Prop :=
  Quiet w → ∀ i place, (w.threads i).loc = some place →
    ∀ p, w.maze.cells.get? p = some (avatar i) ↔ p = place

/-! ### Each call carries the avatar -/

def places (loc : Option (Int × Int)) : Set (Int × Int) := {p | loc = some p}

@[simp] theorem places_none : places none = ∅ := by simp [places]

@[simp] theorem places_some {p : Int × Int} : places (some p) = {p} := by
  ext q
  simp [places, eq_comm]

abbrev Tracks (call : Call) (loc : Option (Int × Int)) (result : Int) (lies : Set (Int × Int)) : Prop :=
  lies = places (call.track loc result)

variable {avatar : Object} {row col : Int} {p q : Int × Int} {R : Int → Set (Int × Int) → Prop}

theorem carries_setPlayer (placed : R 0 {(row, col)}) (failed : R (-1) ∅) :
    Carries empty avatar R (mazeSetPlayer avatar row col) ∅ := by
  simp only [mazeSetPlayer, cell, setCell, Program.perform_bind, carries_load]
  intro o _
  split
  · exact Or.inl ⟨rfl, by simpa using placed⟩
  · exact failed

theorem carries_moveTo (visible : avatar ≠ empty) (different : q ≠ p) (moved : R 0 {q}) (blocked : R (-1) {p}) :
    Carries empty avatar R (moveTo p q) {p} := by
  have left : insert q {p} \ {p} = ({q} : Set (Int × Int)) := by
    rw [Set.insert_sdiff_of_notMem _ (by simpa using different), Set.sdiff_self]
    exact insert_empty_eq q
  simp only [moveTo, cell, setCell, Program.perform_bind, carries_load]
  intro o own
  rw [if_pos (by rw [own.mpr rfl]; exact visible), carries_load]
  intro target _
  split
  · intro again ownAgain
    exact Or.inl ⟨ownAgain.mpr rfl, Or.inr ⟨rfl, by simp, by simpa [left] using moved⟩⟩
  · exact blocked

theorem carries_removePlayer (visible : avatar ≠ empty) (removed : R 0 ∅) :
    Carries empty avatar R (do mazeRemovePlayer avatar row col; return 0) {(row, col)} := by
  simp only [mazeRemovePlayer, mutexP, mutexV, cell, setCell, Program.perform_bind, Program.call_bind,
    carries_wait, carries_load]
  intro o own
  rw [if_pos (by rw [own.mpr rfl]; exact visible)]
  exact Or.inr ⟨rfl, rfl, by simpa [Program.perform, Program.bind] using removed⟩

theorem call_carries (visible : avatar ≠ empty) {call : Call} {loc : Option (Int × Int)} {program : MazeProgram Int}
    (allowed : call.program avatar loc = some program) :
    Carries empty avatar (Tracks call loc) program (places loc) := by
  cases call with
  | setPlayer row col =>
    cases loc with
    | some place => cases allowed
    | none =>
      cases allowed
      rw [places_none]
      exact carries_setPlayer (by simp [Tracks, Call.track]) (by simp [Tracks, Call.track])
  | move dir =>
    cases loc with
    | none => cases allowed
    | some place =>
      cases allowed
      rw [places_some, mazeMove_code]
      exact carries_moveTo visible (dir.next_ne place) (by simp [Tracks, Call.track]) (by simp [Tracks, Call.track])
  | removePlayer =>
    cases loc with
    | none => cases allowed
    | some place =>
      cases allowed
      rw [places_some]
      exact carries_removePlayer visible (by simp [Tracks, Call.track])

/-! ### The invariant of one thread, and of all -/

/-- The avatar of a thread lies where the rest of its call expects it. -/
def Holds (avatar : Object) (cells : Maze rows cols) (thread : Thread) : Prop :=
  match thread.call with
  | none => LiesOn avatar cells (places thread.loc)
  | some (call, program) => ∃ lies, Carries empty avatar (Tracks call thread.loc) program lies ∧
      LiesOn avatar cells lies

def Inv (avatar : ι → Object) (w : World ι rows cols) : Prop :=
  ∀ i, Holds (avatar i) w.maze.cells (w.threads i)

section Invariant
variable {avatar : ι → Object} {w next : World ι rows cols} {action : Action ι} {i : ι}

omit [DecidableEq ι] in
theorem initial_inv {start : Maze rows cols} (bare : ∀ p i, start.get? p ≠ some (avatar i)) :
    Inv avatar (World.initial start) := by
  intro i p
  simp only [World.initial, places_none, Set.mem_empty_iff_false, iff_false]
  exact bare p i

theorem update_inv {cells : Maze rows cols} {threads : ι → Thread} {thread : Thread}
    (own : Holds (avatar i) cells thread) (others : ∀ j, j ≠ i → Holds (avatar j) cells (threads j)) :
    ∀ j, Holds (avatar j) cells (Function.update threads i thread j) := by
  intro j
  by_cases same : j = i
  · subst same
    rw [Function.update_self]
    exact own
  · rw [Function.update_of_ne same]
    exact others j same

theorem Holds.lies {o : Object} {cells : Maze rows cols} {thread : Thread} (holds : Holds o cells thread) :
    ∃ lies, LiesOn o cells lies ∧ ∀ cells' : Maze rows cols, LiesOn o cells' lies → Holds o cells' thread := by
  unfold Holds at holds ⊢
  split at holds
  · exact ⟨_, holds, fun _ later => later⟩
  · obtain ⟨lies, carries, holds⟩ := holds
    exact ⟨lies, holds, fun _ later => ⟨lies, carries, later⟩⟩

theorem step_inv (tokens : ∀ i, avatar i ≠ empty) (distinct : Function.Injective avatar) (inv : Inv avatar w)
    (guard : TargetStillEmpty w action) (stepped : step avatar w action = some next) : Inv avatar next := by
  cases action with
  | start i call =>
    simp only [step] at stepped
    split at stepped
    · rename_i loc idle
      obtain ⟨program, allowed, rfl⟩ := Option.map_eq_some_iff.mp stepped
      refine update_inv ⟨places loc, call_carries (tokens i) allowed, ?_⟩ fun j _ => inv j
      have own := inv i
      rwa [idle] at own
    · cases stepped
  | advance i =>
    simp only [step] at stepped
    split at stepped
    · rename_i loc call program running
      obtain ⟨⟨rest, maze⟩, advanced, rfl⟩ := Option.map_eq_some_iff.mp stepped
      have clear := (targetStillEmpty_advance (by rw [running])).mp guard
      have own := inv i
      rw [running] at own
      obtain ⟨lies, carries, own⟩ := own
      -- The step moves the thread's own avatar as `Carries` says and leaves the others in place.
      refine update_inv (advance_own (tokens i) carries own advanced) fun j other => ?_
      obtain ⟨elsewhere, holds, keep⟩ := (inv j).lies
      exact keep _ (advance_other (tokens i) (tokens j) (fun same => other (distinct same).symm) carries own
        clear holds advanced)
    · cases stepped
  | finish i =>
    simp only [step] at stepped
    split at stepped
    · rename_i loc call result returned
      cases stepped
      refine update_inv ?_ fun j _ => inv j
      have own := inv i
      rw [returned] at own
      obtain ⟨lies, rfl, own⟩ := own
      exact own
    · cases stepped

/-- In every run in which no thread writes its avatar over a cell that has filled up since it was
tested, no avatar is lost. -/
theorem no_avatar_lost (avatar : ι → Object) (distinct : Function.Injective avatar)
    (upper : ∀ i, isAvatar (avatar i) = true) (start : Maze rows cols)
    (bare : ∀ p i, start.get? p ≠ some (avatar i)) (actions : List (Action ι)) (w : World ι rows cols)
    (ran : runs (step avatar) (World.initial start) actions = some w)
    (guarded : Guarded (step avatar) TargetStillEmpty (World.initial start) actions) : NoAvatarLost avatar w := by
  intro quiet i place located p
  have inv : Inv avatar w := runs_guarded_invariant
    (fun _ _ _ inv guard stepped => step_inv (fun i => avatar_ne_empty (upper i)) distinct inv guard stepped)
    (initial_inv bare) guarded ran
  have own := inv i
  rw [Holds, quiet i, located, places_some] at own
  exact own p

end Invariant

/-! ### The race

`A` and `B` stand at the two ends of the corridor and move towards each other. Both find the
middle cell empty before either has written it; the second to write erases the first. -/

open Game (corridorMaze avatarAB)

def enter (i : Bool) (row col : Int) : List (Action Bool) :=
  [.start i (.setPlayer row col), .advance i, .advance i, .finish i]

def collision : List (Action Bool) :=
  enter false 1 1 ++ enter true 1 3 ++
  [.start false (.move .east), .advance false, .advance false,
    .start true (.move .west), .advance true, .advance true, .advance true, .advance true, .advance true,
    .finish true,
    .advance false, .advance false, .advance false, .finish false]

theorem avatar_lost_in_corridor : ¬ ∀ actions (w : World Bool 3 5),
    runs (step avatarAB) (World.initial corridorMaze) actions = some w → NoAvatarLost avatarAB w := by
  intro kept
  have seen : (runs (step avatarAB) (World.initial corridorMaze) collision).map (fun w =>
      ((w.threads false).call.isNone, (w.threads true).call.isNone, (w.threads true).loc,
        w.maze.cells.get? (1, 2))) = some (true, true, some (1, 2), some 65) := by decide
  obtain ⟨w, ran, outcome⟩ := Option.map_eq_some_iff.mp seen
  simp only [Prod.mk.injEq, Option.isNone_iff_eq_none] at outcome
  obtain ⟨idleA, idleB, located, middle⟩ := outcome
  have quiet : Quiet w := by rintro (_ | _) <;> assumption
  have expected := (kept collision w ran quiet true (1, 2) located (1, 2)).mpr rfl
  rw [middle] at expected
  exact absurd (Option.some.inj expected) (by decide)

/-- The two moves one after the other: the second finds the middle taken and fails. -/
def orderly : List (Action Bool) :=
  enter false 1 1 ++ enter true 1 3 ++
  [.start false (.move .east), .advance false, .advance false, .advance false, .start true (.move .west),
    .advance true, .advance false, .advance false, .finish false, .advance true, .finish true]

theorem no_avatar_lost_orderly : ∃ w : World Bool 3 5,
    runs (step avatarAB) (World.initial corridorMaze) orderly = some w ∧ NoAvatarLost avatarAB w := by
  have returns : (runs (step avatarAB) (World.initial corridorMaze) orderly).isSome := by decide
  obtain ⟨w, ran⟩ := Option.isSome_iff_exists.mp returns
  exact ⟨w, ran, no_avatar_lost avatarAB (by decide) (by decide) corridorMaze
    (Game.no_avatar Game.corridorMaze_walled (by decide)) orderly w ran (by decide)⟩

end Threads
end MazeWar
