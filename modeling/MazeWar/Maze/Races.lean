import MazeWar.Foundation.Reliance
import MazeWar.Maze.Exclusion
import MazeWar.Maze.Target

/-!
# What calls see of each other

Threads set, remove and move players and look around, and their accesses interleave in any way. The
walls stay where they are, and whatever a call returns is accounted for by what the cells have held
while it was going on.
-/

namespace MazeWar
open Foundation
variable {rows cols : Nat} {rely grant seen : Int × Int → Object → Prop} {p q : Int × Int} {row col dir gaze depth : Int}
  {avatar target o : Object} {view filled : View} {d : Direction} {k : Nat}

/-! ### Answers -/

/-- The cells before the one `k` steps away have been seen blank. -/
structure Unobstructed (seen : Int × Int → Object → Prop) (d : Direction) (p : Int × Int) (k : Nat) : Prop where
  away : 1 ≤ k
  before : ∀ j, 1 ≤ j → j < k → seen (d.next^[j] p) empty

/-- What a search has seen: blanks up to the boundary; something that was not an avatar when it was
looked at again; or an avatar, with what its cell held after that as the target. -/
inductive Sighted (rows cols : Nat) (seen : Int × Int → Object → Prop) (d : Direction) (p : Int × Int) : Object → Prop
  | nothing (blank : ∀ j, 1 ≤ j → InMaze rows cols (d.next^[j] p) → seen (d.next^[j] p) empty) :
    Sighted rows cols seen d p empty
  | stopped {k : Nat} {o o' : Object} (line : Unobstructed seen d p k) (first : seen (d.next^[k] p) o) (solid : o ≠ empty)
    (again : seen (d.next^[k] p) o') (other : isAvatar o' = false) : Sighted rows cols seen d p empty
  | hit {k : Nat} {o target : Object} (line : Unobstructed seen d p k) (first : seen (d.next^[k] p) o)
      (upper : isAvatar o = true)
    (again : seen (d.next^[k] p) target) : Sighted rows cols seen d p target

/-- Each entry of the rows below `stop` has been seen in its cell; the other rows are those of `old`. -/
structure Glimpsed (seen : Int × Int → Object → Prop) (d : Direction) (p : Int × Int) (old : View) (stop : Int)
    (view : View) : Prop where
  rows : ∀ i, 0 ≤ i → i < stop → seen (d.turnLeft.next (d.ahead i p)) (view i leftWall) ∧
    seen (d.ahead i p) (view i corridor) ∧ seen (d.turnRight.next (d.ahead i p)) (view i rightWall)
  rest : ∀ i j, ¬ (0 ≤ i ∧ i < stop) → view i j = old i j

/-- The value that a call returns is accounted for by what its cells have been seen to hold. -/
def MazeFunction.Answered (rows cols : Nat) (seen : Int × Int → Object → Prop) : MazeFunction → MazeValue → Prop
  | setPlayer _ row col, value =>
    (value = .code 0 ∧ seen (row, col) empty) ∨ (value = .code (-1) ∧ ∃ o, o ≠ empty ∧ seen (row, col) o)
  | removePlayer _ _ _, value => value = .nothing
  | move row col dir, value =>
    (value = .code 0 ∧ ∃ d : Direction, dir = d.code ∧ seen (d.next (row, col)) empty ∧
      ∃ o, o ≠ empty ∧ seen (row, col) o) ∨
    (value = .code (-1) ∧ (seen (row, col) empty ∨ ∀ d : Direction, dir = d.code →
      ∃ o, o ≠ empty ∧ seen (d.next (row, col)) o))
  | findTarget row col dir, value => ∃ target, value = .target target ∧
    (∀ d : Direction, dir = d.code → Sighted rows cols seen d (row, col) target) ∧
    ((∀ d : Direction, dir ≠ d.code) → target = empty)
  | getView view row col gaze depth, value => ∃ reached filled, value = .shown reached filled ∧
    (∀ d : Direction, gaze = d.code → reached = viewReach rows cols d (row, col) depth ∧
      Glimpsed seen d (row, col) view reached filled) ∧
    ((∀ d : Direction, gaze ≠ d.code) → reached = -1 ∧ filled = view)

/-- What the call stores, given what it has loaded, is granted. -/
def MazeFunction.Grants (rely grant : Int × Int → Object → Prop) : MazeFunction → Prop
  | setPlayer avatar row col => rely (row, col) empty → grant (row, col) avatar
  | removePlayer _ row col => ∀ o, o ≠ empty → rely (row, col) o → grant (row, col) empty
  | move row col dir => ∀ d : Direction, dir = d.code → rely (d.next (row, col)) empty →
    ∀ o o', o ≠ empty → rely (row, col) o → rely (row, col) o' → grant (d.next (row, col)) o' ∧ grant (row, col) empty
  | findTarget _ _ _ | getView _ _ _ _ _ => True

/-! ### Each function -/

theorem mazeSetPlayer_secures (granted : rely (row, col) empty → grant (row, col) avatar) :
    Secures rely grant (fun result => (result = 0 ∧ rely (row, col) empty) ∨
      (result = -1 ∧ ∃ o, o ≠ empty ∧ rely (row, col) o)) (mazeSetPlayer avatar row col) := by
  intro o held
  show Secures rely grant _ (if o = empty then _ else _ : MazeProgram Int)
  split
  · rename_i blank
    subst blank
    exact ⟨granted held, .inl ⟨rfl, held⟩⟩
  · rename_i solid
    exact .inr ⟨rfl, o, solid, held⟩

theorem mazeRemovePlayer_secures (granted : ∀ o, o ≠ empty → rely (row, col) o → grant (row, col) empty) :
    Secures rely grant (fun _ => True) (mazeRemovePlayer avatar row col) := by
  intro o held
  show Secures rely grant _ (if o ≠ empty then _ else _ : MazeProgram Unit)
  split
  · rename_i solid
    exact ⟨granted o solid held, trivial⟩
  · trivial

theorem moveTo_secures (granted : rely q empty → ∀ o o', o ≠ empty → rely p o → rely p o' → grant q o' ∧ grant p empty) :
    Secures rely grant (fun result => (result = 0 ∧ rely q empty ∧ ∃ o, o ≠ empty ∧ rely p o) ∨
      (result = -1 ∧ (rely p empty ∨ ∃ o, o ≠ empty ∧ rely q o))) (moveTo p q) := by
  intro o held
  show Secures rely grant _ (if o ≠ empty then _ else _ : MazeProgram Int)
  split
  · rename_i solid
    intro target ahead
    show Secures rely grant _ (if target = empty then _ else _ : MazeProgram Int)
    split
    · rename_i clear
      subst clear
      intro again heldAgain
      obtain ⟨arrives, leaves⟩ := granted ahead o again solid held heldAgain
      exact ⟨arrives, leaves, .inl ⟨rfl, ahead, o, solid, held⟩⟩
    · rename_i taken
      exact .inr ⟨rfl, .inr ⟨target, taken, ahead⟩⟩
  · rename_i blank
    rw [not_not] at blank
    exact .inr ⟨rfl, .inl (blank ▸ held)⟩

theorem mazeMove_secures (granted : (MazeFunction.move row col dir).Grants rely grant) :
    Secures rely grant (fun result => (MazeFunction.move row col dir).Answered rows cols rely (.code result))
      (mazeMove row col dir) := by
  by_cases known : ∃ d : Direction, dir = d.code
  · obtain ⟨d, rfl⟩ := known
    rw [mazeMove_code]
    refine (moveTo_secures (granted d rfl)).mono fun result answer => ?_
    rcases answer with ⟨rfl, ahead, held⟩ | ⟨rfl, blank | taken⟩
    · exact .inl ⟨rfl, d, rfl, ahead, held⟩
    · exact .inr ⟨rfl, .inl blank⟩
    · exact .inr ⟨rfl, .inr fun d' code => Direction.code_injective code ▸ taken⟩
  · have unknown : ∀ d : Direction, dir ≠ d.code := fun d same => known ⟨d, same⟩
    have fails : (MazeFunction.move row col dir).Answered rows cols rely (.code (-1)) :=
      .inr ⟨rfl, .inr fun d code => absurd code (unknown d)⟩
    unfold mazeMove
    simp only [if_neg (unknown _)]
    intro o _
    show Secures rely grant _ (if o ≠ empty then _ else _ : MazeProgram Int)
    split
    · exact fails
    · exact fails

/-! ### The search -/

theorem scanCell_secures (rows cols : Nat) (line : Unobstructed rely d p k) (place : d.next^[k] p = (row, col)) :
    Secures rely grant (LeavesOr (fun found => ∃ target, found = some target ∧ Sighted rows cols rely d p target)
      fun found => found = none ∧ rely (row, col) empty) (scanCell row col) := by
  intro o held
  show Secures rely grant _ (if o ≠ empty then _ else _ : MazeProgram _)
  split
  · rename_i solid
    intro o' heldAgain
    show Secures rely grant _ (if isAvatar o' = true then _ else _ : MazeProgram _)
    rw [← place] at held heldAgain
    split
    · rename_i upper
      intro target heldLast
      rw [← place] at heldLast
      exact ⟨target, rfl, .hit line heldAgain upper heldLast⟩
    · rename_i other
      exact ⟨empty, rfl, .stopped line held solid heldAgain (Bool.eq_false_of_not_eq_true other)⟩
  · rename_i blank
    rw [not_not] at blank
    exact ⟨rfl, blank ▸ held⟩

theorem scanAlong_secures (inside : InMaze rows cols p) :
    Secures rely grant (fun found => Sighted rows cols rely d p (found.getD empty)) (scanAlong rows cols d p) := by
  refine Secures.loop (fun k found => found = none ∧ Unobstructed rely d p (k + 1)) ⟨rfl, by omega, by omega⟩ ?_ ?_
  · intro k found below inv
    obtain ⟨rfl, line⟩ := inv
    rw [zero_add, mul_one]
    have place : d.next^[k + 1] p = d.ahead (k + 1) p := scanned_eq d p k |>.symm
    refine (scanCell_secures rows cols line place).mono fun outcome holds => ?_
    cases outcome with
    | done found =>
      obtain ⟨target, rfl, sighted⟩ := holds
      exact sighted
    | yield found =>
      obtain ⟨rfl, blank⟩ := holds
      refine ⟨rfl, by omega, fun j away before => ?_⟩
      rcases Nat.lt_succ_iff_lt_or_eq.mp before with earlier | rfl
      · exact line.before j away earlier
      · rw [place]
        exact blank
  · intro found inv
    obtain ⟨rfl, line⟩ := inv
    refine .nothing fun j away within => line.before j away ?_
    have near := (d.iterate_inMaze_iff inside j).mp within
    omega

theorem searchWith_secures {scan : MazeProgram (Option Object)} {Q : Object → Prop}
    (scans : Secures rely grant (fun found => Q (found.getD empty)) scan) : Secures rely grant Q (searchWith scan) := by
  unfold searchWith
  simp only [mutexP, Program.perform_bind, secures_wait]
  refine scans.bind fun found holds => ?_
  cases found with
  | none => exact holds
  | some target => exact holds

theorem mazeFindTarget_secures (inside : InMaze rows cols (row, col)) :
    Secures rely grant (fun target => (MazeFunction.findTarget row col dir).Answered rows cols rely (.target target))
      (mazeFindTarget rows cols row col dir) := by
  by_cases known : ∃ d : Direction, dir = d.code
  · obtain ⟨d, rfl⟩ := known
    rw [mazeFindTarget_code inside]
    refine searchWith_secures ((scanAlong_secures inside).mono fun found sighted => ?_)
    exact ⟨_, rfl, fun d' code => Direction.code_injective code ▸ sighted, fun unknown => absurd rfl (unknown d)⟩
  · have unknown : ∀ d : Direction, dir ≠ d.code := fun d same => known ⟨d, same⟩
    rw [mazeFindTarget_unknown unknown]
    exact searchWith_secures ⟨empty, rfl, fun d code => absurd code (unknown d), fun _ => rfl⟩

/-! ### The view -/

def View.setRow (view : View) (i : Int) (l o r : Object) : View :=
  ((view.set i leftWall l).set i corridor o).set i rightWall r

theorem View.setRow_at (view : View) (i : Int) (l o r : Object) :
    view.setRow i l o r i leftWall = l ∧ view.setRow i l o r i corridor = o ∧ view.setRow i l o r i rightWall = r := by
  refine ⟨?_, ?_, View.set_at _ _ _ _⟩
  · rw [setRow, View.set_other _ _ (.inr (by decide)), View.set_other _ _ (.inr (by decide)), View.set_at]
  · rw [setRow, View.set_other _ _ (.inr (by decide)), View.set_at]

theorem View.setRow_other (view : View) {i i' : Int} (j : Int) (l o r : Object) (other : i' ≠ i) :
    view.setRow i l o r i' j = view i' j := by
  rw [setRow, View.set_other _ _ (.inl other), View.set_other _ _ (.inl other), View.set_other _ _ (.inl other)]

theorem Glimpsed.add {i : Int} {l r : Object} (glimpsed : Glimpsed seen d p view i filled) (low : 0 ≤ i)
    (left : seen (d.turnLeft.next (d.ahead i p)) l) (middle : seen (d.ahead i p) o)
    (right : seen (d.turnRight.next (d.ahead i p)) r) : Glimpsed seen d p view (i + 1) (filled.setRow i l o r) := by
  constructor
  · intro k from_zero before
    by_cases last : k = i
    · subst last
      obtain ⟨first, second, third⟩ := filled.setRow_at k l o r
      rw [first, second, third]
      exact ⟨left, middle, right⟩
    · rw [View.setRow_other _ _ _ _ _ last, View.setRow_other _ _ _ _ _ last, View.setRow_other _ _ _ _ _ last]
      exact glimpsed.rows k from_zero (by omega)
  · intro k j outside
    rw [View.setRow_other _ _ _ _ _ (by omega)]
    exact glimpsed.rest k j (by omega)

theorem viewAlong_secures : Secures rely grant (fun result => result.1 = viewReach rows cols d p depth ∧
    Glimpsed rely d p view result.1 result.2) (viewAlong rows cols view d p depth) := by
  refine Secures.bind (R := Glimpsed rely d p view (viewReach rows cols d p depth)) ?_ fun filled glimpsed => ⟨rfl, glimpsed⟩
  refine Secures.loop (fun k filled => Glimpsed rely d p view k filled) ⟨by omega, fun _ _ _ => rfl⟩ ?_ ?_
  · intro k filled below glimpsed
    rw [zero_add, mul_one]
    intro l left o middle r right
    have next := glimpsed.add (Int.natCast_nonneg k) left middle right
    rw [← Nat.cast_succ] at next
    exact next
  · intro filled glimpsed
    refine ⟨fun i low high => glimpsed.rows i low (by omega), fun i j outside => glimpsed.rest i j (by omega)⟩

theorem mazeGetView_secures : Secures rely grant
    (fun result => (MazeFunction.getView view row col gaze depth).Answered rows cols rely (.shown result.1 result.2))
    (mazeGetView rows cols view row col gaze depth) := by
  by_cases known : ∃ d : Direction, gaze = d.code
  · obtain ⟨d, rfl⟩ := known
    rw [mazeGetView_code]
    refine viewAlong_secures.mono fun result answer => ?_
    exact ⟨_, _, rfl, fun d' code => Direction.code_injective code ▸ answer, fun unknown => absurd rfl (unknown d)⟩
  · have unknown : ∀ d : Direction, gaze ≠ d.code := fun d same => known ⟨d, same⟩
    rw [mazeGetView_unknown unknown]
    exact ⟨_, _, rfl, fun d code => absurd code (unknown d), fun _ => ⟨rfl, rfl⟩⟩

/-! ### All calls -/

theorem MazeFunction.program_secures {f : MazeFunction} (inside : f.InBounds rows cols) (granted : f.Grants rely grant) :
    Secures rely grant (f.Answered rows cols rely) (f.program rows cols) := by
  cases f with
  | setPlayer avatar row col =>
    refine (mazeSetPlayer_secures granted).bind fun result answer => ?_
    rcases answer with ⟨rfl, blank⟩ | ⟨rfl, held⟩
    · exact .inl ⟨rfl, blank⟩
    · exact .inr ⟨rfl, held⟩
  | removePlayer avatar row col => exact (mazeRemovePlayer_secures granted).bind fun _ _ => rfl
  | move row col dir => exact (mazeMove_secures granted).bind fun _ answer => answer
  | findTarget row col dir => exact (mazeFindTarget_secures inside).bind fun _ answer => answer
  | getView view row col gaze depth => exact mazeGetView_secures.bind fun _ answer => answer

theorem MazeFunction.all_secures {fs : List MazeFunction} (inside : ∀ f ∈ fs, f.InBounds rows cols)
    (granted : ∀ f ∈ fs, f.Grants rely grant) :
    Secures rely grant (fun values => List.Forall₂ (Answered rows cols rely) fs values) (all rows cols fs) := by
  induction fs with
  | nil => exact .nil
  | cons f rest ih =>
    rw [List.forall_mem_cons] at inside granted
    refine (program_secures inside.1 granted.1).bind fun value answered => ?_
    exact (ih inside.2 granted.2).bind fun values others => .cons answered others

/-! ### Walls -/

/-- The walls of the start, and blanks and avatars in the other cells. -/
def Furnished (start : Maze rows cols) (p : Int × Int) (o : Object) : Prop :=
  ∀ w, start.get? p = some w → if isWall w then o = w else o = empty ∨ isAvatar o = true

/-- The call brings an avatar, and does not name a wall of the start as the place of a player. -/
def MazeFunction.Spares (start : Maze rows cols) : MazeFunction → Prop
  | setPlayer avatar _ _ => isAvatar avatar = true
  | removePlayer _ row col | move row col _ => ∀ w, start.get? (row, col) = some w → isWall w = false
  | findTarget _ _ _ | getView _ _ _ _ _ => True

section Walls
variable {start : Maze rows cols}

theorem Furnished.put (blank : Furnished start p empty) (plain : o = empty ∨ isAvatar o = true) : Furnished start p o := by
  intro w present
  have held := blank w present
  split at held
  · rename_i wall
    exact absurd held.symm (wall_ne_empty wall)
  · rename_i open_
    rw [if_neg open_]
    exact plain

theorem Furnished.plain (held : Furnished start p o) (inside : InMaze rows cols p)
    (spared : ∀ w, start.get? p = some w → isWall w = false) : o = empty ∨ isAvatar o = true := by
  obtain ⟨w, present⟩ := Memory.exists_get? (m := start) inside
  have here := held w present
  rwa [spared w present, if_neg (by decide)] at here

theorem furnished_empty (spared : ∀ w, start.get? p = some w → isWall w = false) : Furnished start p empty := by
  intro w present
  rw [spared w present, if_neg (by decide)]
  exact .inl rfl

theorem furnished_start (kind : isWall o = true ∨ o = empty ∨ isAvatar o = true) (present : start.get? p = some o) :
    Furnished start p o := by
  intro w same
  obtain rfl := Option.some.inj (present.symm.trans same)
  split
  · rfl
  · rename_i open_
    exact kind.resolve_left open_

theorem MazeFunction.grants_furnished {f : MazeFunction} (inside : f.InBounds rows cols) (spares : f.Spares start) :
    f.Grants (Furnished start) (Furnished start) := by
  cases f with
  | setPlayer avatar row col => exact fun blank => blank.put (.inr spares)
  | removePlayer avatar row col => exact fun _ _ _ => furnished_empty spares
  | move row col dir =>
    intro d _ ahead o o' _ _ held
    exact ⟨ahead.put (held.plain inside.1 spares), furnished_empty spares⟩
  | findTarget row col dir | getView view row col gaze depth => trivial

/-- Threads make calls in the bounds of the maze, on players that are not in walls. In every interleaving
the walls stay where they are and no other cell becomes one; and what a call returns is accounted for by
what its cells have held from the moment at which it was made. -/
theorem calls_answered {ι : Type} [DecidableEq ι] {start : Maze rows cols}
    (furnished : ∀ p o, start.get? p = some o → isWall o = true ∨ o = empty ∨ isAvatar o = true)
    {calls : ι → List MazeFunction} (allowed : ∀ i, ∀ f ∈ calls i, f.InBounds rows cols ∧ f.Spares start) {schedule : List ι}
    {pool : Pool ι (CellOp (Int × Int) Object) CellOp.Res (List MazeValue) (MazeState rows cols)}
    (ran : runs (Pool.step cellMachine) (mazeThreads start calls) schedule = some pool) :
    Holding (Furnished start) pool.shared.cells ∧
    ∀ i f rest, pool.left i = MazeFunction.all rows cols (f :: rest) → f.InBounds rows cols →
      ∀ during t values, runs (Pool.step cellMachine) pool during = some t → t.left i = .done values →
        ∃ value others, values = value :: others ∧
          f.Answered rows cols (fun p o => pool.Seen during p o ∧ Furnished start p o) value := by
  have secured : Pool.Secured (Furnished start) pool := by
    refine Pool.Secured.runs ⟨fun i => ?_, fun p o present => furnished_start (furnished p o present) present⟩ ran
    exact (MazeFunction.all_secures (fun f member => (allowed i f member).1)
      fun f member => MazeFunction.grants_furnished (allowed i f member).1 (allowed i f member).2).mono fun _ _ => trivial
  refine ⟨secured.cells, fun i f rest called inside during t values continued ended => ?_⟩
  -- What the call stores is of no concern here, only what it loads.
  have own : Secures (fun p o => pool.Seen during p o ∧ Furnished start p o) (fun _ _ => True)
      (fun values => ∃ value others, values = value :: others ∧
        f.Answered rows cols (fun p o => pool.Seen during p o ∧ Furnished start p o) value) (pool.left i) := by
    rw [called]
    refine (MazeFunction.program_secures inside ?_).bind fun value answered => ?_
    · cases f <;> simp [MazeFunction.Grants]
    · exact (secures_anything _).bind fun others _ => ⟨value, others, rfl, answered⟩
  have returned := Pool.secures_runs (fun p o seen => ⟨seen, secured.seen seen⟩) own continued
  rw [ended] at returned
  exact returned

end Walls

theorem hall_furnished (p : Int × Int) (o : Object) (present : hall.get? p = some o) :
    isWall o = true ∨ o = empty ∨ isAvatar o = true := by
  obtain ⟨inside, rfl⟩ := Memory.get?_eq_some_iff.mp present
  unfold hall
  split_ifs <;> decide

/-- `A` looks along the hall and `B`, whom it sees, leaves before it looks again. -/
def lookAndLeave : Bool → List MazeFunction
  | false => [.findTarget 1 1 Direction.east.code]
  | true => [.move 1 4 Direction.west.code]

theorem lookAndLeave_allowed (i : Bool) (f : MazeFunction) (member : f ∈ lookAndLeave i) :
    f.InBounds 3 6 ∧ f.Spares hall := by
  cases i with
  | false =>
    obtain rfl := List.mem_singleton.mp member
    exact ⟨show InMaze 3 6 (1, 1) by decide, trivial⟩
  | true =>
    obtain rfl := List.mem_singleton.mp member
    refine ⟨⟨by decide, fun d code => ?_⟩, fun w present => ?_⟩
    · obtain rfl : d = .west := Direction.code_injective code.symm
      decide
    · obtain rfl := Option.some.inj (present.symm.trans (show hall.get? (1, 4) = some 66 from rfl))
      decide

theorem calls_answered_hall : ∃ t, runs (Pool.step cellMachine) (mazeThreads hall lookAndLeave)
      [false, false, false, false, true, true, true, true, true, false, false] = some t ∧
    Holding (Furnished hall) t.shared.cells ∧
    (MazeFunction.findTarget 1 1 Direction.east.code).Answered 3 6 (fun p o => (mazeThreads hall lookAndLeave).Seen
      [false, false, false, false, true, true, true, true, true, false, false] p o ∧ Furnished hall p o)
      (.target empty) := by
  have left : (runs (Pool.step cellMachine) (mazeThreads hall lookAndLeave)
      [false, false, false, false, true, true, true, true, true, false, false]).map (fun t => t.left false) =
      some (.done [.target empty]) := rfl
  obtain ⟨t, ran, ended⟩ := Option.map_eq_some_iff.mp left
  have began : runs (Pool.step cellMachine) (mazeThreads hall lookAndLeave) [] = some (mazeThreads hall lookAndLeave) := rfl
  obtain ⟨_, answered⟩ := calls_answered hall_furnished lookAndLeave_allowed began
  obtain ⟨value, others, same, answer⟩ := answered false (.findTarget 1 1 Direction.east.code) [] rfl
    (show InMaze 3 6 (1, 1) by decide) _ t _ ran ended
  obtain ⟨rfl, rfl⟩ := List.cons.inj same
  exact ⟨t, ran, (calls_answered hall_furnished lookAndLeave_allowed ran).1, answer⟩

end MazeWar
