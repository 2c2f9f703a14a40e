import Mathlib.Data.List.TakeWhile
import MazeWar.Maze.Model

/-!
# Building the maze

`maze_init` takes the number of rows from `sizeof(template)`, the size of a pointer, so it builds
the template as it is exactly when that has eight rows.
-/

namespace MazeWar
open Foundation

/-- A rectangle of characters: what the NULL-terminated array of strings stands for. -/
structure Template where
  lines : List (List Object)
  width : Nat
  tall : 0 < lines.length
  wide : 0 < width
  rectangular : ∀ line ∈ lines, line.length = width
  text : ∀ line ∈ lines, (0 : Object) ∉ line

/-- `sizeof(char **)` on the LP64 hosts that the program is built for. -/
def sizeofPointer : Nat := 8

/-- The conversion of a `size_t` to `int`. -/
@[irreducible] def toInt (size : Nat) : Int := (size : Int).bmod 0x100000000

/-- The characters of a string up to its terminator. -/
def strlen (line : List Object) : Nat := (line.takeWhile (· ≠ 0)).length

/-- The blocks that `the_maze` points to. -/
structure Grid where
  rows : Nat
  cols : Nat
  cells : Maze rows cols

/-- The global variables of `maze.c`. -/
structure Globals where
  theRow : Int
  theCol : Int
  theMaze : Grid
  mutex : Nat

inductive InitOp where
  | length (i : Int)
  | entry (i j : Int)
  | setCol (value : Int)
  | setRow (value : Int)
  | allocate
  | store (i j : Int) (o : Object)
  | semInit (value : Nat)
  deriving DecidableEq

abbrev InitOp.Res : InitOp → Type
  | .length _ => Nat
  | .entry _ _ => Object
  | .setCol _ | .setRow _ | .allocate | .store _ _ _ | .semInit _ => Unit

/-- The index of the template entry that the operation follows. -/
def InitOp.reads : InitOp → Option Int
  | .length i | .entry i _ => some i
  | .setCol _ | .setRow _ | .allocate | .store _ _ _ | .semInit _ => none

/-- `template[i]`: the NULL at the end and what lies behind it are not strings. -/
def string (lines : List (List Object)) (i : Int) : Option (List Object) :=
  if 0 ≤ i then lines[i.toNat]? else none

/-- `template[i][j]`, the terminator included. -/
def character (lines : List (List Object)) (i j : Int) : Option Object :=
  if 0 ≤ j then (string lines i).bind fun line => (line ++ [0])[j.toNat]? else none

/-- Fresh blocks hold `junk`. -/
def initMachine (lines : List (List Object)) (junk : (rows cols : Nat) → Maze rows cols) :
    Machine InitOp InitOp.Res Globals
  | .length i, g => (string lines i).map fun line => (strlen line, g)
  | .entry i j, g => (character lines i j).map fun o => (o, g)
  | .setCol value, g => some ((), { g with theCol := value })
  | .setRow value, g => some ((), { g with theRow := value })
  | .allocate, g =>
    some ((), { g with theMaze := ⟨g.theRow.toNat, g.theCol.toNat, junk g.theRow.toNat g.theCol.toNat⟩ })
  | .store i j o, g =>
    if InMaze g.theMaze.rows g.theMaze.cols (i, j) then
      some ((), { g with theMaze := { g.theMaze with cells := g.theMaze.cells.put (i, j) o } })
    else none
  | .semInit value, g => some ((), { g with mutex := value })

abbrev InitProgram := Program InitOp InitOp.Res

def copyCell (i j : Int) : InitProgram (ForInStep Unit) := do
  if (← Program.perform (InitOp.entry i j)) = empty then
    Program.perform (InitOp.store i j empty)
  else
    Program.perform (InitOp.store i j (← Program.perform (InitOp.entry i j)))
  return .yield ()

def mazeInit (template : Bool) : InitProgram Unit := do
  if template then
    let theCol := toInt (← Program.perform (InitOp.length 0))
    Program.perform (InitOp.setCol theCol)
    let theRow := toInt sizeofPointer
    Program.perform (InitOp.setRow theRow)
    Program.perform InitOp.allocate
    Program.forUp 0 theRow () fun i _ => do
      Program.forUp 0 theCol () fun j _ => copyCell i j
      return .yield ()
  Program.perform (InitOp.semInit 1)

def mazeGetRows (g : Globals) : Int := g.theRow

def mazeGetCols (g : Globals) : Int := g.theCol

variable {lines : List (List Object)} {junk : (rows cols : Nat) → Maze rows cols} {g t : Globals} {i j : Int}
  {o : Object} {width : Nat}

/-! ### What is read and stored -/

def Globals.put (g : Globals) (i j : Int) (o : Object) : Globals :=
  { g with theMaze := { g.theMaze with cells := g.theMaze.cells.put (i, j) o } }

theorem copyCell_run (read : character lines i j = some o) (inside : InMaze g.theMaze.rows g.theMaze.cols (i, j)) :
    (copyCell i j).run (initMachine lines junk) g = some (.yield (), g.put i j o) := by
  by_cases blank : o = empty
  · simp [copyCell, Program.run_call, initMachine, read, blank, inside, Globals.put]
  · simp [copyCell, Program.run_call, initMachine, read, blank, inside, Globals.put]

theorem reads_string {op : InitOp} (executed : (initMachine lines junk op g).isSome) {i : Int}
    (reads : op.reads = some i) : 0 ≤ i ∧ i < lines.length := by
  have found : (string lines i).isSome := by
    cases op with
    | length k =>
      cases reads
      cases entry : string lines i with
      | none => simp [initMachine, entry] at executed
      | some line => rfl
    | entry k j =>
      cases reads
      cases entry : string lines i with
      | none => simp [initMachine, character, entry] at executed
      | some line => rfl
    | setCol value | setRow value | allocate | store k j o | semInit value => cases reads
  unfold string at found
  split at found
  · rename_i low
    have bound : i.toNat < lines.length := by
      by_contra outside
      rw [List.getElem?_eq_none (not_lt.mp outside)] at found
      cases found
    exact ⟨low, by omega⟩
  · cases found

/-! ### The loops -/

theorem character_eq {chars : List Object} (i j : Nat) (row : lines[i]? = some chars) (bound : j < chars.length) :
    character lines i j = chars[j]? := by
  simp [character, string, row, List.getElem?_append_left bound]

theorem Template.character (template : Template) (inside : InMaze template.lines.length template.width (i, j)) :
    ∃ o, character template.lines i j = some o := by
  obtain ⟨above, below, left, right⟩ := inside
  simp only at above below left right
  lift i to Nat using above
  lift j to Nat using left
  have low : i < template.lines.length := by omega
  have wide := template.rectangular _ (List.getElem_mem low)
  have near : j < template.lines[i].length := by omega
  exact ⟨_, (character_eq i j (List.getElem?_eq_getElem low) near).trans (List.getElem?_eq_getElem near)⟩

/-- The cells before `(i, j)`, row by row, are those of the template. -/
def Copied (template : Template) (mutex : Nat) (i j : Int) (t : Globals) : Prop :=
  ∃ cells : Maze template.lines.length template.width,
    t = ⟨template.lines.length, template.width, ⟨_, _, cells⟩, mutex⟩ ∧
    ∀ i' j', InMaze template.lines.length template.width (i', j') → i' < i ∨ i' = i ∧ j' < j →
      cells.get? (i', j') = character template.lines i' j'

section Loops
variable {template : Template} {mutex : Nat}

theorem copyCell_copied (copied : Copied template mutex i j t)
    (inside : InMaze template.lines.length template.width (i, j)) :
    (copyCell i j).Ends (initMachine template.lines junk) t
      (Program.Outcome (fun _ _ => False) fun _ u => Copied template mutex i (j + 1) u) := by
  obtain ⟨cells, rfl, before⟩ := copied
  obtain ⟨o, read⟩ := template.character inside
  refine ⟨.yield (), _, copyCell_run read inside, cells.put (i, j) o, rfl, ?_⟩
  intro i' j' within passed
  rw [Memory.get?_put inside]
  split
  · rename_i here
    obtain ⟨rfl, rfl⟩ := Prod.mk.inj here
    exact read.symm
  · rename_i other
    refine before i' j' within ?_
    have different : ¬ (i' = i ∧ j' = j) := fun same => other (Prod.ext same.1 same.2)
    omega

theorem copyRow_copied (copied : Copied template mutex i 0 t) (low : 0 ≤ i) (high : i < template.lines.length) :
    (Program.forUp 0 template.width () fun j _ => copyCell i j).Ends (initMachine template.lines junk) t
      fun _ u => Copied template mutex (i + 1) 0 u := by
  refine Program.Ends.forUp (fun j _ u => Copied template mutex i j u) copied ?_ ?_
  · intro j _ u left right inv
    exact (copyCell_copied inv ⟨low, high, left, right⟩).mono fun _ _ holds =>
      holds.mono (fun _ _ => False.elim) fun _ _ => id
  · intro _ u inv
    obtain ⟨cells, rfl, before⟩ := inv
    refine ⟨cells, rfl, fun i' j' within passed => before i' j' within ?_⟩
    obtain ⟨_, _, left, right⟩ := within
    simp only at left right
    omega

theorem copyGrid_copied (copied : Copied template mutex 0 0 t) :
    (Program.forUp 0 template.lines.length () fun i _ => do
      Program.forUp 0 template.width () fun j _ => copyCell i j
      return ForInStep.yield ()).Ends (initMachine template.lines junk) t
        fun _ u => Copied template mutex template.lines.length 0 u := by
  refine Program.Ends.forUp (fun i _ u => Copied template mutex i 0 u) copied ?_ ?_
  · intro i _ u low high inv
    exact (copyRow_copied inv low high).bind fun _ v holds => Program.Ends.pure holds
  · intro _ u inv
    have stop : max 0 (template.lines.length : Int) = template.lines.length := by omega
    rwa [stop] at inv

end Loops

/-! ### The whole function -/

/-- `maze_init` after the row count and the column count have been set. -/
def fillMaze (theRow theCol : Int) : InitProgram Unit := do
  Program.perform InitOp.allocate
  Program.forUp 0 theRow () fun i _ => do
    Program.forUp 0 theCol () fun j _ => copyCell i j
    return .yield ()
  Program.perform (InitOp.semInit 1)

def InitOp.KeepsCounts : InitOp → Prop
  | .setCol _ | .setRow _ => False
  | .length _ | .entry _ _ | .allocate | .store _ _ _ | .semInit _ => True

theorem copyCell_calls (i j : Int) : (copyCell i j).Calls InitOp.KeepsCounts := by
  unfold copyCell
  refine (Program.calls_perform.mpr trivial).bind fun o => ?_
  dsimp only
  split
  · exact (Program.calls_perform.mpr trivial).bind fun _ => trivial
  · refine (Program.calls_perform.mpr trivial).bind fun o' => ?_
    exact (Program.calls_perform.mpr trivial).bind fun _ => trivial

theorem fillMaze_calls (theRow theCol : Int) : (fillMaze theRow theCol).Calls InitOp.KeepsCounts := by
  unfold fillMaze
  refine (Program.calls_perform.mpr trivial).bind fun _ => ?_
  refine (Program.Calls.loop (fun i _ => ?_) _ _ _ _).bind fun _ => Program.calls_perform.mpr trivial
  exact (Program.Calls.loop (fun j _ => copyCell_calls i j) _ _ _ _).bind fun _ => trivial

theorem fillMaze_counts (ran : (fillMaze i j).run (initMachine lines junk) g = some ((), t)) :
    t.theRow = g.theRow ∧ t.theCol = g.theCol := by
  refine (fillMaze_calls i j).keeps (I := fun u => u.theRow = g.theRow ∧ u.theCol = g.theCol)
    (fun op u result v keeps executed same => ?_) ran ⟨rfl, rfl⟩
  cases op with
  | setCol value | setRow value => exact keeps.elim
  | length k =>
    obtain ⟨chars, _, loaded⟩ := Option.map_eq_some_iff.mp executed
    cases loaded
    exact same
  | entry k l =>
    obtain ⟨o, _, loaded⟩ := Option.map_eq_some_iff.mp executed
    cases loaded
    exact same
  | allocate | semInit value =>
    cases executed
    exact same
  | store k l o =>
    simp only [initMachine, Option.ite_none_right_eq_some, Option.some.injEq, Prod.mk.injEq] at executed
    obtain ⟨-, -, rfl⟩ := executed
    exact same

theorem Template.first (template : Template) : ∃ chars, string template.lines 0 = some chars ∧
    strlen chars = template.width := by
  have tall := template.tall
  have member := List.getElem_mem tall
  refine ⟨template.lines[0], by simp [string, template.tall], ?_⟩
  have whole : template.lines[0].takeWhile (· ≠ 0) = template.lines[0] := by
    rw [List.takeWhile_eq_self_iff]
    intro o present
    exact decide_eq_true (ne_of_mem_of_not_mem present (template.text _ member))
  unfold strlen
  rw [whole]
  exact template.rectangular _ member

/-- The counts that `maze_init` works with, whatever the template. -/
def counted (template : Template) (g : Globals) : Globals :=
  { g with theRow := toInt sizeofPointer, theCol := toInt template.width }

theorem mazeInit_run (template : Template) (junk : (rows cols : Nat) → Maze rows cols) (g : Globals) :
    (mazeInit true).run (initMachine template.lines junk) g =
      (fillMaze (toInt sizeofPointer) (toInt template.width)).run (initMachine template.lines junk)
        (counted template g) := by
  obtain ⟨chars, first, width⟩ := template.first
  unfold mazeInit fillMaze counted
  have measured : initMachine template.lines junk (.length 0) g = some (template.width, g) := by
    simp only [initMachine, first, Option.map_some, width]
  rw [if_pos rfl, Program.run_perform_bind _ measured]
  generalize toInt template.width = theCol
  dsimp only
  generalize toInt sizeofPointer = theRow
  rw [Program.run_perform_bind _ rfl, Program.run_perform_bind _ rfl]

/-- `maze_init` meets its specification on the template: rows, columns and cells are those of the
template, and no entry at or past the NULL is read. -/
structure Builds (template : Template) (junk : (rows cols : Nat) → Maze rows cols) (g : Globals) : Prop where
  outcome : ∃ t, (mazeInit true).run (initMachine template.lines junk) g = some ((), t) ∧
    mazeGetRows t = template.lines.length ∧ mazeGetCols t = template.width ∧
    ∀ i j : Nat, i < template.lines.length → j < template.width →
      t.theMaze.cells.get? (i, j) = template.lines[i]?.bind (·[j]?)
  reads : ∀ op ∈ (mazeInit true).trace (initMachine template.lines junk) g, ∀ i ∈ op.reads,
    i < template.lines.length

theorem toInt_eq_iff {size : Nat} : toInt size = size ↔ size < 2 ^ 31 := by
  unfold toInt
  rw [Int.bmod_def]
  split <;> omega

theorem fillMaze_ends (junk : (rows cols : Nat) → Maze rows cols) (g : Globals) (template : Template)
    (rows : g.theRow = template.lines.length)
    (cols : g.theCol = template.width) :
    (fillMaze template.lines.length template.width).Ends (initMachine template.lines junk) g fun _ t =>
      Copied template 1 template.lines.length 0 t := by
  have allocated : initMachine template.lines junk .allocate g = some ((), ⟨template.lines.length, template.width,
      ⟨template.lines.length, template.width, junk _ _⟩, g.mutex⟩) := by
    obtain ⟨theRow, theCol, theMaze, mutex⟩ := g
    obtain rfl : theRow = template.lines.length := rows
    obtain rfl : theCol = template.width := cols
    rfl
  refine Program.Ends.call allocated ?_
  dsimp only [Program.bind]
  have start : Copied template g.mutex 0 0 ⟨template.lines.length, template.width,
      ⟨template.lines.length, template.width, junk _ _⟩, g.mutex⟩ := by
    refine ⟨_, rfl, fun i j inside passed => ?_⟩
    obtain ⟨above, _, left, _⟩ := inside
    simp only at above left
    omega
  refine (copyGrid_copied start).bind fun _ u copied => ?_
  obtain ⟨cells, rfl, shown⟩ := copied
  exact ⟨(), _, rfl, cells, rfl, shown⟩

/-- Exactly the templates of eight rows, whose width is an `int`, are built as they are. -/
theorem mazeInit_builds_iff (template : Template) (junk : (rows cols : Nat) → Maze rows cols) (g : Globals) :
    Builds template junk g ↔ template.lines.length = 8 ∧ template.width < 2 ^ 31 := by
  have rows : toInt sizeofPointer = (8 : Nat) := toInt_eq_iff.mpr (by decide)
  constructor
  · intro builds
    obtain ⟨t, ran, height, width, _⟩ := builds.outcome
    rw [mazeInit_run] at ran
    obtain ⟨sameRow, sameCol⟩ := fillMaze_counts ran
    refine ⟨?_, toInt_eq_iff.mp (sameCol.symm.trans width)⟩
    have eight := height.symm.trans (sameRow.trans rows)
    exact_mod_cast eight
  · intro ⟨eight, narrow⟩
    have height : toInt sizeofPointer = template.lines.length := by rw [rows, eight]
    have width := toInt_eq_iff.mpr narrow
    obtain ⟨_, t, ran, cells, rfl, shown⟩ := fillMaze_ends junk (counted template g) template height width
    have built := mazeInit_run template junk g
    rw [height, width, ran] at built
    refine ⟨⟨_, built, rfl, rfl, fun i j low near => ?_⟩, fun op member i reads => ?_⟩
    · have row := List.getElem?_eq_getElem low
      have long : j < template.lines[i].length := by rwa [template.rectangular _ (List.getElem_mem low)]
      rw [row, Option.bind_some]
      refine (shown i j ⟨by simp, by simpa using low, by simp, by simpa using near⟩ ?_).trans (character_eq i j row long)
      exact Or.inl (by simpa using low)
    · obtain ⟨u, executed⟩ := Program.trace_executed (by rw [built]; rfl) op member
      exact (reads_string executed reads).2

/-- One row of one blank. -/
def smallTemplate : Template where
  lines := [[empty]]
  width := 1
  tall := by decide
  wide := by decide
  rectangular := by decide
  text := by decide

def blankGlobals : Globals := ⟨0, 0, ⟨0, 0, fun _ => 0⟩, 0⟩

/-- Eight rows are read of this one: the second is the NULL. -/
theorem mazeInit_small_fails :
    .entry 1 0 ∈ (mazeInit true).trace (initMachine smallTemplate.lines fun _ _ _ => 0) blankGlobals ∧
      ¬ Builds smallTemplate (fun _ _ _ => 0) blankGlobals := by
  have past : .entry 1 0 ∈ (mazeInit true).trace (initMachine smallTemplate.lines fun _ _ _ => 0) blankGlobals := by
    decide +kernel
  exact ⟨past, fun builds => absurd (builds.reads _ past 1 rfl) (by decide)⟩

end MazeWar
