import MazeWar.Maze.Consistency
import MazeWar.Startup.Template

/-!
# Playing on a template

`maze_init` copies the first eight lines, and the functions of the maze check no bounds. So a game can be played
on a template if it has these lines and no cell at their border is blank, and on no other.
-/

namespace MazeWar
open Foundation
variable {template : Template} {junk : (rows cols : Nat) → Maze rows cols} {g : Globals}

/-! ### Eight lines or more -/

theorem Template.exists_first (template : Template) (tall : 8 ≤ template.lines.length) :
    ∃ first : Template, first.lines = template.lines.take 8 ∧ first.width = template.width := by
  have some : 0 < (template.lines.take 8).length := by
    rw [List.length_take]
    omega
  exact ⟨⟨template.lines.take 8, template.width, some, template.wide,
    fun line member => template.rectangular line (List.mem_of_mem_take member),
    fun line member => template.text line (List.mem_of_mem_take member)⟩, rfl, rfl⟩

theorem string_take {lines : List (List Object)} {n : Nat} {i : Int} {line : List Object}
    (found : string (lines.take n) i = some line) : string lines i = some line := by
  obtain ⟨low, found⟩ := Option.ite_none_right_eq_some.mp found
  rw [List.getElem?_take] at found
  rw [string, if_pos low]
  exact (Option.ite_none_right_eq_some.mp found).2

theorem character_take {lines : List (List Object)} {n : Nat} {i j : Int} {o : Object}
    (found : character (lines.take n) i j = some o) : character lines i j = some o := by
  obtain ⟨low, found⟩ := Option.ite_none_right_eq_some.mp found
  obtain ⟨line, row, entry⟩ := Option.bind_eq_some_iff.mp found
  rw [character, if_pos low, string_take row]
  exact entry

theorem initMachine_take {lines : List (List Object)} {n : Nat} (op : InitOp) (t : Globals)
    (answer : op.Res × Globals) (executed : initMachine (lines.take n) junk op t = some answer) :
    initMachine lines junk op t = some answer := by
  cases op with
  | length i =>
    obtain ⟨line, found, rfl⟩ := Option.map_eq_some_iff.mp executed
    exact Option.map_eq_some_iff.mpr ⟨line, string_take found, rfl⟩
  | entry i j =>
    obtain ⟨o, found, rfl⟩ := Option.map_eq_some_iff.mp executed
    exact Option.map_eq_some_iff.mpr ⟨o, character_take found, rfl⟩
  | setCol value | setRow value | allocate | store i j o | semInit value => exact executed

theorem mazeInit_whole (junk : (rows cols : Nat) → Maze rows cols) (g : Globals) (template : Template) {n w : Nat}
    (height : template.lines.length = n) (width : template.width = w)
    (eight : n = 8) (narrow : w < 2 ^ 31) : ∃ cells : Maze n w,
      (mazeInit true).run (initMachine template.lines junk) g = some ((), ⟨n, w, ⟨n, w, cells⟩, 1⟩) ∧
      ∀ i j, InMaze n w (i, j) → cells.get? (i, j) = character template.lines i j := by
  subst height width
  have rows : toInt sizeofPointer = template.lines.length := by
    rw [eight]
    exact toInt_eq_iff.mpr (by decide)
  have cols := toInt_eq_iff.mpr narrow
  obtain ⟨_, t, ran, cells, rfl, shown⟩ := fillMaze_ends junk (counted template g) template rows cols
  have built := mazeInit_run template junk g
  rw [rows, cols, ran] at built
  exact ⟨cells, built, fun i j inside => shown i j inside (.inl inside.2.1)⟩

/-- The first eight lines are copied, and no others are looked at. -/
theorem mazeInit_tall (junk : (rows cols : Nat) → Maze rows cols) (g : Globals)
    (tall : 8 ≤ template.lines.length) (narrow : template.width < 2 ^ 31) :
    ∃ cells : Maze 8 template.width,
      (mazeInit true).run (initMachine template.lines junk) g =
        some ((), ⟨8, template.width, ⟨8, template.width, cells⟩, 1⟩) ∧
      ∀ i j, InMaze 8 template.width (i, j) → cells.get? (i, j) = character template.lines i j := by
  obtain ⟨first, lines, width⟩ := template.exists_first tall
  have eight : first.lines.length = 8 := by
    rw [lines, List.length_take]
    omega
  obtain ⟨cells, ran, shown⟩ := mazeInit_whole junk g first eight width rfl narrow
  have inside : ∀ i j, InMaze 8 template.width (i, j) → ∃ o, character first.lines i j = some o := by
    intro i j inside
    rw [← eight, ← width] at inside
    exact first.character inside
  rw [lines] at ran shown inside
  refine ⟨cells, Program.run_extend _ initMachine_take ran, fun i j within => ?_⟩
  obtain ⟨o, found⟩ := inside i j within
  rw [shown i j within, found, character_take found]

/-! ### Fewer lines -/

theorem copyCell_yields {lines : List (List Object)} {i j : Int} {t u : Globals} {step : ForInStep Unit}
    (ran : (copyCell i j).run (initMachine lines junk) t = some (step, u)) : ∃ b', step = .yield b' := by
  simp only [copyCell, Program.perform_bind, Program.run_call] at ran
  obtain ⟨⟨o, v⟩, _, ran⟩ := Option.bind_eq_some_iff.mp ran
  split_ifs at ran with blank
  · obtain ⟨⟨_, w⟩, _, ran⟩ := Option.bind_eq_some_iff.mp ran
    cases ran
    exact ⟨(), rfl⟩
  · obtain ⟨⟨_, w⟩, _, ran⟩ := Option.bind_eq_some_iff.mp ran
    obtain ⟨⟨_, x⟩, _, ran⟩ := Option.bind_eq_some_iff.mp ran
    cases ran
    exact ⟨(), rfl⟩

/-- The first cell of the row that is missing is read. -/
theorem copyRow_missing {width : Nat} (wide : 0 < width) {t : Globals} :
    (Program.forUp 0 width () fun j _ => copyCell template.lines.length j).run
      (initMachine template.lines junk) t = none := by
  by_contra returns
  have copied := Option.isSome_iff_ne_none.mpr returns
  have first : 0 < ((width : Int) - 0).toNat := by omega
  obtain ⟨_, u, returned⟩ := Program.loop_round (fun _ _ _ _ _ ran => copyCell_yields ran) copied first
  simp [copyCell, Program.run_call, initMachine, character, string] at returned

theorem mazeInit_short (short : template.lines.length < 8) (narrow : template.width < 2 ^ 31) :
    (mazeInit true).run (initMachine template.lines junk) g = none := by
  by_contra returns
  obtain ⟨⟨_, t⟩, ran⟩ := Option.ne_none_iff_exists'.mp returns
  have rows : toInt sizeofPointer = (8 : Nat) := toInt_eq_iff.mpr (by decide)
  rw [mazeInit_run, rows, toInt_eq_iff.mpr narrow, fillMaze, Program.run_bind] at ran
  obtain ⟨⟨_, u⟩, _, ran⟩ := Option.bind_eq_some_iff.mp ran
  rw [Program.run_bind] at ran
  obtain ⟨⟨_, v⟩, copied, _⟩ := Option.bind_eq_some_iff.mp ran
  have goes : ∀ (i : Int) (b : Unit) s step u, ((do
      Program.forUp 0 template.width () fun j _ => copyCell i j
      return ForInStep.yield ()) : InitProgram (ForInStep Unit)).run (initMachine template.lines junk) s = some (step, u) →
      ∃ b', step = .yield b' := by
    intro i b s step u ran
    rw [Program.run_bind] at ran
    obtain ⟨⟨_, w⟩, _, ran⟩ := Option.bind_eq_some_iff.mp ran
    cases ran
    exact ⟨(), rfl⟩
  obtain ⟨_, x, row⟩ := Program.loop_round goes (Option.isSome_of_eq_some copied) short
  rw [zero_add, mul_one, Program.run_bind, copyRow_missing template.wide] at row
  cases row

/-! ### The game -/

/-- `maze_init` returns, and in every game on the maze that it leaves, each call on a placed player stays
inside the maze. -/
def Playable (template : Template) (junk : (rows cols : Nat) → Maze rows cols) (g : Globals) : Prop :=
  ∃ t, (mazeInit true).run (initMachine template.lines junk) g = some ((), t) ∧
    mazeGetRows t = t.theMaze.rows ∧ mazeGetCols t = t.theMaze.cols ∧ t.mutex = 1 ∧
    ∀ (ι : Type) [DecidableEq ι] (avatar : ι → Object), Tokens empty avatar →
      ∀ (actions : List (Game.Action ι)) (game : Game ι t.theMaze.rows t.theMaze.cols),
        runs (Game.step avatar) (Game.initial t.theMaze.cells) actions = some game →
        ∀ player place, game.loc player = some place → Game.CallsSound avatar game player place

/-- The blanks of the first eight lines are not at their border. -/
def Template.Closed (template : Template) : Prop :=
  ∀ i : Nat, i < 8 → ∀ j : Nat, j < template.width →
    MazeWar.character template.lines i j = some empty → Inner 8 template.width (i, j)

theorem exists_index {rows cols : Nat} {p : Int × Int} (inside : InMaze rows cols p) :
    ∃ i j : Nat, p = ((i : Int), (j : Int)) := by
  obtain ⟨row, col⟩ := p
  obtain ⟨above, _, left, _⟩ := inside
  obtain ⟨i, rfl⟩ := Int.eq_ofNat_of_zero_le above
  obtain ⟨j, rfl⟩ := Int.eq_ofNat_of_zero_le left
  exact ⟨i, j, rfl⟩

theorem exists_outside {rows cols : Nat} {p : Int × Int} (inside : InMaze rows cols p) (edge : ¬ Inner rows cols p) :
    ∃ d : Direction, ¬ InMaze rows cols (d.next p) := by
  obtain ⟨row, col⟩ := p
  by_contra all
  have reached : ∀ d : Direction, InMaze rows cols (d.next (row, col)) := by
    intro d
    by_contra outside
    exact all ⟨d, outside⟩
  exact edge ⟨by have := (reached .north).1; simpa [Direction.next] using this, (reached .south).2.1,
    by have := (reached .west).2.2.1; simpa [Direction.next] using this, (reached .east).2.2.2⟩

/-- A player that enters a blank cell at the border can move on to a cell that does not exist. -/
theorem border_unsound {rows cols : Nat} {start : Maze rows cols} {p : Int × Int} (blank : start.get? p = some empty)
    (edge : ¬ Inner rows cols p) : ∃ game : Game Unit rows cols,
      runs (Game.step fun _ => 65) (Game.initial start) [.place () p.1 p.2] = some game ∧ game.loc () = some p ∧
        ¬ Game.CallsSound (fun _ => 65) game () p := by
  have inside := Memory.mem_of_get? blank
  have placed : (mazeSetPlayer 65 p.1 p.2).run cellMachine ⟨start, 1⟩ = _ := mazeSetPlayer_run
  simp only [blank, Option.map_some, if_true] at placed
  let game : Game Unit rows cols := ⟨⟨start.put p 65, 1⟩, fun _ => some p⟩
  refine ⟨game, ?_, rfl, fun sound => ?_⟩
  · have entered : Function.update (fun _ : Unit => none) () (some p) = fun _ => some p := by
      funext
      simp
    simp [runs, Game.step, Game.initial, placed, inside, Game.track, game, entered]
  · obtain ⟨d, outside⟩ := exists_outside inside edge
    have moved := (sound.move d).1
    have beyond : game.maze.cells.get? (d.next p) = none :=
      Option.not_isSome_iff_eq_none.mp (Memory.get?_isSome_iff.not.mpr outside)
    have here : game.maze.cells.get? p = some 65 := Memory.get?_put_self inside
    rw [mazeMove_code, moveTo_run, here, Option.bind_some, if_neg (by decide), beyond] at moved
    cases moved

theorem playable_iff (template : Template) (junk : (rows cols : Nat) → Maze rows cols) (g : Globals)
    (narrow : template.width < 2 ^ 31) :
    Playable template junk g ↔ 8 ≤ template.lines.length ∧ template.Closed := by
  by_cases tall : 8 ≤ template.lines.length
  · obtain ⟨cells, ran, shown⟩ := mazeInit_tall junk g tall narrow
    constructor
    · rintro ⟨t, ran', _, _, _, sound⟩
      obtain rfl := (Prod.mk.inj (Option.some.inj (ran.symm.trans ran'))).2
      refine ⟨tall, ?_⟩
      intro i low j near blank
      by_contra edge
      rw [← shown i j ⟨by simp, by simpa using low, by simp, by simpa using near⟩] at blank
      obtain ⟨game, ran, located, unsound⟩ := border_unsound blank edge
      exact unsound (sound Unit _ ⟨fun _ _ _ => rfl, fun _ => by decide⟩ _ game ran () _ located)
    · rintro ⟨_, closed⟩
      refine ⟨_, ran, rfl, rfl, rfl, fun ι _ avatar tokens actions game played player place located => ?_⟩
      have inv := Game.run_consistent tokens played
      have blank := inv.shown.onBlank player place located
      have inside := Memory.mem_of_get? blank
      refine Game.calls_sound_inner inv located ?_
      obtain ⟨i, j, rfl⟩ := exists_index inside
      have low : i < 8 := by simpa using inside.2.1
      have near : j < template.width := by simpa using inside.2.2.2
      exact closed i low j near ((shown i j inside).symm.trans blank)
  · refine iff_of_false ?_ fun both => tall both.1
    rintro ⟨t, ran, _⟩
    rw [mazeInit_short (Nat.lt_of_not_le tall) narrow] at ran
    cases ran

/-! ### The template of `main` -/

def defaultMaze : List (List Object) := [
  "******************************",
  "***** %%%%%%%%% &&&&&&&&&&& **",
  "***** %%%%%%%%%        $$$$  *",
  "*           $$$$$$ $$$$$$$$$ *",
  "*##########                  *",
  "*########## @@@@@@@@@@@@@@@@@*",
  "*           @@@@@@@@@@@@@@@@@*",
  "******************************"].map fun line => line.toList.map fun c => c.toNat.toUInt8

/-- A maze of nine lines, closed by the last. -/
def nineLines : List (List Object) := [42, 42, 42] :: (List.replicate 7 [42, empty, 42] ++ [[42, 42, 42]])

/-- The default maze can be played on, the maze of nine lines cannot. -/
theorem playable_iff_default :
    (∃ template : Template, template.lines = defaultMaze ∧ Playable template (fun _ _ _ => 0) blankGlobals) ∧
    ∃ template : Template, template.lines = nineLines ∧ ¬ Playable template (fun _ _ _ => 0) blankGlobals := by
  constructor
  · have rectangular : ∀ line ∈ defaultMaze, line.length = 30 := by decide +kernel
    have text : ∀ line ∈ defaultMaze, (0 : Object) ∉ line := by decide +kernel
    have tall : 8 ≤ defaultMaze.length := by decide +kernel
    have closed : ∀ i : Nat, i < 8 → ∀ j : Nat, j < 30 → character defaultMaze i j = some empty →
        1 ≤ (i : Int) ∧ (i : Int) + 1 < (8 : Nat) ∧ 1 ≤ (j : Int) ∧ (j : Int) + 1 < (30 : Nat) := by decide +kernel
    exact ⟨⟨defaultMaze, 30, by omega, by decide, rectangular, text⟩, rfl,
      (playable_iff _ _ blankGlobals (show 30 < 2 ^ 31 by decide)).mpr ⟨tall, closed⟩⟩
  · refine ⟨⟨nineLines, 3, by decide, by decide, by decide, by decide⟩, rfl, fun playable => ?_⟩
    have closed := ((playable_iff _ _ blankGlobals (show 3 < 2 ^ 31 by decide)).mp playable).2
    have inner : Inner 8 3 (((7 : Nat) : Int), ((1 : Nat) : Int)) :=
      closed 7 (by decide) 1 (by decide) (show character nineLines 7 1 = some empty by decide)
    exact absurd inner.2.1 (by decide)

end MazeWar
