import MazeWar.Maze.Walk

/-!
# Where an object can walk

Moving from cell to cell, an object reaches the blank cells that are connected with its own, and no others.
What it leaves behind depends on where it ends only, not on the way it took.
-/

namespace MazeWar
open Foundation
variable {rows cols : Nat} {s : MazeState rows cols} {o : Object} {p q r : Int × Int} {d : Direction}

/-- The cells that the object from `p` may be in. -/
def Free (s : MazeState rows cols) (p q : Int × Int) : Prop := s.cells.get? q = some empty ∨ q = p

/-- The maze with the object from `p` in `q`. -/
def carriedTo (s : MazeState rows cols) (p q : Int × Int) (o : Object) : MazeState rows cols :=
  if q = p then s else movedTo s p q o

section
variable (present : s.cells.get? p = some o) (free : Free s p q)
include present free

theorem free_inMaze : InMaze rows cols q := by
  rcases free with blank | rfl
  · exact Memory.mem_of_get? blank
  · exact Memory.mem_of_get? present

theorem carriedTo_get? :
    (carriedTo s p q o).cells.get? r = if r = q then some o else if r = p then some empty else s.cells.get? r := by
  unfold carriedTo
  by_cases home : q = p
  · subst home
    rw [if_pos rfl]
    split
    · rename_i here
      rw [here, present]
    · rfl
  · rw [if_neg home]
    split
    · rename_i here
      rw [here, movedTo_new home (free_inMaze present free)]
    · rename_i other
      split
      · rename_i old
        rw [old, movedTo_old (Memory.mem_of_get? present)]
      · rename_i notOld
        exact movedTo_other notOld other

/-- One move further. -/
theorem movedTo_carriedTo (free' : Free s p r) (apart : r ≠ q) :
    movedTo (carriedTo s p q o) q r o = carriedTo s p r o := by
  apply Shared.ext_get?
  · intro c
    rw [carriedTo_get? present free']
    by_cases new : c = r
    · subst new
      rw [if_pos rfl, movedTo_new apart (free_inMaze present free')]
    · rw [if_neg new]
      by_cases old : c = q
      · subst old
        rw [movedTo_old (free_inMaze present free)]
        split
        · rfl
        · rename_i away
          exact (free.resolve_right away).symm
      · rw [movedTo_other old new, carriedTo_get? present free, if_neg old]
  · unfold carriedTo
    split <;> split <;> rfl

/-- From a cell that it has walked to, the object can step to a free cell, and to no other. -/
theorem step_carriedTo (solid : o ≠ empty) {dir : Int} {v : Walker rows cols} :
    Walker.step ⟨carriedTo s p q o, q⟩ dir = some v ↔
      ∃ d : Direction, dir = d.code ∧ Free s p (d.next q) ∧ v = ⟨carriedTo s p (d.next q) o, d.next q⟩ := by
  have here : (carriedTo s p q o).cells.get? q = some o := by rw [carriedTo_get? present free, if_pos rfl]
  have ahead : ∀ d : Direction, (carriedTo s p q o).cells.get? (d.next q) = some empty ↔ Free s p (d.next q) := by
    intro d
    rw [carriedTo_get? present free, if_neg (d.next_ne q)]
    split
    · rename_i home
      exact iff_of_true rfl (.inr home)
    · rename_i away
      exact (or_iff_left away).symm
  rw [Walker.step_iff]
  constructor
  · rintro ⟨d, t, rfl, ran, rfl⟩
    obtain ⟨o', present', _, blank, rfl⟩ := mazeMove_succeeded ran
    obtain rfl : o = o' := Option.some.inj (here.symm.trans present')
    have free' := (ahead d).mp blank
    exact ⟨d, rfl, free', by rw [movedTo_carriedTo present free free' (d.next_ne q)]⟩
  · rintro ⟨d, rfl, free', rfl⟩
    have moved := mazeMove_ahead here solid ((ahead d).mpr free')
    rw [if_pos rfl, movedTo_carriedTo present free free' (d.next_ne q)] at moved
    exact ⟨d, _, rfl, moved, rfl⟩

end

/-- An object reaches exactly the free cells that are connected with its own, and every way to a cell leaves
the same maze. -/
theorem walk_reaches_iff (present : s.cells.get? p = some o) (solid : o ≠ empty) (v : Walker rows cols) :
    (∃ dirs, runs Walker.step ⟨s, p⟩ dirs = some v) ↔ v.maze = carriedTo s p v.place o ∧
      Relation.ReflTransGen (fun a b => ∃ d : Direction, b = d.next a ∧ Free s p b) p v.place := by
  have home : (⟨s, p⟩ : Walker rows cols) = ⟨carriedTo s p p o, p⟩ := by rw [carriedTo, if_pos rfl]
  rw [runs_iff_reflTransGen, home]
  constructor
  · intro reached
    suffices v.maze = carriedTo s p v.place o ∧ Free s p v.place ∧
        Relation.ReflTransGen (fun a b => ∃ d : Direction, b = d.next a ∧ Free s p b) p v.place from ⟨this.1, this.2.2⟩
    induction reached with
    | refl => exact ⟨rfl, .inr rfl, .refl⟩
    | @tail u v _ last ih =>
      obtain ⟨maze, place⟩ := u
      obtain ⟨carried, free, path⟩ := ih
      obtain ⟨dir, stepped⟩ := last
      simp only at carried free path
      subst carried
      obtain ⟨d, rfl, free', rfl⟩ := (step_carriedTo present free solid).mp stepped
      exact ⟨rfl, free', path.tail ⟨d, rfl, free'⟩⟩
  · obtain ⟨maze, q⟩ := v
    rintro ⟨carried, path⟩
    simp only at carried path
    subst carried
    suffices Free s p q ∧ Relation.ReflTransGen (fun a b => ∃ dir, Walker.step a dir = some b)
        ⟨carriedTo s p p o, p⟩ ⟨carriedTo s p q o, q⟩ from this.2
    induction path with
    | refl => exact ⟨.inr rfl, .refl⟩
    | @tail c _ _ last ih =>
      obtain ⟨d, rfl, free'⟩ := last
      obtain ⟨free, walked⟩ := ih
      exact ⟨free', walked.tail ⟨d.code, (step_carriedTo present free solid).mpr ⟨d, rfl, free', rfl⟩⟩⟩

/-- `A` can walk around the corner. -/
theorem walk_reaches_open : ∃ dirs, runs Walker.step ⟨(⟨openGround, 1⟩ : MazeState 8 3), (0, 1)⟩ dirs =
    some ⟨carriedTo ⟨openGround, 1⟩ (0, 1) (1, 0) 65, (1, 0)⟩ := by
  refine (walk_reaches_iff (o := 65) (by decide) (by decide) _).mpr ⟨rfl, ?_⟩
  have south : Free (⟨openGround, 1⟩ : MazeState 8 3) (0, 1) (1, 1) := .inl (by decide)
  have west : Free (⟨openGround, 1⟩ : MazeState 8 3) (0, 1) (1, 0) := .inl (by decide)
  exact (Relation.ReflTransGen.single ⟨.south, rfl, south⟩).tail ⟨.west, rfl, west⟩

end MazeWar
