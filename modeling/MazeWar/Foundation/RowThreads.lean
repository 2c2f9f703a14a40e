import MazeWar.Foundation.Rows
import MazeWar.Foundation.Runs
import MazeWar.Foundation.Threads

/-!
# Threads on rectangles in blocks

An access to a cell takes two operations on the blocks, and other threads may come in between. Since no
thread changes the table, the threads run as on the rectangle all the same, where an access is one operation.
-/

namespace Foundation
variable {V α ι : Type} {dom : Int × Int → Prop} [DecidablePred dom] {table : Nat} {rows : List Nat}

/-- What is left of a thread's program on the blocks, for what is left of it on the rectangle: the same, or an
access of which the row has been loaded. -/
inductive Midway (table : Nat) (rows : List Nat) : RowProgram V α → CellProgram (Int × Int) V α → Prop
  | whole (program : CellProgram (Int × Int) V α) : Midway table rows (program.lower (rowCode table)) program
  | load {p : Int × Int} {row : Nat} (next : V → CellProgram (Int × Int) V α) (found : atIndex rows p.1 = some row) :
    Midway table rows (.call (.getCell row p.2) fun v => (next v).lower (rowCode table)) (.call (.load p) next)
  | store {p : Int × Int} {v : V} {row : Nat} (next : Unit → CellProgram (Int × Int) V α)
      (found : atIndex rows p.1 = some row) :
    Midway table rows (.call (.setCell row p.2 v) fun done => (next done).lower (rowCode table))
      (.call (.store p v) next)

/-- The threads on the rectangle and on the blocks. -/
structure Carried (base : Extents V) (table : Nat) (rows : List Nat)
    (flat : Pool ι (CellOp (Int × Int) V) CellOp.Res α (Shared dom V))
    (pool : Pool ι (RowOp V) RowOp.Res α (RowState V)) : Prop where
  out : LaysOut base pool.shared.heap table rows flat.shared.cells
  sem : pool.shared.sem = flat.shared.sem
  left : ∀ i, Midway table rows (pool.left i) (flat.left i)

namespace Carried
variable [DecidableEq ι] {malloc : RowAllocator V} {base : Extents V}
  {flat : Pool ι (CellOp (Int × Int) V) CellOp.Res α (Shared dom V)}
  {pool t : Pool ι (RowOp V) RowOp.Res α (RowState V)} {i : ι}

/-- One thread has got on, on the blocks only. -/
theorem alone (carried : Carried base table rows flat pool) {program : RowProgram V α}
    (midway : Midway table rows program (flat.left i)) :
    Carried base table rows flat ⟨Function.update pool.left i program, pool.shared⟩ := by
  refine ⟨carried.out, carried.sem, fun j => ?_⟩
  by_cases own : j = i
  · subst own
    simp only [Function.update_self]
    exact midway
  · simp only [Function.update_of_ne own]
    exact carried.left j

/-- One thread has got on, on both sides. -/
theorem resume (carried : Carried base table rows flat pool) {program : RowProgram V α}
    {program' : CellProgram (Int × Int) V α} {shared : RowState V} {shared' : Shared dom V}
    (out : LaysOut base shared.heap table rows shared'.cells) (sem : shared.sem = shared'.sem)
    (midway : Midway table rows program program') :
    Carried base table rows ⟨Function.update flat.left i program', shared'⟩
      ⟨Function.update pool.left i program, shared⟩ := by
  refine ⟨out, sem, fun j => ?_⟩
  by_cases own : j = i
  · subst own
    simp only [Function.update_self]
    exact midway
  · simp only [Function.update_of_ne own]
    exact carried.left j

theorem step (carried : Carried base table rows flat pool) (stepped : pool.step (rowMachine malloc) i = some t) :
    Carried base table rows flat t ∨
      ∃ flat', flat.step cellMachine i = some flat' ∧ Carried base table rows flat' t := by
  obtain ⟨op, next, result, shared, left, executed, rfl⟩ := Pool.step_iff.mp stepped
  have midway := carried.left i
  generalize here : flat.left i = program' at midway
  rw [left] at midway
  generalize before : Program.call op next = program at midway
  cases midway with
  | whole _ =>
    cases program' with
    | done value => cases before
    | call op' next' =>
      cases op' with
      | load p =>
        cases before
        rw [carried.out.getRow] at executed
        obtain ⟨row, found, same⟩ := Option.map_eq_some_iff.mp executed
        cases same
        refine .inl (carried.alone ?_)
        rw [here]
        exact .load next' found
      | store p v =>
        cases before
        rw [carried.out.getRow] at executed
        obtain ⟨row, found, same⟩ := Option.map_eq_some_iff.mp executed
        cases same
        refine .inl (carried.alone ?_)
        rw [here]
        exact .store next' found
      | wait =>
        cases before
        obtain ⟨free, same⟩ := Option.ite_none_right_eq_some.mp executed
        cases same
        rw [carried.sem] at free
        exact .inr ⟨_, Pool.step_iff.mpr ⟨_, _, (), _, here, cellMachine_wait.mpr ⟨free, rfl⟩, rfl⟩,
          carried.resume carried.out (congrArg (· - 1) carried.sem) (.whole _)⟩
      | post =>
        cases before
        cases executed
        exact .inr ⟨_, Pool.step_iff.mpr ⟨_, _, (), ⟨flat.shared.cells, flat.shared.sem + 1⟩, here, rfl, rfl⟩,
          carried.resume carried.out (congrArg (· + 1) carried.sem) (.whole _)⟩
  | @load p row next' found =>
    cases before
    obtain ⟨v, read, same⟩ := Option.map_eq_some_iff.mp executed
    cases same
    have present : flat.shared.cells.get? p = some result := by
      rw [carried.out.cells, found]
      exact read
    exact .inr ⟨_, Pool.step_iff.mpr ⟨_, _, result, _, here, cellMachine_load.mpr ⟨present, rfl⟩, rfl⟩,
      carried.resume carried.out carried.sem (.whole _)⟩
  | @store p v row next' found =>
    cases before
    obtain ⟨cells, held, written⟩ := Option.bind_eq_some_iff.mp executed
    obtain ⟨bounds, same⟩ := Option.ite_none_right_eq_some.mp written
    cases same
    have inside : dom p := by
      rw [← Memory.get?_isSome_iff (m := flat.shared.cells), carried.out.cells, found, Option.bind_some, held,
        Option.bind_some, atIndex_isSome]
      exact bounds
    have put := carried.out.put (v := v) inside found (Extents.cells?_eq_some.mp held) bounds.1 bounds.2
    exact .inr ⟨_, Pool.step_iff.mpr ⟨_, _, (), _, here, cellMachine_store.mpr ⟨inside, rfl⟩, rfl⟩,
      carried.resume put carried.sem (.whole _)⟩

/-- A cell that the blocks do not have. -/
theorem outside {m : Memory dom V} {heap : Extents V} {p : Int × Int} (out : LaysOut base heap table rows m)
    (missing : (atIndex rows p.1).bind (fun a => (heap.cells? a).bind fun cells => atIndex cells p.2) = none) : ¬ dom p := by
  intro inside
  obtain ⟨v, present⟩ := Memory.exists_get? (m := m) inside
  rw [out.cells, missing] at present
  cases present

/-- A thread that cannot go on cannot on the rectangle. -/
theorem stuck (carried : Carried base table rows flat pool) (stuck : pool.step (rowMachine malloc) i = none) :
    flat.step cellMachine i = none := by
  refine Pool.step_none_iff.mpr fun op next here => ?_
  have fails := Pool.step_none_iff.mp stuck
  have midway := carried.left i
  rw [here] at midway
  generalize pool.left i = program at midway fails
  generalize before : Program.call op next = program' at midway
  -- The access itself fails, or the load of its row does.
  have absent : ∀ p, (atIndex rows p.1).bind (fun a =>
      (pool.shared.heap.cells? a).bind fun cells => atIndex cells p.2) = none →
      cellMachine (.load p) flat.shared = none ∧ ∀ v, cellMachine (.store p v) flat.shared = none := by
    intro p missing
    have outside := outside carried.out missing
    refine ⟨?_, fun v => if_neg outside⟩
    rw [cellMachine, carried.out.cells, missing]
    rfl
  cases midway with
  | whole _ =>
    subst before
    cases op with
    | load p =>
      have failed := fails _ _ rfl
      rw [carried.out.getRow, Option.map_eq_none_iff] at failed
      exact (absent p (by rw [failed]; rfl)).1
    | store p v =>
      have failed := fails _ _ rfl
      rw [carried.out.getRow, Option.map_eq_none_iff] at failed
      exact (absent p (by rw [failed]; rfl)).2 v
    | wait =>
      have failed := fails _ _ rfl
      rw [rowMachine, carried.sem] at failed
      rw [cellMachine]
      split
      · rename_i free
        rw [if_pos free] at failed
        cases failed
      · rfl
    | post => cases fails _ _ rfl
  | @load p row next' found =>
    cases before
    have failed := fails _ _ rfl
    rw [rowMachine, Option.map_eq_none_iff] at failed
    exact (absent p (by rw [found]; exact failed)).1
  | @store p v row next' found =>
    cases before
    have failed := fails _ _ rfl
    refine (absent p ?_).2 v
    rw [found, Option.bind_some]
    rw [rowMachine] at failed
    cases held : pool.shared.heap.cells? row with
    | none => rfl
    | some cells =>
      rw [held, Option.bind_some] at failed
      have beyond : ¬ (0 ≤ p.2 ∧ p.2 < cells.length) := fun bounds => by
        rw [if_pos bounds] at failed
        cases failed
      rw [Option.bind_some, ← Option.not_isSome_iff_eq_none, atIndex_isSome]
      exact beyond

omit [DecidableEq ι] in
/-- A thread that has ended has on the rectangle, with the same result. -/
theorem ended (carried : Carried base table rows flat pool) {value : α} (ended : pool.left i = .done value) :
    flat.left i = .done value := by
  have midway := carried.left i
  generalize flat.left i = program' at midway
  rw [ended] at midway
  generalize before : Program.done value = program at midway
  cases midway with
  | whole _ =>
    cases program' with
    | done value' =>
      cases before
      rfl
    | call op next => cases op <;> cases before
  | load next found => cases before
  | store next found => cases before

end Carried

/-- Threads on the blocks do what they do on the rectangle, in an order of which theirs is a refinement. -/
theorem carried_runs [DecidableEq ι] {malloc : RowAllocator V} {base : Extents V}
    {flat : Pool ι (CellOp (Int × Int) V) CellOp.Res α (Shared dom V)}
    {pool t : Pool ι (RowOp V) RowOp.Res α (RowState V)} {schedule : List ι}
    (carried : Carried base table rows flat pool) (ran : runs (Pool.step (rowMachine malloc)) pool schedule = some t) :
    ∃ order flat', order.Sublist schedule ∧ runs (Pool.step cellMachine) flat order = some flat' ∧
      Carried base table rows flat' t := by
  have simulates : ∀ (s : Pool ι (CellOp (Int × Int) V) CellOp.Res α (Shared dom V)) s' i t',
      Carried base table rows s s' → Pool.step (rowMachine malloc) s' i = some t' →
      Carried base table rows s t' ∨ ∃ t, Pool.step cellMachine s i = some t ∧ Carried base table rows t t' :=
    fun s s' i t' carried stepped => carried.step stepped
  exact runs_stutter simulates carried ran

end Foundation
