import Mathlib.Data.Finmap
import MazeWar.Foundation.Memory

/-!
# Rectangles in blocks

A rectangle of cells in memory: each row is a block, and a table of pointers leads to the rows. Programs
over the cells run on the blocks as on the rectangle, and all other blocks stay as they are.
-/

namespace Foundation
variable {V α : Type}

/-- A block is a table of pointers, of which some may not have been stored, or a row of cells. -/
inductive Extent (V : Type) where
  | table (rows : List (Option Nat))
  | row (cells : List V)

abbrev Extents (V : Type) := Finmap fun _ : Nat => Extent V

namespace Extents

def rows? (heap : Extents V) (address : Nat) : Option (List (Option Nat)) :=
  match heap.lookup address with
  | some (.table rows) => some rows
  | _ => none

def cells? (heap : Extents V) (address : Nat) : Option (List V) :=
  match heap.lookup address with
  | some (.row cells) => some cells
  | _ => none

theorem cells?_eq_some {heap : Extents V} {address : Nat} {cells : List V} :
    heap.cells? address = some cells ↔ heap.lookup address = some (.row cells) := by
  unfold cells?
  split
  · rename_i stored
    rw [stored]
    simp
  · rename_i other
    exact iff_of_false (by simp) (other cells)

end Extents

/-- `malloc`: a block that is not allocated, and what it holds. -/
structure RowAllocator (V : Type) where
  choose : Extents V → Nat
  fresh : ∀ heap, choose heap ∉ heap
  junk : Extents V → Nat → V

/-- The element at an index that may be out of bounds. -/
def atIndex (l : List α) (i : Int) : Option α := if 0 ≤ i then l[i.toNat]? else none

structure RowState (V : Type) where
  heap : Extents V
  sem : Nat

inductive RowOp (V : Type) where
  | mallocTable (n : Int)
  | mallocRow (n : Int)
  | setRow (table : Nat) (i : Int) (row : Nat)
  | getRow (table : Nat) (i : Int)
  | getCell (row : Nat) (j : Int)
  | setCell (row : Nat) (j : Int) (v : V)
  | free (address : Nat)
  | wait
  | post

abbrev RowOp.Res : RowOp V → Type
  | .mallocTable _ | .mallocRow _ | .getRow _ _ => Nat
  | .getCell _ _ => V
  | _ => Unit

abbrev RowProgram (V α : Type) := Program (RowOp V) RowOp.Res α

/-- An access to a block that is not allocated, or outside of it, does not execute. -/
def rowMachine (malloc : RowAllocator V) : Machine (RowOp V) RowOp.Res (RowState V)
  | .mallocTable n, s =>
    let address := malloc.choose s.heap
    some (address, { s with heap := s.heap.insert address (.table (List.replicate n.toNat none)) })
  | .mallocRow n, s =>
    let address := malloc.choose s.heap
    some (address, { s with heap := s.heap.insert address (.row ((List.range n.toNat).map (malloc.junk s.heap))) })
  | .setRow table i row, s => (s.heap.rows? table).bind fun rows =>
    if 0 ≤ i ∧ i < rows.length then
      some ((), { s with heap := s.heap.insert table (.table (rows.set i.toNat (some row))) })
    else none
  | .getRow table i, s => ((s.heap.rows? table).bind fun rows => (atIndex rows i).join).map fun row => (row, s)
  | .getCell row j, s => ((s.heap.cells? row).bind fun cells => atIndex cells j).map fun v => (v, s)
  | .setCell row j v, s => (s.heap.cells? row).bind fun cells =>
    if 0 ≤ j ∧ j < cells.length then
      some ((), { s with heap := s.heap.insert row (.row (cells.set j.toNat v)) })
    else none
  | .free address, s => if address ∈ s.heap then some ((), { s with heap := s.heap.erase address }) else none
  | .wait, s => if 0 < s.sem then some ((), { s with sem := s.sem - 1 }) else none
  | .post, s => some ((), { s with sem := s.sem + 1 })

/-- `table[i][j]` -/
def rowCode (table : Nat) : (op : CellOp (Int × Int) V) → RowProgram V (CellOp.Res op)
  | .load p => do
    let row ← Program.perform (.getRow table p.1)
    Program.perform (RowOp.getCell row p.2)
  | .store p v => do
    let row ← Program.perform (.getRow table p.1)
    Program.perform (RowOp.setCell row p.2 v)
  | .wait => Program.perform RowOp.wait
  | .post => Program.perform RowOp.post

def allocateRows (rows cols : Int) : RowProgram V Nat := do
  let table ← Program.perform (.mallocTable rows)
  Program.forUp 0 rows () fun i _ => do
    Program.perform (RowOp.setRow table i (← Program.perform (.mallocRow cols)))
    return .yield ()
  return table

def freeRows (table : Nat) (rows : Int) : RowProgram V Unit := do
  Program.forUp 0 rows () fun i _ => do
    Program.perform (RowOp.free (← Program.perform (.getRow table i)))
    return .yield ()
  Program.perform (RowOp.free table)

/-! ### Blocks that lay out a rectangle -/

variable {dom : Int × Int → Prop} [DecidablePred dom]

/-- The blocks are those of `base`, the table and the rows. -/
structure Holds (base heap : Extents V) (table : Nat) (entries : List (Option Nat)) (rows : List Nat) : Prop where
  pointers : heap.lookup table = some (.table entries)
  stored : ∀ a ∈ rows, ∃ cells, heap.lookup a = some (.row cells)
  distinct : (table :: rows).Nodup
  new : ∀ a ∈ table :: rows, a ∉ base
  others : ∀ a, a ∉ table :: rows → heap.lookup a = base.lookup a

/-- The table leads to the rows, and they hold the cells. -/
structure LaysOut (base heap : Extents V) (table : Nat) (rows : List Nat) (m : Memory dom V) : Prop
    extends Holds base heap table (rows.map some) rows where
  cells : ∀ p, m.get? p = (atIndex rows p.1).bind fun a => (heap.cells? a).bind fun cells => atIndex cells p.2

theorem atIndex_some {l : List α} {i : Int} {a : α} : atIndex l i = some a ↔ 0 ≤ i ∧ l[i.toNat]? = some a :=
  Option.ite_none_right_eq_some

theorem atIndex_map {β : Type} (f : α → β) (l : List α) (i : Int) : atIndex (l.map f) i = (atIndex l i).map f := by
  unfold atIndex
  split
  · rw [List.getElem?_map]
  · rfl

theorem atIndex_set {l : List α} {i j : Int} {a : α} (low : 0 ≤ i) (high : i < l.length) :
    atIndex (l.set i.toNat a) j = if j = i then some a else atIndex l j := by
  unfold atIndex
  by_cases left : 0 ≤ j
  · rw [if_pos left, if_pos left, List.getElem?_set]
    by_cases same : j = i
    · subst same
      rw [if_pos rfl, if_pos rfl, if_pos (by omega)]
    · rw [if_neg (by omega), if_neg same]
  · rw [if_neg left, if_neg left, if_neg (by omega)]

theorem atIndex_isSome {l : List α} {i : Int} : (atIndex l i).isSome ↔ 0 ≤ i ∧ i < l.length := by
  unfold atIndex
  split
  · rw [isSome_getElem?]
    omega
  · simp only [Option.isSome_none, Bool.false_eq_true, false_iff, not_and]
    omega

theorem atIndex_inj {l : List α} (distinct : l.Nodup) {i j : Int} {a : α} (first : atIndex l i = some a)
    (second : atIndex l j = some a) : i = j := by
  obtain ⟨low, here⟩ := atIndex_some.mp first
  obtain ⟨low', there⟩ := atIndex_some.mp second
  obtain ⟨bound, _⟩ := List.getElem?_eq_some_iff.mp here
  have same := (List.getElem?_inj bound distinct).mp (here.trans there.symm)
  omega

theorem Holds.getRow {malloc : RowAllocator V} {base heap : Extents V} {table sem : Nat} {entries : List (Option Nat)}
    {rows : List Nat} (holds : Holds base heap table entries rows) (i : Int) :
    rowMachine malloc (.getRow table i) ⟨heap, sem⟩ = (atIndex entries i).join.map fun row => (row, ⟨heap, sem⟩) := by
  simp only [rowMachine, Extents.rows?, holds.pointers, Option.bind_some]

namespace LaysOut
variable {malloc : RowAllocator V} {base heap : Extents V} {table : Nat} {rows : List Nat} {m : Memory dom V}
  {p : Int × Int} {v : V} {sem : Nat}

theorem getRow (out : LaysOut base heap table rows m) (i : Int) :
    rowMachine malloc (.getRow table i) ⟨heap, sem⟩ = (atIndex rows i).map fun row => (row, ⟨heap, sem⟩) := by
  rw [out.toHolds.getRow, atIndex_map]
  cases atIndex rows i <;> rfl

/-- The row that a cell is in. -/
theorem exists_row (out : LaysOut base heap table rows m) (inside : dom p) : ∃ a cells,
    atIndex rows p.1 = some a ∧ heap.lookup a = some (.row cells) ∧ 0 ≤ p.2 ∧ p.2 < cells.length := by
  obtain ⟨v, present⟩ := Memory.exists_get? (m := m) inside
  rw [out.cells] at present
  obtain ⟨a, row, present⟩ := Option.bind_eq_some_iff.mp present
  obtain ⟨cells, stored, present⟩ := Option.bind_eq_some_iff.mp present
  have member : a ∈ rows := List.mem_of_getElem? (atIndex_some.mp row).2
  obtain ⟨cells', stored'⟩ := out.stored a member
  rw [Extents.cells?, stored'] at stored
  cases stored
  exact ⟨a, cells, row, stored', atIndex_isSome.mp (Option.isSome_of_eq_some present)⟩

theorem load (out : LaysOut base heap table rows m) :
    (rowCode table (.load p)).run (rowMachine malloc) ⟨heap, sem⟩ = (m.get? p).map fun v => (v, ⟨heap, sem⟩) := by
  rw [rowCode, Program.perform_bind, Program.run_call, out.getRow, out.cells]
  cases atIndex rows p.1 with
  | none => rfl
  | some a => exact Program.run_perform _ _ _

theorem store_outside (out : LaysOut base heap table rows m) (outside : ¬ dom p) :
    (rowCode table (.store p v)).run (rowMachine malloc) ⟨heap, sem⟩ = none := by
  have absent : m.get? p = none := Option.not_isSome_iff_eq_none.mp (Memory.get?_isSome_iff.not.mpr outside)
  rw [out.cells] at absent
  rw [rowCode, Program.perform_bind, Program.run_call, out.getRow]
  cases row : atIndex rows p.1 with
  | none => rfl
  | some a =>
    rw [row, Option.bind_some] at absent
    rw [Option.map_some, Option.bind_some, Program.run_perform, rowMachine]
    cases stored : heap.cells? a with
    | none => rfl
    | some cells =>
      rw [stored, Option.bind_some] at absent
      have beyond : ¬ (0 ≤ p.2 ∧ p.2 < cells.length) := by
        rw [← atIndex_isSome, absent]
        exact Bool.false_ne_true
      rw [Option.bind_some, if_neg beyond]

theorem put (out : LaysOut base heap table rows m) (inside : dom p) {a : Nat} {cells : List V}
    (row : atIndex rows p.1 = some a) (stored : heap.lookup a = some (.row cells)) (left : 0 ≤ p.2) (right : p.2 < cells.length) :
    LaysOut base (heap.insert a (.row (cells.set p.2.toNat v))) table rows (m.put p v) := by
  have member : a ∈ rows := List.mem_of_getElem? (atIndex_some.mp row).2
  have apart : table ≠ a := fun same => (List.nodup_cons.mp out.distinct).1 (same ▸ member)
  have written : Extents.cells? (heap.insert a (.row (cells.set p.2.toNat v))) a = some (cells.set p.2.toNat v) := by
    rw [Extents.cells?, Finmap.lookup_insert]
  have unwritten : ∀ b, b ≠ a → Extents.cells? (heap.insert a (.row (cells.set p.2.toNat v))) b = heap.cells? b := by
    intro b other
    rw [Extents.cells?, Finmap.lookup_insert_of_ne _ other]
    rfl
  refine ⟨⟨?_, fun b member => ?_, out.distinct, out.new, fun b other => ?_⟩, fun q => ?_⟩
  · rw [Finmap.lookup_insert_of_ne _ apart]
    exact out.pointers
  · by_cases same : b = a
    · subst same
      exact ⟨_, Finmap.lookup_insert _⟩
    · rw [Finmap.lookup_insert_of_ne _ same]
      exact out.stored b member
  · have away : b ≠ a := fun same => other (same ▸ List.mem_cons_of_mem table member)
    rw [Finmap.lookup_insert_of_ne _ away]
    exact out.others b other
  · rw [Memory.get?_put inside, out.cells q]
    cases found : atIndex rows q.1 with
    | none =>
      have elsewhere : q ≠ p := by
        rintro rfl
        rw [row] at found
        cases found
      rw [if_neg elsewhere]
      rfl
    | some b =>
      simp only [Option.bind_some]
      by_cases same : b = a
      · subst same
        have level := atIndex_inj (List.nodup_cons.mp out.distinct).2 found row
        rw [written, Option.bind_some, atIndex_set left right, Extents.cells?, stored]
        simp only [Option.bind_some, Prod.ext_iff, level, true_and]
      · have elsewhere : q ≠ p := by
          rintro rfl
          exact same (Option.some.inj (found.symm.trans row))
        rw [unwritten b same, if_neg elsewhere]

theorem store_inside (out : LaysOut base heap table rows m) (malloc : RowAllocator V) (v : V) (sem : Nat)
    (inside : dom p) : ∃ heap',
    (rowCode table (.store p v)).run (rowMachine malloc) ⟨heap, sem⟩ = some ((), ⟨heap', sem⟩) ∧
      LaysOut base heap' table rows (m.put p v) := by
  obtain ⟨a, cells, row, stored, left, right⟩ := out.exists_row inside
  refine ⟨heap.insert a (.row (cells.set p.2.toNat v)), ?_, out.put inside row stored left right⟩
  rw [rowCode, Program.perform_bind, Program.run_call, out.getRow, row, Option.map_some, Option.bind_some,
    Program.run_perform, rowMachine, Extents.cells?, stored, Option.bind_some, if_pos ⟨left, right⟩]

end LaysOut

/-- A program over the cells runs on the blocks as on the rectangle. -/
theorem rowCode_simulates (malloc : RowAllocator V) (base : Extents V) (table : Nat) (rows : List Nat)
    (op : CellOp (Int × Int) V) (s : Shared dom V) (t : RowState V)
    (out : LaysOut base t.heap table rows s.cells ∧ t.sem = s.sem) :
    Program.Alike (fun (s : Shared dom V) (t : RowState V) => LaysOut base t.heap table rows s.cells ∧ t.sem = s.sem)
      (cellMachine op s) ((rowCode table op).run (rowMachine malloc) t) := by
  obtain ⟨cells, sem⟩ := s
  obtain ⟨heap, sem'⟩ := t
  obtain ⟨out, same⟩ := out
  simp only at out same
  subst same
  cases op with
  | load p =>
    rw [out.load, cellMachine]
    cases cells.get? p with
    | none => exact .none
    | some v => exact .some ⟨rfl, out, rfl⟩
  | store p v =>
    by_cases inside : dom p
    · obtain ⟨heap', ran, out'⟩ := out.store_inside malloc v sem' inside
      rw [ran, cellMachine, if_pos inside]
      exact .some ⟨rfl, out', rfl⟩
    · rw [out.store_outside inside, cellMachine, if_neg inside]
      exact .none
  | wait =>
    rw [rowCode, Program.run_perform, rowMachine, cellMachine]
    by_cases free : 0 < sem'
    · rw [if_pos free, if_pos free]
      exact .some ⟨rfl, out, rfl⟩
    · rw [if_neg free, if_neg free]
      exact .none
  | post => exact .some ⟨rfl, out, rfl⟩

/-! ### Allocating and freeing -/

namespace Holds
variable {malloc : RowAllocator V} {base heap : Extents V} {table a : Nat} {entries : List (Option Nat)}
  {rows : List Nat}

theorem mem (holds : Holds base heap table entries rows) (member : a ∈ table :: rows) : a ∈ heap := by
  rcases List.mem_cons.mp member with rfl | row
  · exact Finmap.mem_of_lookup_eq_some holds.pointers
  · obtain ⟨cells, stored⟩ := holds.stored a row
    exact Finmap.mem_of_lookup_eq_some stored

/-- A block that is not allocated is none of these. -/
theorem fresh (holds : Holds base heap table entries rows) (absent : a ∉ heap) : a ∉ table :: rows ∧ a ∉ base := by
  have other : a ∉ table :: rows := fun member => absent (holds.mem member)
  refine ⟨other, ?_⟩
  rw [← Finmap.lookup_eq_none, ← holds.others a other]
  exact Finmap.lookup_eq_none.mpr absent

/-- A further row, and a table that may lead to it. -/
theorem push (holds : Holds base heap table entries rows) (absent : a ∉ heap) (cells : List V)
    (entries' : List (Option Nat)) :
    Holds base ((heap.insert a (.row cells)).insert table (.table entries')) table entries' (rows ++ [a]) := by
  obtain ⟨other, new⟩ := holds.fresh absent
  obtain ⟨apart, notRow⟩ := List.ne_and_not_mem_of_not_mem_cons other
  obtain ⟨tableNew, distinct⟩ := List.nodup_cons.mp holds.distinct
  refine ⟨Finmap.lookup_insert _, fun b member => ?_, ?_, ?_, fun b away => ?_⟩
  · have notTable : b ≠ table := by
      rintro rfl
      rcases List.mem_append.mp member with row | last
      · exact tableNew row
      · exact apart (List.mem_singleton.mp last).symm
    rw [Finmap.lookup_insert_of_ne _ notTable]
    by_cases same : b = a
    · exact ⟨cells, by rw [same, Finmap.lookup_insert]⟩
    · rw [Finmap.lookup_insert_of_ne _ same]
      exact holds.stored b ((List.mem_append.mp member).resolve_right fun last => same (List.mem_singleton.mp last))
  · rw [← List.cons_append]
    exact holds.distinct.append (List.nodup_singleton a) (List.disjoint_singleton.mpr other)
  · rw [← List.cons_append, List.forall_mem_append]
    exact ⟨holds.new, by simpa using new⟩
  · rw [← List.cons_append, List.mem_append, List.mem_singleton, not_or] at away
    have notTable : b ≠ table := List.ne_of_not_mem_cons away.1
    rw [Finmap.lookup_insert_of_ne _ notTable, Finmap.lookup_insert_of_ne _ away.2]
    exact holds.others b away.1

theorem pop (holds : Holds base heap table entries (a :: rows)) : Holds base (heap.erase a) table entries rows := by
  have distinct := holds.distinct
  rw [List.nodup_cons, List.nodup_cons, List.mem_cons, not_or] at distinct
  obtain ⟨⟨apart, notRow⟩, absent, rest⟩ := distinct
  refine ⟨?_, fun b member => ?_, List.nodup_cons.mpr ⟨notRow, rest⟩, fun b member => ?_, fun b away => ?_⟩
  · rw [Finmap.lookup_erase_ne apart]
    exact holds.pointers
  · have other : b ≠ a := fun same => absent (same ▸ member)
    rw [Finmap.lookup_erase_ne other]
    exact holds.stored b (List.mem_cons_of_mem a member)
  · refine holds.new b ?_
    rcases List.mem_cons.mp member with rfl | row
    · exact List.mem_cons_self
    · exact List.mem_cons_of_mem table (List.mem_cons_of_mem a row)
  · by_cases same : b = a
    · subst same
      rw [Finmap.lookup_erase]
      exact (Finmap.lookup_eq_none.mpr (holds.new b (List.mem_cons_of_mem table List.mem_cons_self))).symm
    · rw [Finmap.lookup_erase_ne same]
      refine holds.others b fun member => away ?_
      rcases List.mem_cons.mp member with rfl | row
      · exact List.mem_cons_self
      · exact List.mem_cons_of_mem table ((List.mem_cons.mp row).resolve_left same)

theorem last (holds : Holds base heap table entries []) : heap.erase table = base := by
  refine Finmap.ext_lookup fun a => ?_
  by_cases same : a = table
  · subst same
    rw [Finmap.lookup_erase]
    exact (Finmap.lookup_eq_none.mpr (holds.new a List.mem_cons_self)).symm
  · rw [Finmap.lookup_erase_ne same]
    exact holds.others a fun member => same (List.mem_singleton.mp member)

end Holds

section Runs
variable {malloc : RowAllocator V} {base heap : Extents V} {table : Nat} {entries : List (Option Nat)} {rows : List Nat}
  {sem : Nat} {s : RowState V}

theorem rowMachine_free {a : Nat} (live : a ∈ s.heap) :
    rowMachine malloc (.free a) s = some ((), { s with heap := s.heap.erase a }) := if_pos live

/-- Freeing leaves the blocks that were there before. -/
theorem freeRows_run (holds : Holds base heap table (rows.map some) rows) :
    (freeRows table rows.length).run (rowMachine malloc) ⟨heap, sem⟩ = some ((), ⟨base, sem⟩) := by
  have freed : (freeRows table rows.length : RowProgram V Unit).Ends (rowMachine malloc) ⟨heap, sem⟩ fun _ t =>
      t = ⟨base, sem⟩ := by
    refine Program.Ends.bind (R := fun _ t => t.sem = sem ∧ Holds base t.heap table (rows.map some) []) ?_ ?_
    · refine Program.Ends.forUp (fun i _ t => t.sem = sem ∧ Holds base t.heap table (rows.map some) (rows.drop i.toNat))
        ⟨rfl, holds⟩ ?_ ?_
      · intro i _ t low high inv
        obtain ⟨same, inv⟩ := inv
        have bound : i.toNat < rows.length := by omega
        have following : (i + 1).toNat = i.toNat + 1 := by omega
        rw [List.drop_eq_getElem_cons bound] at inv
        have pointer : (atIndex (rows.map some) i).join = some rows[i.toNat] := by
          rw [atIndex_map, atIndex_some.mpr ⟨low, List.getElem?_eq_getElem bound⟩]
          rfl
        have got : rowMachine malloc (.getRow table i) t = some (rows[i.toNat], t) := by
          rw [inv.getRow, pointer]
          rfl
        have live := inv.mem (List.mem_cons_of_mem table List.mem_cons_self)
        refine Program.Ends.call got (Program.Ends.call (rowMachine_free live) (Program.Ends.pure ⟨same, ?_⟩))
        rw [following]
        exact inv.pop
      · intro _ t inv
        have stop : (max 0 (rows.length : Int)).toNat = rows.length := by omega
        rwa [stop, List.drop_length] at inv
    · rintro _ t ⟨same, inv⟩
      refine Program.Ends.call (rowMachine_free (inv.mem List.mem_cons_self)) (Program.Ends.pure ?_)
      rw [inv.last, same]
  obtain ⟨_, t, ran, rfl⟩ := freed
  exact ran

/-- Without the table no cell is found. -/
theorem rowCode_freed (freed : table ∉ heap) {op : CellOp (Int × Int) V} (accesses : op.address.isSome) :
    (rowCode table op).run (rowMachine malloc) ⟨heap, sem⟩ = none := by
  have gone : heap.rows? table = none := by rw [Extents.rows?, Finmap.lookup_eq_none.mpr freed]
  cases op with
  | load p | store p v => simp [rowCode, Program.run_call, rowMachine, gone]
  | wait | post => cases accesses

/-- The state of the allocation after so many of the rows. -/
structure Allocating (base : Extents V) (sem table height cols i : Nat) (rows : List Nat) (t : RowState V) : Prop where
  sem : t.sem = sem
  count : rows.length = i
  holds : Holds base t.heap table (rows.map some ++ List.replicate (height - i) none) rows
  wide : ∀ a ∈ rows, ∃ cells, t.heap.lookup a = some (.row cells) ∧ cells.length = cols

theorem entries_set (rows : List Nat) (n a : Nat) :
    (rows.map some ++ List.replicate (n + 1) none).set rows.length (some a) =
      (rows ++ [a]).map some ++ List.replicate n none := by
  rw [List.set_append_right _ _ (by simp), List.length_map, Nat.sub_self, List.replicate_succ, List.set_cons_zero,
    List.map_append, List.append_assoc]
  rfl

theorem Allocating.next {height cols i : Nat} {t : RowState V} (inv : Allocating base sem table height cols i rows t)
    (malloc : RowAllocator V) (more : i < height) : ∃ a u, (do
      Program.perform (RowOp.setRow table i (← Program.perform (.mallocRow cols)))
      return ForInStep.yield () : RowProgram V (ForInStep Unit)).run (rowMachine malloc) t = some (.yield (), u) ∧
      Allocating base sem table height cols (i + 1) (rows ++ [a]) u := by
  have absent := malloc.fresh t.heap
  have apart : table ≠ malloc.choose t.heap := fun same => absent (same ▸ inv.holds.mem List.mem_cons_self)
  have stored : Extents.rows? (t.heap.insert (malloc.choose t.heap)
      (.row ((List.range cols).map (malloc.junk t.heap)))) table =
        some (rows.map some ++ List.replicate (height - i) none) := by
    rw [Extents.rows?, Finmap.lookup_insert_of_ne _ apart, inv.holds.pointers]
  obtain ⟨n, room⟩ : ∃ n, height - i = n + 1 := ⟨height - i - 1, by omega⟩
  have bound : 0 ≤ (i : Int) ∧ (i : Int) < (rows.map some ++ List.replicate (height - i) none).length := by
    rw [List.length_append, List.length_map, List.length_replicate, inv.count]
    omega
  have entered : (rows.map some ++ List.replicate (height - i) none).set (i : Int).toNat (some (malloc.choose t.heap)) =
      (rows ++ [malloc.choose t.heap]).map some ++ List.replicate (height - (i + 1)) none := by
    rw [Int.toNat_natCast, room, ← inv.count, entries_set, inv.count]
    congr 2
    omega
  refine ⟨malloc.choose t.heap, ⟨(t.heap.insert (malloc.choose t.heap)
    (.row ((List.range cols).map (malloc.junk t.heap)))).insert table
      (.table ((rows ++ [malloc.choose t.heap]).map some ++ List.replicate (height - (i + 1)) none)), t.sem⟩, ?_,
    inv.sem, ?_, inv.holds.push absent _ _, fun b member => ?_⟩
  · simp only [Program.perform_bind, Program.run_call, rowMachine, Option.bind_some, Int.toNat_natCast, stored,
      if_pos bound]
    rw [← entered]
    rfl
  · rw [List.length_append, inv.count]
    rfl
  · have notTable : b ≠ table := by
      rintro rfl
      rcases List.mem_append.mp member with row | last
      · exact (List.nodup_cons.mp inv.holds.distinct).1 row
      · exact apart (List.mem_singleton.mp last)
    rw [Finmap.lookup_insert_of_ne _ notTable]
    by_cases same : b = malloc.choose t.heap
    · exact ⟨_, by rw [same, Finmap.lookup_insert], by simp⟩
    · rw [Finmap.lookup_insert_of_ne _ same]
      exact inv.wide b ((List.mem_append.mp member).resolve_right fun last => same (List.mem_singleton.mp last))

/-- Allocating adds a table and rows of the length. -/
theorem allocateRows_ends (malloc : RowAllocator V) (base : Extents V) (sem height cols : Nat) :
    (allocateRows height cols).Ends (rowMachine malloc) ⟨base, sem⟩ fun table t =>
      ∃ rows, Allocating base sem table height cols height rows t := by
  refine Program.Ends.call rfl ?_
  dsimp only [Program.bind]
  refine Program.Ends.bind (R := fun _ t => ∃ rows, Allocating base sem (malloc.choose base) height cols height rows t)
    ?_ ?_
  · refine Program.Ends.forUp
      (fun i _ t => ∃ rows, Allocating base sem (malloc.choose base) height cols i.toNat rows t) ?_ ?_ ?_
    · have absent := malloc.fresh base
      refine ⟨[], rfl, rfl,
        ⟨Finmap.lookup_insert _, by simp, List.nodup_singleton _, by simpa using absent, ?_⟩, by simp⟩
      intro a away
      exact Finmap.lookup_insert_of_ne _ fun same => away (List.mem_singleton.mpr same)
    · rintro i _ t low high ⟨rows, inv⟩
      obtain ⟨k, rfl⟩ := Int.eq_ofNat_of_zero_le low
      obtain ⟨a, u, ran, inv'⟩ := inv.next malloc (by simpa using high)
      exact ⟨_, u, ran, rows ++ [a], inv'⟩
    · rintro _ t ⟨rows, inv⟩
      have stop : (max 0 (height : Int)).toNat = height := by omega
      rw [stop] at inv
      exact ⟨rows, inv⟩
  · rintro _ t inv
    exact Program.Ends.pure inv

theorem Allocating.laysOut {height cols : Nat} {t : RowState V}
    (inv : Allocating base sem table height cols height rows t)
    (rectangle : ∀ p, dom p ↔ 0 ≤ p.1 ∧ p.1 < height ∧ 0 ≤ p.2 ∧ p.2 < cols) :
    ∃ m : Memory dom V, LaysOut base t.heap table rows m := by
  have here : ∀ p, ((atIndex rows p.1).bind fun a =>
      (t.heap.cells? a).bind fun cells => atIndex cells p.2).isSome ↔ dom p := by
    intro p
    rw [rectangle, ← inv.count, ← and_assoc, ← atIndex_isSome]
    cases found : atIndex rows p.1 with
    | none => simp
    | some a =>
      obtain ⟨cells, stored, long⟩ := inv.wide a (List.mem_of_getElem? (atIndex_some.mp found).2)
      rw [Option.bind_some, Extents.cells?, stored, Option.bind_some, atIndex_isSome, long]
      simp
  have holds := inv.holds
  rw [Nat.sub_self, List.replicate_zero, List.append_nil] at holds
  refine ⟨fun p => Option.get _ ((here p.1).mpr p.2), holds, fun p => ?_⟩
  by_cases inside : dom p
  · simp only [Memory.get?, dif_pos inside, Option.some_get]
  · simp only [Memory.get?, dif_neg inside, Option.not_isSome_iff_eq_none.mp ((here p).not.mpr inside)]

/-- From allocation to release, a program over the cells runs as on a rectangle, and the other blocks are left
as they were. -/
theorem rows_lifetime (malloc : RowAllocator V) (base : Extents V) (sem height cols : Nat)
    (rectangle : ∀ p, dom p ↔ 0 ≤ p.1 ∧ p.1 < height ∧ 0 ≤ p.2 ∧ p.2 < cols) :
    ∃ table, ∃ start : Memory dom V, table ∉ base ∧
      ∀ (α β : Type) (program : CellProgram (Int × Int) V α) (rest : Nat → α → RowProgram V β),
        (do
          let table ← allocateRows height cols
          let value ← program.lower (rowCode table)
          freeRows table height
          rest table value).run (rowMachine malloc) ⟨base, sem⟩ =
          (program.run cellMachine ⟨start, sem⟩).bind fun answer =>
            (rest table answer.1).run (rowMachine malloc) ⟨base, answer.2.sem⟩ := by
  obtain ⟨table, t, allocated, rows, inv⟩ := allocateRows_ends malloc base sem height cols
  obtain ⟨start, out⟩ := inv.laysOut rectangle
  refine ⟨table, start, out.new table List.mem_cons_self, fun α β program rest => ?_⟩
  rw [Program.run_bind, allocated, Option.bind_some, Program.run_bind]
  have alike := Program.lower_run (rowCode_simulates malloc base table rows) program
    (s := ⟨start, sem⟩) (t := t) ⟨out, inv.sem⟩
  generalize program.run cellMachine ⟨start, sem⟩ = flat at alike
  generalize (program.lower (rowCode table)).run (rowMachine malloc) t = ran at alike
  cases alike with
  | none => rfl
  | @some answer answer' same =>
    obtain ⟨value, out', sems⟩ := same
    rw [Option.bind_some, Option.bind_some, Program.run_bind, ← inv.count, freeRows_run out'.toHolds,
      Option.bind_some, sems, value]

end Runs

end Foundation
