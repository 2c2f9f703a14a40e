import MazeWar.Foundation.Program

/-!
# Shared memory

Memory cells at the addresses of a fixed domain, and one counting semaphore.
An access outside the domain and a `wait` on a zero semaphore do not execute.
-/

namespace Foundation
variable {A V α : Type} {dom : A → Prop}

/-- One value for every address of the domain, and nothing else. -/
def Memory (dom : A → Prop) (V : Type) := {a // dom a} → V

namespace Memory

def get? [DecidablePred dom] (m : Memory dom V) (a : A) : Option V :=
  if h : dom a then some (m ⟨a, h⟩) else none

def put [DecidableEq A] (m : Memory dom V) (a : A) (v : V) : Memory dom V :=
  fun b => if b.1 = a then v else m b

section
variable [DecidablePred dom] {m : Memory dom V} {a b : A} {v : V}

theorem get?_isSome_iff : (m.get? a).isSome ↔ dom a := by
  unfold get?; split <;> simp_all

theorem get?_eq_some_iff : m.get? a = some v ↔ ∃ h : dom a, m ⟨a, h⟩ = v := by
  unfold get?; split <;> simp_all

theorem mem_of_get? (h : m.get? a = some v) : dom a :=
  get?_isSome_iff.mp (by rw [h]; rfl)

theorem exists_get? (h : dom a) : ∃ v, m.get? a = some v := ⟨m ⟨a, h⟩, dif_pos h⟩

theorem ext_get? {m' : Memory dom V} (same : ∀ a, m.get? a = m'.get? a) : m = m' := by
  funext ⟨a, h⟩
  have here := same a
  rw [get?, get?, dif_pos h, dif_pos h] at here
  exact Option.some.inj here

variable [DecidableEq A]

theorem get?_put_self (h : dom a) : (m.put a v).get? a = some v := by
  simp [get?, put, h]

theorem get?_put_ne (different : b ≠ a) : (m.put a v).get? b = m.get? b := by
  simp [get?, put, different]

theorem get?_put (h : dom a) : (m.put a v).get? b = if b = a then some v else m.get? b := by
  split
  · rename_i same; rw [same, get?_put_self h]
  · rename_i different; exact get?_put_ne different

end
end Memory

structure Shared (dom : A → Prop) (V : Type) where
  cells : Memory dom V
  sem : Nat

inductive CellOp (A V : Type) where
  | load (a : A)
  | store (a : A) (v : V)
  | wait
  | post

abbrev CellOp.Res : CellOp A V → Type
  | .load _ => V
  | .store _ _ | .wait | .post => Unit

abbrev CellProgram (A V α : Type) := Program (CellOp A V) CellOp.Res α

def cellMachine [DecidablePred dom] [DecidableEq A] :
    Machine (CellOp A V) CellOp.Res (Shared dom V)
  | .load a, s => (s.cells.get? a).map fun v => (v, s)
  | .store a v, s => if dom a then some ((), { s with cells := s.cells.put a v }) else none
  | .wait, s => if 0 < s.sem then some ((), { s with sem := s.sem - 1 }) else none
  | .post, s => some ((), { s with sem := s.sem + 1 })

def CellOp.address : CellOp A V → Option A
  | .load a | .store a _ => some a
  | .wait | .post => none

section Machine
variable [DecidablePred dom] [DecidableEq A] {s t : Shared dom V} {a : A} {v : V}

theorem cellMachine_load : cellMachine (.load a) s = some (v, t) ↔ s.cells.get? a = some v ∧ t = s := by
  constructor
  · intro executed
    obtain ⟨_, present, same⟩ := Option.map_eq_some_iff.mp executed
    cases same
    exact ⟨present, rfl⟩
  · rintro ⟨present, rfl⟩
    simp [cellMachine, present]

theorem cellMachine_store {done : Unit} : cellMachine (.store a v) s = some (done, t) ↔
    dom a ∧ t = { s with cells := s.cells.put a v } := by
  simp [cellMachine, eq_comm]

theorem cellMachine_wait {done : Unit} : cellMachine .wait s = some (done, t) ↔
    0 < s.sem ∧ t = { s with sem := s.sem - 1 } := by
  simp [cellMachine, eq_comm]

/-- What an operation does to the cells. -/
theorem cellMachine_cells {op : CellOp A V} {result : CellOp.Res op} (executed : cellMachine op s = some (result, t)) :
    t.cells = s.cells ∨ ∃ a v, op = .store a v ∧ dom a ∧ t.cells = s.cells.put a v := by
  cases op with
  | load a =>
    obtain ⟨_, rfl⟩ := cellMachine_load.mp executed
    exact .inl rfl
  | store a v =>
    obtain ⟨inside, rfl⟩ := cellMachine_store.mp executed
    exact .inr ⟨a, v, rfl, inside, rfl⟩
  | wait =>
    obtain ⟨_, rfl⟩ := cellMachine_wait.mp executed
    exact .inl rfl
  | post =>
    cases executed
    exact .inl rfl

@[simp] theorem run_load (next : V → CellProgram A V α) :
    (Program.call (CellOp.load a) next).run cellMachine s =
      (s.cells.get? a).bind fun v => (next v).run cellMachine s := by
  cases h : s.cells.get? a <;> simp [Program.run_call, cellMachine, h]

@[simp] theorem run_store (next : Unit → CellProgram A V α) :
    (Program.call (CellOp.store a v) next).run cellMachine s =
      if dom a then (next ()).run cellMachine { s with cells := s.cells.put a v } else none := by
  by_cases h : dom a <;> simp [Program.run_call, cellMachine, h]

@[simp] theorem run_wait (next : Unit → CellProgram A V α) :
    (Program.call CellOp.wait next).run cellMachine s =
      if 0 < s.sem then (next ()).run cellMachine { s with sem := s.sem - 1 } else none := by
  by_cases h : 0 < s.sem <;> simp [Program.run_call, cellMachine, h]

@[simp] theorem run_post (next : Unit → CellProgram A V α) :
    (Program.call CellOp.post next).run cellMachine s =
      (next ()).run cellMachine { s with sem := s.sem + 1 } := rfl

/-- The addresses a run accesses, up to and including the first access that fails. -/
def touched : CellProgram A V α → Shared dom V → List A
  | .done _, _ => []
  | .call op next, s => op.address.toList ++
      match cellMachine op s with
      | some (result, t) => touched (next result) t
      | none => []

theorem mem_touched_load (next : V → CellProgram A V α) : a ∈ touched (.call (CellOp.load a) next) s := by
  simp [touched, CellOp.address]

theorem touched_load (present : s.cells.get? a = some v) (next : V → CellProgram A V α) :
    touched (.call (CellOp.load a) next) s = a :: touched (next v) s := by
  simp [touched, CellOp.address, cellMachine, present]

theorem address_mem {op : CellOp A V} {result : CellOp.Res op} (executed : cellMachine op s = some (result, t)) :
    ∀ b ∈ op.address, dom b := by
  cases op with
  | load b =>
    rintro _ ⟨⟩
    exact Memory.mem_of_get? (cellMachine_load.mp executed).1
  | store b v =>
    rintro _ ⟨⟩
    exact (cellMachine_store.mp executed).1
  | wait | post => rintro _ ⟨⟩

theorem touched_mem {program : CellProgram A V α} (returns : (program.run cellMachine s).isSome) :
    ∀ b ∈ touched program s, dom b := by
  induction program generalizing s with
  | done value => simp [touched]
  | call op next ih =>
    obtain ⟨outcome, ran⟩ := Option.isSome_iff_exists.mp returns
    obtain ⟨⟨result, t⟩, executed, rest⟩ := Option.bind_eq_some_iff.mp ran
    intro b member
    simp only [touched, executed, List.mem_append, Option.mem_toList] at member
    rcases member with here | later
    · exact address_mem executed b here
    · exact ih result (by rw [rest]; rfl) b later

/-- The program ends and every access it makes is to a cell that exists. -/
def Sound (program : CellProgram A V α) (s : Shared dom V) : Prop :=
  (program.run cellMachine s).isSome ∧ ∀ b ∈ touched program s, dom b

theorem sound_of_run {program : CellProgram A V α} (returns : (program.run cellMachine s).isSome) :
    Sound program s := ⟨returns, touched_mem returns⟩

theorem Program.Ends.sound {program : CellProgram A V α} {Q : α → Shared dom V → Prop}
    (ends : program.Ends cellMachine s Q) : Sound program s := sound_of_run ends.isSome

/-! ### Critical sections -/

/-- Executes a program up to and including the first `post`, in one step. -/
def untilPost : CellProgram A V α → Shared dom V → Option (CellProgram A V α × Shared dom V)
  | .done value, s => some (.done value, s)
  | .call .post next, s => some (next (), { s with sem := s.sem + 1 })
  | .call op next, s => (cellMachine op s).bind fun answer => untilPost (next answer.1) answer.2

@[simp] theorem untilPost_load (next : V → CellProgram A V α) :
    untilPost (.call (CellOp.load a) next) s = (s.cells.get? a).bind fun v => untilPost (next v) s := by
  cases h : s.cells.get? a <;> simp [untilPost, cellMachine, h]

@[simp] theorem untilPost_store (next : Unit → CellProgram A V α) :
    untilPost (.call (CellOp.store a v) next) s =
      if dom a then untilPost (next ()) { s with cells := s.cells.put a v } else none := by
  by_cases h : dom a <;> simp [untilPost, cellMachine, h]

@[simp] theorem untilPost_wait (next : Unit → CellProgram A V α) :
    untilPost (.call CellOp.wait next) s =
      if 0 < s.sem then untilPost (next ()) { s with sem := s.sem - 1 } else none := by
  by_cases h : 0 < s.sem <;> simp [untilPost, cellMachine, h]

@[simp] theorem untilPost_post (next : Unit → CellProgram A V α) :
    untilPost (.call CellOp.post next) s = some (next (), { s with sem := s.sem + 1 }) := rfl

/-- A critical section and what follows it, with nothing in between, are the program. -/
theorem run_untilPost (program : CellProgram A V α) (s : Shared dom V) :
    program.run cellMachine s = (untilPost program s).bind fun left => left.1.run cellMachine left.2 := by
  induction program generalizing s with
  | done value => rfl
  | call op next ih =>
    cases op with
    | post => rfl
    | load a =>
      rw [run_load, untilPost_load, Option.bind_assoc]
      exact congrArg _ (funext fun v => ih v s)
    | store a v =>
      rw [run_store, untilPost_store]
      split
      · exact ih () _
      · rfl
    | wait =>
      rw [run_wait, untilPost_wait]
      split
      · exact ih () _
      · rfl

end Machine
end Foundation
