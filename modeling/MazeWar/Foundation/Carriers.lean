import MazeWar.Foundation.Memory

/-!
# Programs that carry a token

Threads share a memory. Each has a token of its own, which it writes to cells and
blanks again. When no thread writes its token over anything but a blank, the steps
of one thread never change where the token of another lies.
-/

namespace Foundation
variable {A V α : Type} {dom : A → Prop}

/-- `Carries blank token R program places`: run on from a memory in which the token lies exactly
on `places`, the program stores only its token, blanks only places of its token, and ends with
a value and places that satisfy `R`. -/
def Carries (blank token : V) (R : α → Set A → Prop) : CellProgram A V α → Set A → Prop
  | .done value, places => R value places
  | .call (.load a) next, places => ∀ v, (v = token ↔ a ∈ places) → Carries blank token R (next v) places
  | .call (.store a v) next, places =>
    (v = token ∧ Carries blank token R (next ()) (insert a places)) ∨
    (v = blank ∧ a ∈ places ∧ Carries blank token R (next ()) (places \ {a}))
  | .call .wait next, places => Carries blank token R (next ()) places
  | .call .post next, places => Carries blank token R (next ()) places

section Equations
variable {blank token v : V} {R : α → Set A → Prop} {a : A} {places : Set A}

@[simp] theorem carries_pure (value : α) :
    Carries blank token R (pure value : CellProgram A V α) places ↔ R value places := Iff.rfl

@[simp] theorem carries_load (next : V → CellProgram A V α) :
    Carries blank token R (.call (CellOp.load a) next) places ↔
      ∀ v, (v = token ↔ a ∈ places) → Carries blank token R (next v) places := Iff.rfl

@[simp] theorem carries_wait (next : Unit → CellProgram A V α) :
    Carries blank token R (.call CellOp.wait next) places ↔ Carries blank token R (next ()) places := Iff.rfl

@[simp] theorem carries_post (next : Unit → CellProgram A V α) :
    Carries blank token R (.call CellOp.post next) places ↔ Carries blank token R (next ()) places := Iff.rfl

end Equations

section
variable [DecidablePred dom]

/-- The token lies on `places` and nowhere else. -/
def LiesOn (token : V) (m : Memory dom V) (places : Set A) : Prop :=
  ∀ a, m.get? a = some token ↔ a ∈ places

variable [DecidableEq A]

def advance (program : CellProgram A V α) (s : Shared dom V) : Option (CellProgram A V α × Shared dom V) :=
  match program with
  | .done _ => none
  | .call op next => (cellMachine op s).map fun answer => (next answer.1, answer.2)

/-- The thread is not about to write over a cell that holds something. -/
def StoresOnBlank (blank : V) (program : CellProgram A V α) (s : Shared dom V) : Prop :=
  match program with
  | .call (.store a v) _ => v = blank ∨ s.cells.get? a = some blank
  | _ => True

instance [DecidableEq V] (blank : V) (program : CellProgram A V α) (s : Shared dom V) :
    Decidable (StoresOnBlank blank program s) :=
  match program with
  | .call (.store a v) _ => inferInstanceAs (Decidable (v = blank ∨ s.cells.get? a = some blank))
  | .call (.load _) _ | .call .wait _ | .call .post _ | .done _ => .isTrue trivial

variable {blank token other v : V} {R : α → Set A → Prop} {program rest : CellProgram A V α}
  {places places' : Set A} {m : Memory dom V} {s t : Shared dom V} {a : A}

theorem LiesOn.put (lies : LiesOn token m places) (inside : dom a) :
    LiesOn token (m.put a token) (insert a places) := by
  intro b
  rw [Memory.get?_put inside]
  by_cases same : b = a
  · simp [same]
  · simp [same, lies b]

theorem LiesOn.drop (lies : LiesOn token m places) (inside : dom a) (different : v ≠ token) :
    LiesOn token (m.put a v) (places \ {a}) := by
  intro b
  rw [Memory.get?_put inside]
  by_cases same : b = a
  · simp [same, different]
  · simp [same, lies b]

theorem LiesOn.untouched (lies : LiesOn token m places) (inside : dom a) (different : v ≠ token)
    (off : a ∉ places) : LiesOn token (m.put a v) places := by
  have dropped := lies.drop inside different
  rwa [Set.sdiff_singleton_eq_self off] at dropped

theorem advance_store {next : Unit → CellProgram A V α}
    (advanced : advance (.call (.store a v) next) s = some (rest, t)) : dom a ∧ t.cells = s.cells.put a v := by
  obtain ⟨⟨_, u⟩, executed, stepped⟩ := Option.map_eq_some_iff.mp advanced
  cases stepped
  obtain ⟨inside, rfl⟩ := cellMachine_store.mp executed
  exact ⟨inside, rfl⟩

/-- What a step of the thread does to the cells. -/
theorem advance_cells (advanced : advance program s = some (rest, t)) :
    t.cells = s.cells ∨ ∃ a v next, program = .call (.store a v) next ∧ dom a ∧ t.cells = s.cells.put a v := by
  cases program with
  | done value => cases advanced
  | call op next =>
    obtain ⟨⟨result, u⟩, executed, stepped⟩ := Option.map_eq_some_iff.mp advanced
    cases stepped
    rcases cellMachine_cells executed with kept | ⟨a, v, rfl, inside, written⟩
    · exact .inl kept
    · exact .inr ⟨a, v, next, rfl, inside, written⟩

theorem advance_own (visible : token ≠ blank) (carries : Carries blank token R program places)
    (lies : LiesOn token s.cells places) (advanced : advance program s = some (rest, t)) :
    ∃ places, Carries blank token R rest places ∧ LiesOn token t.cells places := by
  cases program with
  | done value => cases advanced
  | call op next =>
    obtain ⟨⟨result, u⟩, executed, stepped⟩ := Option.map_eq_some_iff.mp advanced
    cases stepped
    cases op with
    | load a =>
      obtain ⟨present, rfl⟩ := cellMachine_load.mp executed
      refine ⟨places, carries result ?_, lies⟩
      rw [← lies a, present, Option.some.injEq]
    | store a v =>
      obtain ⟨inside, rfl⟩ := cellMachine_store.mp executed
      rcases carries with ⟨rfl, carries⟩ | ⟨rfl, _, carries⟩
      · exact ⟨_, carries, lies.put inside⟩
      · exact ⟨_, carries, lies.drop inside visible.symm⟩
    | wait =>
      obtain ⟨_, rfl⟩ := cellMachine_wait.mp executed
      exact ⟨places, carries, lies⟩
    | post =>
      cases executed
      exact ⟨places, carries, lies⟩

theorem advance_other (solid : token ≠ blank) (visible : other ≠ blank) (distinct : token ≠ other)
    (carries : Carries blank token R program places) (lies : LiesOn token s.cells places)
    (clear : StoresOnBlank blank program s) (others : LiesOn other s.cells places')
    (advanced : advance program s = some (rest, t)) : LiesOn other t.cells places' := by
  unfold LiesOn
  rcases advance_cells advanced with kept | ⟨a, v, next, rfl, inside, written⟩
  · rw [kept]
    exact others
  · rw [written]
    -- The cell written holds a blank or the writer's own token, never the other's.
    rcases carries with ⟨rfl, _⟩ | ⟨rfl, own, _⟩
    · refine others.untouched inside distinct fun there => ?_
      have blankThere := clear.resolve_left solid
      exact visible (Option.some.inj (((others a).mpr there).symm.trans blankThere))
    · refine others.untouched inside visible.symm fun there => ?_
      exact distinct (Option.some.inj (((lies a).mpr own).symm.trans ((others a).mpr there)))

end
end Foundation
