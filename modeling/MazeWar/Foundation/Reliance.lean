import MazeWar.Foundation.Memory
import MazeWar.Foundation.Runs
import MazeWar.Foundation.Threads

/-!
# What threads rely on

A program relies on what cells hold when it loads them, and guarantees what it stores and returns. If
every thread guarantees what all rely on, then the cells hold nothing else in any interleaving, and each
result is accounted for by what the cells have held while its thread was running.
-/

namespace Foundation
variable {A V α β : Type} {rely grant : A → V → Prop}

/-- If every load returns what `rely` allows at its address, then the program stores only what `grant`
allows there and ends with a value that satisfies `Q`. -/
def Secures (rely grant : A → V → Prop) (Q : α → Prop) : CellProgram A V α → Prop
  | .done value => Q value
  | .call (.load a) next => ∀ v, rely a v → Secures rely grant Q (next v)
  | .call (.store a v) next => grant a v ∧ Secures rely grant Q (next ())
  | .call .wait next => Secures rely grant Q (next ())
  | .call .post next => Secures rely grant Q (next ())

section Rules
variable {Q R : α → Prop} {program : CellProgram A V α} {a : A} {v : V}

@[simp] theorem secures_wait (next : Unit → CellProgram A V α) :
    Secures rely grant Q (.call CellOp.wait next) ↔ Secures rely grant Q (next ()) := Iff.rfl

theorem Secures.bind {Q : β → Prop} {rest : α → CellProgram A V β} (first : Secures rely grant R program)
    (second : ∀ value, R value → Secures rely grant Q (rest value)) : Secures rely grant Q (program >>= rest) := by
  induction program with
  | done value => exact second value first
  | call op next ih =>
    cases op with
    | load a => exact fun v allowed => ih v (first v allowed)
    | store a v => exact ⟨first.1, ih () first.2⟩
    | wait | post => exact ih () first

theorem Secures.mono (first : Secures rely grant R program) (weaker : ∀ value, R value → Q value) :
    Secures rely grant Q program := by
  induction program with
  | done value => exact weaker value first
  | call op next ih =>
    cases op with
    | load a => exact fun v allowed => ih v (first v allowed)
    | store a v => exact ⟨first.1, ih () first.2⟩
    | wait | post => exact ih () first

theorem secures_anything (program : CellProgram A V α) : Secures rely (fun _ _ => True) (fun _ => True) program := by
  induction program with
  | done value => trivial
  | call op next ih =>
    cases op with
    | load a => exact fun v _ => ih v
    | store a v => exact ⟨trivial, ih ()⟩
    | wait | post => exact ih ()

/-- The postcondition of a round: one part for leaving the loop, one for going on. -/
def LeavesOr (leave go : β → Prop) : ForInStep β → Prop
  | .done state => leave state
  | .yield state => go state

/-- The loop rule: `I k` holds before the round `k` rounds from the start. -/
theorem Secures.loop {Q : β → Prop} {body : Int → β → CellProgram A V (ForInStep β)} {stride start : Int} {n : Nat}
    {init : β} (I : Nat → β → Prop) (first : I 0 init)
    (round : ∀ k state, k < n → I k state →
      Secures rely grant (LeavesOr Q (I (k + 1))) (body (start + k * stride) state))
    (last : ∀ state, I n state → Q state) : Secures rely grant Q (Program.loop body stride n start init) := by
  induction n generalizing start init I with
  | zero => exact last init first
  | succ n ih =>
    have entered := round 0 init n.succ_pos first
    rw [Nat.cast_zero, zero_mul, add_zero] at entered
    refine entered.bind fun outcome holds => ?_
    cases outcome with
    | done state => exact holds
    | yield state =>
      refine ih (fun k => I (k + 1)) holds (fun k state below inv => ?_) last
      have index : start + stride + k * stride = start + ((k + 1 : Nat) : Int) * stride := by push_cast; ring
      rw [index]
      exact round (k + 1) state (by omega) inv

end Rules

/-! ### Threads -/

variable {dom : A → Prop} [DecidablePred dom]

/-- Every cell holds a value that is allowed there. -/
def Holding (P : A → V → Prop) (m : Memory dom V) : Prop := ∀ a v, m.get? a = some v → P a v

variable [DecidableEq A] {ι : Type} [DecidableEq ι]

namespace Pool
variable {P : A → V → Prop} {Q : α → Prop} {pool t : Pool ι (CellOp A V) CellOp.Res α (Shared dom V)}
  {i : ι} {schedule : List ι}

/-- What one operation of a thread does, to the cells and to what is left of it. -/
theorem secured_operation {op : CellOp A V} {next : op.Res → CellProgram A V α} {result : op.Res}
    {s s' : Shared dom V} (secured : Secures rely grant Q (.call op next)) (holding : Holding rely s.cells)
    (executed : cellMachine op s = some (result, s')) :
    Secures rely grant Q (next result) ∧
      (s'.cells = s.cells ∨ ∃ a v, dom a ∧ grant a v ∧ s'.cells = s.cells.put a v) := by
  cases op with
  | load a =>
    obtain ⟨present, rfl⟩ := cellMachine_load.mp executed
    exact ⟨secured result (holding a result present), .inl rfl⟩
  | store a v =>
    obtain ⟨inside, rfl⟩ := cellMachine_store.mp executed
    exact ⟨secured.2, .inr ⟨a, v, inside, secured.1, rfl⟩⟩
  | wait =>
    obtain ⟨_, rfl⟩ := cellMachine_wait.mp executed
    exact ⟨secured, .inl rfl⟩
  | post =>
    cases executed
    exact ⟨secured, .inl rfl⟩

/-- Every thread guarantees what all of them rely on, and the cells hold nothing else. -/
structure Secured (P : A → V → Prop) (pool : Pool ι (CellOp A V) CellOp.Res α (Shared dom V)) : Prop where
  threads : ∀ i, Secures P P (fun _ => True) (pool.left i)
  cells : Holding P pool.shared.cells

theorem Secured.step (secured : Secured P pool) (stepped : pool.step cellMachine i = some t) : Secured P t := by
  obtain ⟨op, next, result, shared, left, executed, rfl⟩ := step_iff.mp stepped
  have own := secured.threads i
  rw [left] at own
  obtain ⟨later, written⟩ := secured_operation own secured.cells executed
  constructor
  · exact (Function.forall_update_iff pool.left fun _ program => Secures P P (fun _ => True) program).mpr
      ⟨later, fun j _ => secured.threads j⟩
  · rcases written with kept | ⟨a, v, inside, granted, put⟩
    · rw [kept]
      exact secured.cells
    · intro b w present
      rw [put, Memory.get?_put inside] at present
      split at present
      · rename_i same
        cases present
        exact same ▸ granted
      · exact secured.cells b w present

theorem Secured.runs (secured : Secured P pool) (ran : runs (Pool.step cellMachine) pool schedule = some t) :
    Secured P t :=
  runs_invariant (fun _ _ _ secured stepped => secured.step stepped) secured ran

/-- The cell has held the value in some state of the run. -/
def Seen (pool : Pool ι (CellOp A V) CellOp.Res α (Shared dom V)) (schedule : List ι) (a : A) (v : V) : Prop :=
  ∃ earlier later t, schedule = earlier ++ later ∧ Foundation.runs (Pool.step cellMachine) pool earlier = some t ∧
    t.shared.cells.get? a = some v

theorem Secured.seen {a : A} {v : V} (secured : Secured P pool) (seen : pool.Seen schedule a v) : P a v := by
  obtain ⟨_, _, _, _, ran, present⟩ := seen
  exact (secured.runs ran).cells a v present

/-- A thread that relies on no more than the cells hold throughout the run. -/
theorem secures_runs (throughout : ∀ a v, pool.Seen schedule a v → rely a v)
    (secured : Secures rely grant Q (pool.left i)) (ran : Foundation.runs (Pool.step cellMachine) pool schedule = some t) :
    Secures rely grant Q (t.left i) := by
  induction schedule generalizing pool with
  | nil =>
    cases ran
    exact secured
  | cons j rest ih =>
    obtain ⟨middle, stepped, ran⟩ := runs_cons_iff.mp ran
    have later : ∀ a v, middle.Seen rest a v → rely a v := by
      rintro a v ⟨earlier, afterwards, u, same, reached, present⟩
      exact throughout a v ⟨j :: earlier, afterwards, u, by rw [same]; rfl,
        runs_cons_iff.mpr ⟨middle, stepped, reached⟩, present⟩
    refine ih later ?_ ran
    obtain ⟨op, next, result, shared, left, executed, rfl⟩ := step_iff.mp stepped
    by_cases same : i = j
    · subst same
      rw [left] at secured
      have here : Holding rely pool.shared.cells := fun a v present => throughout a v ⟨[], _, pool, rfl, rfl, present⟩
      simp only [Function.update_self]
      exact (secured_operation secured here executed).1
    · simp only [Function.update_of_ne same]
      exact secured

end Pool
end Foundation
