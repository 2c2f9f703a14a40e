import MazeWar.Foundation.Memory
import Mathlib.Order.CompletePartialOrder

/-!
# Frames

A program that keeps to a set of cells neither depends on nor changes any other. Programs on
disjoint sets that leave the semaphore as they find it can be run in any order.
-/

namespace Foundation
variable {A V α β ι : Type} {dom : A → Prop}

/-- The cells that the program may access, whatever it reads, lie in the set. -/
def Within (dom : A → Prop) (cells : Set A) (program : CellProgram A V α) : Prop :=
  program.Calls fun op => ∀ a ∈ op.address, dom a → a ∈ cells

section
variable [DecidablePred dom] {s s' t u : Shared dom V} {F G : Set A} {first : CellProgram A V α}
  {second : CellProgram A V β} {program : CellProgram A V α} {v : α} {w : β}

/-- The two states show the same on the set. -/
structure Agree (cells : Set A) (s t : Shared dom V) : Prop where
  cells : ∀ a ∈ cells, s.cells.get? a = t.cells.get? a
  sem : s.sem = t.sem

theorem Shared.ext_get? (same : ∀ a, s.cells.get? a = t.cells.get? a) (sem : s.sem = t.sem) : s = t := by
  obtain ⟨cells, count⟩ := s
  obtain ⟨cells', count'⟩ := t
  obtain rfl : count = count' := sem
  obtain rfl : cells = cells' := by
    funext ⟨a, inside⟩
    have here := same a
    simp only [Memory.get?, dif_pos inside, Option.some.injEq] at here
    exact here
  rfl

variable [DecidableEq A]

theorem cellMachine_frame {op : CellOp A V} {result : CellOp.Res op} (within : ∀ a ∈ op.address, dom a → a ∈ F)
    (executed : cellMachine op s = some (result, t)) : ∀ a ∉ F, t.cells.get? a = s.cells.get? a := by
  intro a off
  rcases cellMachine_cells executed with kept | ⟨b, o, rfl, inside, written⟩
  · rw [kept]
  · rw [written]
    exact Memory.get?_put_ne fun same => off (same ▸ within b rfl inside)

theorem cellMachine_local {op : CellOp A V} {result : CellOp.Res op} (within : ∀ a ∈ op.address, dom a → a ∈ F)
    (agree : Agree F s s') (executed : cellMachine op s = some (result, t)) :
    ∃ t', cellMachine op s' = some (result, t') ∧ Agree F t t' := by
  cases op with
  | load b =>
    obtain ⟨present, rfl⟩ := cellMachine_load.mp executed
    have here := agree.cells b (within b rfl (Memory.mem_of_get? present))
    exact ⟨s', cellMachine_load.mpr ⟨here.symm.trans present, rfl⟩, agree⟩
  | store b o =>
    obtain ⟨inside, rfl⟩ := cellMachine_store.mp executed
    refine ⟨_, cellMachine_store.mpr ⟨inside, rfl⟩, fun a member => ?_, agree.sem⟩
    rw [Memory.get?_put inside, Memory.get?_put inside, agree.cells a member]
  | wait =>
    obtain ⟨free, rfl⟩ := cellMachine_wait.mp executed
    refine ⟨_, cellMachine_wait.mpr ⟨agree.sem ▸ free, rfl⟩, agree.cells, ?_⟩
    exact congrArg (· - 1) agree.sem
  | post =>
    cases executed
    exact ⟨_, rfl, agree.cells, congrArg (· + 1) agree.sem⟩

/-- A program changes nothing off its set. -/
theorem Within.frame (within : Within dom F program) (ran : program.run cellMachine s = some (v, t)) :
    ∀ a ∉ F, t.cells.get? a = s.cells.get? a := by
  induction program generalizing s with
  | done value => cases ran; exact fun _ _ => rfl
  | call op next ih =>
    obtain ⟨⟨result, middle⟩, executed, ran⟩ := Option.bind_eq_some_iff.mp ran
    intro a off
    exact (ih result (within.2 result) ran a off).trans (cellMachine_frame within.1 executed a off)

/-- A program does the same from states that agree on its set. -/
theorem Within.locality (within : Within dom F program) (agree : Agree F s s')
    (ran : program.run cellMachine s = some (v, t)) :
    ∃ t', program.run cellMachine s' = some (v, t') ∧ Agree F t t' := by
  induction program generalizing s s' with
  | done value => cases ran; exact ⟨s', rfl, agree⟩
  | call op next ih =>
    obtain ⟨⟨result, middle⟩, executed, ran⟩ := Option.bind_eq_some_iff.mp ran
    obtain ⟨middle', executed', agree'⟩ := cellMachine_local within.1 agree executed
    obtain ⟨t', ran', final⟩ := ih result (within.2 result) agree' ran
    refine ⟨t', ?_, final⟩
    rw [Program.run_call, executed']
    exact ran'

/-- When the program returns, the semaphore is as before. -/
def KeepsSem (dom : A → Prop) [DecidablePred dom] (program : CellProgram A V α) : Prop :=
  ∀ (s : Shared dom V) v t, program.run cellMachine s = some (v, t) → t.sem = s.sem

theorem keepsSem_of_calls {program : CellProgram A V α} (calls : program.Calls fun op => op.address ≠ none) :
    KeepsSem dom program := by
  intro s v t ran
  refine calls.keeps (I := fun u => u.sem = s.sem) (fun op u result u' access executed start => ?_) ran rfl
  cases op with
  | load a =>
    obtain ⟨_, rfl⟩ := cellMachine_load.mp executed
    exact start
  | store a o =>
    obtain ⟨_, rfl⟩ := cellMachine_store.mp executed
    exact start
  | wait | post => exact absurd rfl access

theorem Within.swap (within : Within dom F first) (keeps : KeepsSem dom first) (within' : Within dom G second)
    (keeps' : KeepsSem dom second) (apart : Disjoint F G) (ran : first.run cellMachine s = some (v, t))
    (ran' : second.run cellMachine t = some (w, u)) :
    ∃ t', second.run cellMachine s = some (w, t') ∧ first.run cellMachine t' = some (v, u) := by
  have offF : ∀ a ∈ G, a ∉ F := fun a there here => Set.disjoint_left.mp apart here there
  have offG : ∀ a ∈ F, a ∉ G := fun a here there => Set.disjoint_left.mp apart here there
  have before := within.frame ran
  have after := within'.frame ran'
  obtain ⟨t', early, onG⟩ := within'.locality ⟨fun a there => before a (offF a there), keeps _ _ _ ran⟩ ran'
  have between := within'.frame early
  obtain ⟨u', late, onF⟩ := within.locality ⟨fun a here => (between a (offG a here)).symm, (keeps' _ _ _ early).symm⟩ ran
  have last := within.frame late
  -- Each cell is decided by the one program, if any, that it belongs to.
  have same : u = u' := by
    refine Shared.ext_get? (fun a => ?_) ((keeps' _ _ _ ran').trans onF.sem)
    by_cases here : a ∈ F
    · rw [after a (offG a here), onF.cells a here]
    · rw [last a here]
      by_cases there : a ∈ G
      · exact onG.cells a there
      · rw [after a there, before a here, between a there]
  exact ⟨t', early, same ▸ late⟩

/-! ### Lists of calls -/

/-- Run the programs of the calls one after the other, and pair each call with its value. -/
def runEach (program : ι → CellProgram A V β) : List ι → Shared dom V → Option (List (ι × β) × Shared dom V)
  | [], s => some ([], s)
  | call :: rest, s => ((program call).run cellMachine s).bind fun answer =>
      (runEach program rest answer.2).map fun outcome => ((call, answer.1) :: outcome.1, outcome.2)

theorem runEach_cons {program : ι → CellProgram A V β} {call : ι} {rest : List ι} {log : List (ι × β)} :
    runEach program (call :: rest) s = some (log, u) ↔ ∃ value t log', log = (call, value) :: log' ∧
      (program call).run cellMachine s = some (value, t) ∧ runEach program rest t = some (log', u) := by
  constructor
  · intro ran
    obtain ⟨⟨value, t⟩, first, ran⟩ := Option.bind_eq_some_iff.mp ran
    obtain ⟨⟨log', t'⟩, later, outcome⟩ := Option.map_eq_some_iff.mp ran
    cases outcome
    exact ⟨value, t, log', rfl, first, later⟩
  · intro ⟨value, t, log', same, first, later⟩
    simp [runEach, first, later, same]

/-- Calls that touch disjoint sets of cells return the same values in every order, and leave the
same state behind. -/
theorem runEach_perm {program : ι → CellProgram A V β} {footprint : ι → Set A} {calls order : List ι}
    (within : ∀ call, Within dom (footprint call) (program call)) (keeps : ∀ call, KeepsSem dom (program call))
    (apart : calls.Pairwise fun call other => Disjoint (footprint call) (footprint other))
    (permuted : calls.Perm order) {log : List (ι × β)} (ran : runEach program calls s = some (log, u)) :
    ∃ log', log.Perm log' ∧ runEach program order s = some (log', u) := by
  induction permuted generalizing s log with
  | nil => exact ⟨log, .refl _, ran⟩
  | cons call permuted ih =>
    obtain ⟨value, t, later, rfl, first, ran⟩ := runEach_cons.mp ran
    obtain ⟨log', reordered, ran'⟩ := ih (List.pairwise_cons.mp apart).2 ran
    exact ⟨(call, value) :: log', reordered.cons _, runEach_cons.mpr ⟨value, t, log', rfl, first, ran'⟩⟩
  | swap call other rest =>
    obtain ⟨value, t, later, rfl, first, ran⟩ := runEach_cons.mp ran
    obtain ⟨value', t', rest', rfl, second, ran⟩ := runEach_cons.mp ran
    have disjoint := (List.pairwise_cons.mp apart).1 call List.mem_cons_self
    obtain ⟨middle, early, late⟩ :=
      (within other).swap (keeps other) (within call) (keeps call) disjoint first second
    refine ⟨(call, value') :: (other, value) :: rest', .swap _ _ _, ?_⟩
    exact runEach_cons.mpr ⟨value', middle, _, rfl, early, runEach_cons.mpr ⟨value, t', rest', rfl, late, ran⟩⟩
  | trans permuted _ ih ih' =>
    obtain ⟨log', reordered, ran'⟩ := ih apart ran
    obtain ⟨log'', reordered', ran''⟩ := ih' (permuted.pairwise apart fun disjoint => disjoint.symm) ran'
    exact ⟨log'', reordered.trans reordered', ran''⟩

theorem runEach_perm_rel {program : ι → CellProgram A V β} {footprint : ι → Set A} {calls order : List ι}
    (within : ∀ call, Within dom (footprint call) (program call)) (keeps : ∀ call, KeepsSem dom (program call))
    (apart : calls.Pairwise fun call other => Disjoint (footprint call) (footprint other))
    (permuted : calls.Perm order) :
    Option.Rel (fun outcome outcome' => outcome.1.Perm outcome'.1 ∧ outcome.2 = outcome'.2)
      (runEach program calls s) (runEach program order s) := by
  cases returns : runEach program calls s with
  | some outcome =>
    obtain ⟨log', reordered, ran⟩ := runEach_perm within keeps apart permuted returns
    rw [ran]
    exact .some ⟨reordered, rfl⟩
  | none =>
    cases returns' : runEach program order s with
    | none => exact .none
    | some outcome =>
      have apart' := permuted.pairwise apart fun disjoint => disjoint.symm
      obtain ⟨log', _, ran⟩ := runEach_perm within keeps apart' permuted.symm returns'
      rw [returns] at ran
      cases ran

theorem runEach_returns {program : ι → CellProgram A V β} {calls : List ι}
    (keeps : ∀ call, KeepsSem dom (program call))
    (returns : ∀ call ∈ calls, ∀ t : Shared dom V, t.sem = s.sem → ((program call).run cellMachine t).isSome) :
    (runEach program calls s).isSome := by
  induction calls generalizing s with
  | nil => rfl
  | cons call rest ih =>
    obtain ⟨⟨value, t⟩, ran⟩ := Option.isSome_iff_exists.mp (returns call List.mem_cons_self s rfl)
    have later : (runEach program rest t).isSome := by
      refine ih fun other member u same => returns other (List.mem_cons_of_mem _ member) u ?_
      rw [same, keeps call s value t ran]
    obtain ⟨outcome, ran'⟩ := Option.isSome_iff_exists.mp later
    simp [runEach, ran, ran']

end
end Foundation
