import MazeWar.Foundation.Frame
import MazeWar.Foundation.Locking

/-!
# Threads that do not race

If no thread stores to a cell that another accesses, each of them running alone, then each does in every
interleaving what it does alone, and together they do what they do one after another.
-/

namespace Foundation
variable {A V α ι : Type} {dom : A → Prop}

/-- The address that the operation stores to. -/
def CellOp.target : CellOp A V → Option A
  | .store a _ => some a
  | .load _ | .wait | .post => none

theorem CellOp.address_of_target {op : CellOp A V} {a : A} (stored : a ∈ op.target) : a ∈ op.address := by
  cases op with
  | store b v => exact stored
  | load b | wait | post => cases stored

theorem LockRole.moves_unique {role : LockRole} {before after after' : Nat} (moved : role.Moves before after)
    (moved' : role.Moves before after') : after = after' := by
  cases role <;> simp only [LockRole.Moves] at moved moved' <;> omega

section Alone
variable [DecidablePred dom] [DecidableEq A] {s s' t u start own : Shared dom V} {cells cells' : Memory dom V}
  {op : CellOp A V} {result : op.Res} {program left : CellProgram A V α} {next : op.Res → CellProgram A V α} {value : α}

/-- The addresses a run stores to, up to and including the first operation that fails. -/
def written : CellProgram A V α → Shared dom V → List A
  | .done _, _ => []
  | .call op next, s => op.target.toList ++
      match cellMachine op s with
      | some (result, t) => written (next result) t
      | none => []

theorem touched_call (executed : cellMachine op s = some (result, t)) :
    touched (.call op next) s = op.address.toList ++ touched (next result) t := by
  rw [touched, executed]

theorem written_call (executed : cellMachine op s = some (result, t)) :
    written (.call op next) s = op.target.toList ++ written (next result) t := by
  rw [written, executed]

theorem written_subset_touched (program : CellProgram A V α) (s : Shared dom V) : written program s ⊆ touched program s := by
  induction program generalizing s with
  | done value => exact List.Subset.refl []
  | call op next ih =>
    intro a stored
    rw [written, List.mem_append, Option.mem_toList] at stored
    rw [touched, List.mem_append, Option.mem_toList]
    refine stored.imp CellOp.address_of_target fun later => ?_
    cases executed : cellMachine op s with
    | none => simp only [executed, List.not_mem_nil] at later
    | some answer =>
      simp only [executed] at later
      exact ih answer.1 answer.2 later

theorem cellMachine_sem (executed : cellMachine op s = some (result, t)) : op.role.Moves s.sem t.sem :=
  cellLock.counted executed

theorem cellMachine_spares (executed : cellMachine op s = some (result, t)) :
    ∀ a ∉ op.target, t.cells.get? a = s.cells.get? a := by
  intro a other
  rcases cellMachine_cells executed with kept | ⟨b, v, rfl, _, put⟩
  · rw [kept]
  · rw [put]
    exact Memory.get?_put_ne fun same => other (same ▸ rfl)

/-- An operation does the same in a state that shows the same at its address, and lets it take the semaphore. -/
theorem cellMachine_alike (alike : ∀ a ∈ op.address, s.cells.get? a = t.cells.get? a)
    (free : op.role = .acquire → 0 < t.sem) (executed : cellMachine op s = some (result, s')) :
    ∃ t', cellMachine op t = some (result, t') ∧
      ∀ a, s.cells.get? a = t.cells.get? a → s'.cells.get? a = t'.cells.get? a := by
  cases op with
  | load a =>
    obtain ⟨present, rfl⟩ := cellMachine_load.mp executed
    exact ⟨t, cellMachine_load.mpr ⟨(alike a rfl).symm.trans present, rfl⟩, fun _ same => same⟩
  | store a v =>
    obtain ⟨inside, rfl⟩ := cellMachine_store.mp executed
    refine ⟨_, cellMachine_store.mpr ⟨inside, rfl⟩, fun b same => ?_⟩
    rw [Memory.get?_put inside, Memory.get?_put inside, same]
  | wait =>
    obtain ⟨_, rfl⟩ := cellMachine_wait.mp executed
    exact ⟨_, cellMachine_wait.mpr ⟨free rfl, rfl⟩, fun _ same => same⟩
  | post =>
    cases executed
    exact ⟨_, rfl, fun _ same => same⟩

/-- A program does the same from a state that shows the same at the cells it accesses. -/
theorem run_alike (alike : ∀ a ∈ touched program s, s.cells.get? a = t.cells.get? a) (sem : s.sem = t.sem)
    (ran : program.run cellMachine s = some (value, s')) :
    ∃ t', program.run cellMachine t = some (value, t') ∧
      (∀ a, s.cells.get? a = t.cells.get? a → s'.cells.get? a = t'.cells.get? a) ∧
      (∀ a ∉ written program s, t'.cells.get? a = t.cells.get? a) ∧ s'.sem = t'.sem := by
  induction program generalizing s t with
  | done final =>
    cases ran
    exact ⟨t, rfl, fun _ same => same, fun _ _ => rfl, sem⟩
  | call op next ih =>
    obtain ⟨⟨result, middle⟩, executed, ran⟩ := Option.bind_eq_some_iff.mp ran
    rw [touched_call executed] at alike
    have moved := cellMachine_sem executed
    have free : op.role = .acquire → 0 < t.sem := by
      intro taken
      rw [taken] at moved
      exact sem ▸ moved ▸ Nat.succ_pos _
    obtain ⟨middle', executed', kept⟩ :=
      cellMachine_alike (fun a here => alike a (List.mem_append_left _ (Option.mem_toList.mpr here))) free executed
    obtain ⟨t', ran', kept', spared', final⟩ := ih result
      (fun a later => kept a (alike a (List.mem_append_right _ later)))
      (LockRole.moves_unique moved (sem ▸ cellMachine_sem executed')) ran
    refine ⟨t', ?_, fun a same => kept' a (kept a same), fun a other => ?_, final⟩
    · rw [Program.run_call, executed']
      exact ran'
    · rw [written_call executed, List.mem_append, Option.mem_toList, not_or] at other
      exact (spared' a other.2).trans (cellMachine_spares executed' a other.1)

/-- The semaphore is taken just inside critical sections. -/
theorem Balanced.after {inside : Bool} (balanced : Balanced CellOp.role inside (.call op next))
    (sem : s.sem = if inside then 0 else 1) (executed : cellMachine op s = some (result, t)) :
    ∃ inside, Balanced CellOp.role inside (next result) ∧ t.sem = if inside then 0 else 1 := by
  have moved := cellMachine_sem executed
  rw [sem] at moved
  cases kind : op.role with
  | acquire =>
    obtain ⟨rfl, later⟩ := (disciplined_acquire kind).mp balanced
    rw [kind] at moved
    exact ⟨true, later result, (Nat.succ.inj moved).symm⟩
  | release =>
    obtain ⟨rfl, later⟩ := (disciplined_release kind).mp balanced
    rw [kind] at moved
    exact ⟨false, later result, moved⟩
  | other =>
    rw [kind] at moved
    exact ⟨inside, (disciplined_other kind).mp balanced result, moved.symm⟩

omit [DecidablePred dom] [DecidableEq A] in
theorem Balanced.takes {inside : Bool} (balanced : Balanced CellOp.role inside (.call op next))
    (sem : s.sem = if inside then 0 else 1) (taken : op.role = .acquire) : 0 < s.sem := by
  obtain ⟨rfl, _⟩ := (disciplined_acquire taken).mp balanced
  exact sem ▸ Nat.one_pos

/-- A program that takes and gives back the semaphore in pairs leaves it as it was. -/
theorem Balanced.run_sem {inside : Bool} (balanced : Balanced CellOp.role inside program)
    (sem : s.sem = if inside then 0 else 1) (ran : program.run cellMachine s = some (value, t)) : t.sem = 1 := by
  induction program generalizing s inside with
  | done final =>
    cases ran
    rw [sem, show inside = false from balanced]
    rfl
  | call op next ih =>
    obtain ⟨⟨result, middle⟩, executed, ran⟩ := Option.bind_eq_some_iff.mp ran
    obtain ⟨_, later, sem⟩ := balanced.after sem executed
    exact ih result later sem ran

/-- From `start` alone the program comes, in the state `own`, to what is `left` of it, and at its own cells
that state shows what the shared cells show. -/
structure Alone (start : Shared dom V) (program left : CellProgram A V α) (cells : Memory dom V) (own : Shared dom V) :
    Prop where
  outcome : left.run cellMachine own = program.run cellMachine start
  touches : touched left own ⊆ touched program start
  writes : written left own ⊆ written program start
  shows : ∀ a ∈ touched program start, own.cells.get? a = cells.get? a
  spares : ∀ a ∉ written program start, own.cells.get? a = start.cells.get? a

theorem Alone.step {n n' : Nat} (alone : Alone start program (.call op next) cells own)
    (free : op.role = .acquire → 0 < own.sem) (executed : cellMachine op ⟨cells, n⟩ = some (result, ⟨cells', n'⟩)) :
    ∃ own', cellMachine op own = some (result, own') ∧ Alone start program (next result) cells' own' := by
  have here : ∀ a ∈ op.address, cells.get? a = own.cells.get? a := by
    intro a accessed
    refine (alone.shows a (alone.touches ?_)).symm
    rw [touched, List.mem_append, Option.mem_toList]
    exact .inl accessed
  obtain ⟨own', executed', kept⟩ := cellMachine_alike here free executed
  have touches := alone.touches
  have writes := alone.writes
  rw [touched_call executed', List.append_subset] at touches
  rw [written_call executed', List.append_subset] at writes
  refine ⟨own', executed', ?_, touches.2, writes.2, fun a own => (kept a (alone.shows a own).symm).symm, fun a other => ?_⟩
  · rw [← alone.outcome, Program.run_call, executed']
    rfl
  · exact (cellMachine_spares executed' a fun stored => other (writes.1 (Option.mem_toList.mpr stored))).trans
      (alone.spares a other)

end Alone

/-! ### Any number of threads -/

section Threads
variable [DecidablePred dom] [DecidableEq A] {start s : Shared dom V} {programs : ι → CellProgram A V α}
  {pool t : Pool ι (CellOp A V) CellOp.Res α (Shared dom V)} {i : ι} {schedule order : List ι}

/-- No thread stores to a cell that another accesses, each of them running alone from `start`. -/
def RaceFree (start : Shared dom V) (programs : ι → CellProgram A V α) : Prop :=
  ∀ i j, i ≠ j → ∀ a ∈ written (programs i) start, a ∉ touched (programs j) start

/-- One thread after another, in any order, does what it does alone. -/
theorem runEach_raceFree (raceFree : RaceFree start programs) (balanced : ∀ i, Balanced CellOp.role false (programs i))
    (free : start.sem = 1) {values : ι → α} {ends : ι → Shared dom V}
    (alone : ∀ i, (programs i).run cellMachine start = some (values i, ends i)) (nodup : order.Nodup) (sem : s.sem = 1)
    (fresh : ∀ i ∈ order, ∀ a ∈ touched (programs i) start, s.cells.get? a = start.cells.get? a) :
    ∃ u, runEach programs order s = some (order.map fun i => (i, values i), u) ∧ u.sem = 1 ∧
      (∀ i ∈ order, ∀ a ∈ written (programs i) start, u.cells.get? a = (ends i).cells.get? a) ∧
      ∀ a, (∀ i ∈ order, a ∉ written (programs i) start) → u.cells.get? a = s.cells.get? a := by
  induction order generalizing s with
  | nil => exact ⟨s, rfl, sem, by simp, fun _ _ => rfl⟩
  | cons i rest ih =>
    obtain ⟨first, nodup⟩ := List.nodup_cons.mp nodup
    have apart : ∀ j ∈ rest, i ≠ j := fun j member => (ne_of_mem_of_not_mem member first).symm
    obtain ⟨t, ran, shows, spares, same⟩ :=
      run_alike (fun a accessed => (fresh i List.mem_cons_self a accessed).symm) (free.trans sem.symm) (alone i)
    have later : ∀ j ∈ rest, ∀ a ∈ touched (programs j) start, t.cells.get? a = start.cells.get? a := by
      intro j member a accessed
      rw [spares a fun stored => raceFree i j (apart j member) a stored accessed]
      exact fresh j (List.mem_cons_of_mem i member) a accessed
    have given : t.sem = 1 := same ▸ (balanced i).run_sem free (alone i)
    obtain ⟨u, ran', final, own, kept⟩ := ih nodup given later
    refine ⟨u, runEach_cons.mpr ⟨values i, t, _, rfl, ran, ran'⟩, final, fun j member a stored => ?_, fun a nobody => ?_⟩
    · rcases List.mem_cons.mp member with rfl | member
      · have mine : a ∈ touched (programs j) start := written_subset_touched _ _ stored
        rw [kept a fun k member stored' => raceFree j k (apart k member) a stored (written_subset_touched _ _ stored')]
        exact (shows a (fresh j List.mem_cons_self a mine).symm).symm
      · exact own j member a stored
    · obtain ⟨mine, others⟩ := List.forall_mem_cons.mp nobody
      rw [kept a others, spares a mine]

namespace Pool

/-- What each thread has done is what it has done alone. -/
structure Separate (start : Shared dom V) (programs : ι → CellProgram A V α)
    (pool : Pool ι (CellOp A V) CellOp.Res α (Shared dom V)) : Prop where
  alone : ∀ i, ∃ own inside, Alone start (programs i) (pool.left i) pool.shared.cells own ∧
    Balanced CellOp.role inside (pool.left i) ∧ own.sem = if inside then 0 else 1
  spares : ∀ a, (∀ i, a ∉ written (programs i) start) → pool.shared.cells.get? a = start.cells.get? a

theorem separate_init (balanced : ∀ i, Balanced CellOp.role false (programs i)) (free : start.sem = 1) :
    Separate start programs ⟨programs, start⟩ where
  alone i := ⟨start, false, ⟨rfl, List.Subset.refl _, List.Subset.refl _, fun _ _ => rfl, fun _ _ => rfl⟩, balanced i, free⟩
  spares _ _ := rfl

/-- A thread that has ended has returned what it returns alone, and its cells show what it leaves alone. -/
theorem Separate.ended (separate : Separate start programs pool) {value : α} (ended : pool.left i = .done value) :
    ∃ own, (programs i).run cellMachine start = some (value, own) ∧
      ∀ a ∈ touched (programs i) start, own.cells.get? a = pool.shared.cells.get? a := by
  obtain ⟨own, _, alone, _, _⟩ := separate.alone i
  rw [ended] at alone
  exact ⟨own, alone.outcome.symm, alone.shows⟩

variable [DecidableEq ι]

theorem Separate.step (separate : Separate start programs pool) (raceFree : RaceFree start programs)
    (stepped : pool.step cellMachine i = some t) : Separate start programs t := by
  obtain ⟨op, next, result, shared, left, executed, rfl⟩ := step_iff.mp stepped
  obtain ⟨own, inside, alone, balanced, sem⟩ := separate.alone i
  rw [left] at alone balanced
  -- The operation stores to a cell of its own thread, if to any.
  have stores : ∀ a ∈ op.target, a ∈ written (programs i) start := by
    intro a stored
    refine alone.writes ?_
    rw [written, List.mem_append, Option.mem_toList]
    exact .inl stored
  have spared := cellMachine_spares executed
  obtain ⟨own', executed', later⟩ := alone.step (balanced.takes sem) executed
  constructor
  · intro j
    rcases eq_or_ne j i with rfl | apart
    · obtain ⟨inside, balanced, sem⟩ := balanced.after sem executed'
      simp only [Function.update_self]
      exact ⟨own', inside, later, balanced, sem⟩
    · obtain ⟨other, inside, others, balanced, sem⟩ := separate.alone j
      simp only [Function.update_of_ne apart]
      refine ⟨other, inside, ⟨others.outcome, others.touches, others.writes, fun a accessed => ?_, others.spares⟩, balanced, sem⟩
      rw [others.shows a accessed, spared a fun stored => raceFree i j apart.symm a (stores a stored) accessed]
  · intro a nobody
    rw [spared a fun stored => nobody i (stores a stored), separate.spares a nobody]

theorem separate_of_runs (raceFree : RaceFree start programs) (balanced : ∀ i, Balanced CellOp.role false (programs i))
    (free : start.sem = 1) (ran : runs (Pool.step cellMachine) ⟨programs, start⟩ schedule = some pool) :
    Separate start programs pool :=
  runs_invariant (fun _ _ _ separate stepped => separate.step raceFree stepped) (separate_init balanced free) ran

/-- When all threads have ended, they have done together what they do one after another, in any order. -/
theorem serial_of_raceFree (raceFree : RaceFree start programs) (balanced : ∀ i, Balanced CellOp.role false (programs i))
    (free : start.sem = 1) (ran : runs (Pool.step cellMachine) ⟨programs, start⟩ schedule = some pool) {values : ι → α}
    (ended : ∀ i, pool.left i = .done (values i)) (nodup : order.Nodup) (complete : ∀ i, i ∈ order) :
    runEach programs order start = some (order.map fun i => (i, values i), pool.shared) := by
  have separate := separate_of_runs raceFree balanced free ran
  choose ends alone shows using fun i => separate.ended (ended i)
  obtain ⟨u, serial, sem, own, kept⟩ := runEach_raceFree raceFree balanced free alone nodup free fun _ _ _ _ => rfl
  have cells : u.cells = pool.shared.cells := by
    refine Memory.ext_get? fun a => ?_
    by_cases stored : ∃ i, a ∈ written (programs i) start
    · obtain ⟨i, stored⟩ := stored
      rw [own i (complete i) a stored, shows i a (written_subset_touched _ _ stored)]
    · rw [kept a fun i _ here => stored ⟨i, here⟩, separate.spares a fun i here => stored ⟨i, here⟩]
  have begins : ∀ i, Balanced CellOp.role false ((⟨programs, start⟩ : Pool ι (CellOp A V) CellOp.Res α (Shared dom V)).left i) := balanced
  obtain ⟨holder, held⟩ : ∃ holder, Held cellLock holder pool := held_of_runs begins free ran
  have outside : holder = none := by
    by_contra inside
    obtain ⟨i, holds⟩ := Option.ne_none_iff_exists'.mp inside
    have within := held.balanced i
    rw [ended i, holds, decide_eq_true rfl] at within
    cases within
  have count : pool.shared.sem = 1 := held.count.trans (if_pos outside)
  have same : u = pool.shared := by
    obtain ⟨cells', n⟩ := u
    simp only at cells sem
    rw [cells, sem, ← count]
  rw [serial, same]

end Pool
end Threads
end Foundation
