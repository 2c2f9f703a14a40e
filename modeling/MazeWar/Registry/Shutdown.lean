import MazeWar.Foundation.Runs
import MazeWar.Registry.Behavior

/-!
# Termination of the server

Service threads register, serve and unregister, in any order with the thread that executes
`terminate`. Shutting down sets the count to zero, so nothing is left to wait for.
-/

namespace MazeWar
open Foundation ClientRegistry

inductive Phase where
  | fresh
  | serving
  | done
  deriving DecidableEq, Repr

/-- How far `terminate` has come before `creg_fini`. -/
inductive Termination where
  | running
  | shutDown
  | waited
  deriving DecidableEq, Repr

/-- `registry` is `none` once `creg_fini` has freed it. -/
structure Server (Thread : Type) where
  registry : Option ClientRegistry
  phase : Thread → Phase
  termination : Termination

inductive ServerAction (Thread : Type) where
  | register (thread : Thread)
  | unregister (thread : Thread)
  | shutdownAll
  | waitForEmpty
  | fini

namespace Server
variable {Thread : Type} [DecidableEq Thread] (malloc : Allocator Int) (fd : Thread → Int)

def start (heap : Heap Int) : Server Thread := ⟨some (cregInit heap), fun _ => .fresh, .running⟩

/-- One registry function as one step; there is none on a registry that was freed. -/
def calling (program : ClientRegistry → RegistryProgram Unit) (s : Server Thread) : Option (Server Thread) := do
  let r ← s.registry
  let (_, r) ← (program r).run (exec malloc) r
  return { s with registry := some r }

def step (s : Server Thread) : ServerAction Thread → Option (Server Thread)
  | .register thread =>
    if s.phase thread = .fresh then
      ({ s with phase := Function.update s.phase thread .serving }).calling malloc fun _ => cregRegister (fd thread)
    else none
  | .unregister thread =>
    if s.phase thread = .serving then
      ({ s with phase := Function.update s.phase thread .done }).calling malloc fun r =>
        cregUnregister (fd thread) (r.heap.keys.card + 1)
    else none
  | .shutdownAll =>
    if s.termination = .running then
      ({ s with termination := .shutDown }).calling malloc fun r => cregShutdownAll r.numOfClients.toNat
    else none
  | .waitForEmpty =>
    if s.termination = .shutDown then
      ({ s with termination := .waited }).calling malloc fun _ => cregWaitForEmpty
    else none
  | .fini => if s.termination = .waited ∧ s.registry.isSome then some { s with registry := none } else none

/-- After `creg_fini`, every thread that has registered has unregistered. -/
def Clean (s : Server Thread) : Prop := s.registry = none → ∀ thread, s.phase thread ≠ .serving

/-- No client is being served when the registry is shut down, and none registers afterwards. -/
def Orderly (s : Server Thread) : ServerAction Thread → Prop
  | .register _ => s.termination = .running
  | .shutdownAll => ∀ thread, s.phase thread ≠ .serving
  | _ => True

omit [DecidableEq Thread] in
instance [Fintype Thread] (s : Server Thread) (action : ServerAction Thread) : Decidable (s.Orderly action) := by
  cases action <;> unfold Orderly <;> infer_instance

omit [DecidableEq Thread] in
theorem calling_iff {program : ClientRegistry → RegistryProgram Unit} {s t : Server Thread} :
    s.calling malloc program = some t ↔ ∃ r r', s.registry = some r ∧
      (program r).run (exec malloc) r = some ((), r') ∧ t = { s with registry := some r' } := by
  constructor
  · intro called
    obtain ⟨r, present, called⟩ := Option.bind_eq_some_iff.mp called
    obtain ⟨⟨_, r'⟩, ran, same⟩ := Option.bind_eq_some_iff.mp called
    exact ⟨r, r', present, ran, (Option.some.inj same).symm⟩
  · rintro ⟨r, r', present, ran, rfl⟩
    simp [calling, present, ran]

theorem step_cases {s t : Server Thread} {action : ServerAction Thread} (stepped : s.step malloc fd action = some t) :
    (∃ thread r r', action = .register thread ∧ s.phase thread = .fresh ∧ s.registry = some r ∧
      (cregRegister (fd thread)).run (exec malloc) r = some ((), r') ∧
      t = ⟨some r', Function.update s.phase thread .serving, s.termination⟩) ∨
    (∃ thread r r', action = .unregister thread ∧ s.phase thread = .serving ∧ s.registry = some r ∧
      (cregUnregister (fd thread) (r.heap.keys.card + 1)).run (exec malloc) r = some ((), r') ∧
      t = ⟨some r', Function.update s.phase thread .done, s.termination⟩) ∨
    (∃ r r', action = .shutdownAll ∧ s.termination = .running ∧ s.registry = some r ∧
      (cregShutdownAll r.numOfClients.toNat).run (exec malloc) r = some ((), r') ∧
      t = ⟨some r', s.phase, .shutDown⟩) ∨
    (∃ r r', action = .waitForEmpty ∧ s.termination = .shutDown ∧ s.registry = some r ∧
      cregWaitForEmpty.run (exec malloc) r = some ((), r') ∧ t = ⟨some r', s.phase, .waited⟩) ∨
    (action = .fini ∧ s.termination = .waited ∧ s.registry.isSome ∧ t = ⟨none, s.phase, s.termination⟩) := by
  cases action with
  | register thread =>
    simp only [step] at stepped
    split_ifs at stepped with fresh
    obtain ⟨r, r', present, ran, rfl⟩ := (calling_iff malloc).mp stepped
    exact .inl ⟨thread, r, r', rfl, fresh, present, ran, rfl⟩
  | unregister thread =>
    simp only [step] at stepped
    split_ifs at stepped with serving
    obtain ⟨r, r', present, ran, rfl⟩ := (calling_iff malloc).mp stepped
    exact .inr (.inl ⟨thread, r, r', rfl, serving, present, ran, rfl⟩)
  | shutdownAll =>
    simp only [step] at stepped
    split_ifs at stepped with running
    obtain ⟨r, r', present, ran, rfl⟩ := (calling_iff malloc).mp stepped
    exact .inr (.inr (.inl ⟨r, r', rfl, running, present, ran, rfl⟩))
  | waitForEmpty =>
    simp only [step] at stepped
    split_ifs at stepped with shut
    obtain ⟨r, r', present, ran, rfl⟩ := (calling_iff malloc).mp stepped
    exact .inr (.inr (.inr (.inl ⟨r, r', rfl, shut, present, ran, rfl⟩)))
  | fini =>
    simp only [step] at stepped
    split_ifs at stepped with waited
    exact .inr (.inr (.inr (.inr ⟨rfl, waited.1, waited.2, (Option.some.inj stepped).symm⟩)))

/-! ### Orderly terminations -/

def Settled (s : Server Thread) : Prop :=
  (s.registry = none → s.termination = .waited) ∧ (s.termination ≠ .running → ∀ thread, s.phase thread ≠ .serving)

theorem settled_step {s t : Server Thread} {action : ServerAction Thread} (settled : s.Settled) (orderly : s.Orderly action)
    (stepped : s.step malloc fd action = some t) : t.Settled := by
  rcases step_cases malloc fd stepped with ⟨thread, r, r', rfl, _, _, _, rfl⟩ | ⟨thread, r, r', rfl, _, _, _, rfl⟩ |
      ⟨r, r', rfl, _, _, _, rfl⟩ | ⟨r, r', rfl, shut, _, _, rfl⟩ | ⟨rfl, waited, _, rfl⟩
  · exact ⟨by simp, fun ended => (ended orderly).elim⟩
  · refine ⟨by simp, fun ended other => ?_⟩
    rcases eq_or_ne other thread with rfl | apart
    · simp
    · simpa [Function.update_of_ne apart] using settled.2 ended other
  · exact ⟨by simp, fun _ => orderly⟩
  · exact ⟨by simp, fun _ => settled.2 (by rw [shut]; decide)⟩
  · exact ⟨fun _ => waited, settled.2⟩

/-! ### Termination waits for nobody -/

/-- Nothing but waiting takes the semaphore that a waiter waits for. -/
def Spares : RegistryOp → Prop
  | .wait .mutexE | .post .mutexE => False
  | _ => True

theorem spares_same {op : RegistryOp} {r r' : ClientRegistry} {result : op.Res}
    (spares : Spares op) (executed : exec malloc op r = some (result, r')) : r'.mutexE = r.mutexE := by
  cases op with
  | wait semaphore =>
    cases semaphore with
    | mutex =>
      obtain ⟨_, rfl⟩ : 0 < r.mutex ∧ { r with mutex := r.mutex - 1 } = r' := by simpa [exec] using executed
      rfl
    | mutexE => exact spares.elim
  | post semaphore =>
    cases semaphore with
    | mutex => cases executed; rfl
    | mutexE => exact spares.elim
  | free fd =>
    cases fd with
    | none => cases executed; rfl
    | some address =>
      obtain ⟨_, rfl⟩ : address ∈ r.heap ∧ { r with heap := r.heap.erase address } = r' := by
        simpa [exec] using executed
      rfl
  | setCurrFd fd value | setNext fd next =>
    obtain ⟨changed, updated, equal⟩ := Option.map_eq_some_iff.mp executed
    cases equal
    obtain ⟨heap, rfl⟩ := update_heap updated
    rfl
  | getCurrFd fd | getNext fd =>
    obtain ⟨node, _, equal⟩ := Option.map_eq_some_iff.mp executed
    cases equal
    rfl
  | diverge => cases executed
  | _ =>
    cases executed
    rfl

/-- Before it has been waited for, the semaphore has the value it was initialised with. -/
def Poised (s : Server Thread) : Prop :=
  s.termination ≠ .waited → ∀ r, s.registry = some r → 0 < r.mutexE

theorem plain_spares (op : RegistryOp) (plain : op.Plain) : Spares op := by
  cases op with
  | wait semaphore | post semaphore => cases semaphore <;> exact plain
  | _ => trivial

theorem cregShutdownLoop_spares (fuel : Nat) (i : Int) (temp : Option Nat) :
    (cregShutdownLoop fuel i temp).Calls Spares := by
  induction fuel generalizing i temp with
  | zero =>
    simp only [cregShutdownLoop, regCall, Program.perform_bind, Program.Calls, Spares, true_and]
    intro n
    split
    · simp [Spares]
    · trivial
  | succ fuel ih =>
    simp only [cregShutdownLoop, regCall, Program.perform_bind, Program.Calls, Spares, true_and]
    intro n
    split
    · exact ⟨trivial, fun current => ⟨trivial, fun _ => ⟨trivial, fun next => ih _ next⟩⟩⟩
    · trivial

theorem cregShutdownAll_spares (fuel : Nat) : (cregShutdownAll fuel).Calls Spares := by
  simp only [cregShutdownAll, regCall, Program.perform_bind, Program.Calls, Spares, true_and]
  exact fun fds => .bind (cregShutdownLoop_spares fuel 0 fds) fun _ => by simp [Program.Calls, Spares]

theorem poised_step {s t : Server Thread} {action : ServerAction Thread} (poised : s.Poised)
    (stepped : s.step malloc fd action = some t) : t.Poised := by
  -- Before `creg_wait_for_empty` a step runs a function that spares the semaphore.
  have keep {program : RegistryProgram Unit} {r r' : ClientRegistry} (calls : program.Calls Spares)
      (ran : program.run (exec malloc) r = some ((), r')) (present : s.registry = some r)
      (early : s.termination ≠ .waited) : 0 < r'.mutexE :=
    calls.keeps (I := fun r => 0 < r.mutexE)
      (fun _ _ _ _ spares executed positive => by rw [spares_same malloc spares executed]; exact positive)
      ran (poised early r present)
  rcases step_cases malloc fd stepped with ⟨thread, r, r', rfl, _, present, ran, rfl⟩ |
      ⟨thread, r, r', rfl, _, present, ran, rfl⟩ | ⟨r, r', rfl, running, present, ran, rfl⟩ |
      ⟨r, r', rfl, _, _, _, rfl⟩ | ⟨rfl, waited, _, rfl⟩
  · rintro early _ ⟨⟩
    exact keep ((cregRegister_plain _).mono plain_spares) ran present early
  · rintro early _ ⟨⟩
    exact keep ((cregUnregister_plain _ _).mono plain_spares) ran present early
  · rintro _ _ ⟨⟩
    exact keep (cregShutdownAll_spares _) ran present (by rw [running]; decide)
  · exact fun early => (early rfl).elim
  · exact fun early => (early waited).elim

/-- `creg_wait_for_empty` never blocks. -/
theorem cregWaitForEmpty_runs {r : ClientRegistry} (positive : 0 < r.mutexE) :
    ∃ r', cregWaitForEmpty.run (exec malloc) r = some ((), r') := by
  by_cases empty : r.numOfClients = 0 <;>
    simp [cregWaitForEmpty, regCall, Program.run_call, Program.run_perform, exec, empty, positive]

/-- Once the registry has been shut down, `terminate` can end without any other thread. -/
theorem terminates {s : Server Thread} {r : ClientRegistry} (present : s.registry = some r) (poised : s.Poised)
    (shut : s.termination ≠ .running) :
    ∃ later, runs (step malloc fd) s later = some ⟨none, s.phase, .waited⟩ := by
  have fini (r : ClientRegistry) : step malloc fd ⟨some r, s.phase, .waited⟩ .fini = some ⟨none, s.phase, .waited⟩ := rfl
  obtain ⟨_, phase, termination⟩ := s
  cases present
  cases termination with
  | running => exact (shut rfl).elim
  | waited => exact ⟨[.fini], by simp [runs, fini]⟩
  | shutDown =>
    obtain ⟨r', ran⟩ := cregWaitForEmpty_runs malloc (poised (by simp) r rfl)
    have waited : step malloc fd ⟨some r, phase, .shutDown⟩ .waitForEmpty = some ⟨some r', phase, .waited⟩ := by
      simp [step, calling, ran]
    exact ⟨[.waitForEmpty, .fini], by simp [runs, waited, fini]⟩

theorem disorderly_terminates {s t : Server Thread} {action : ServerAction Thread} (poised : s.Poised)
    (disorderly : ¬ s.Orderly action) (stepped : s.step malloc fd action = some t) :
    ∃ later u, runs (step malloc fd) t later = some u ∧ ¬ u.Clean := by
  have after := poised_step malloc fd poised stepped
  suffices served : ∃ r thread, t.registry = some r ∧ t.termination ≠ .running ∧ t.phase thread = .serving by
    obtain ⟨r, thread, present, shut, serving⟩ := served
    obtain ⟨later, ran⟩ := terminates malloc fd present after shut
    exact ⟨later, _, ran, fun clean => clean rfl thread serving⟩
  rcases step_cases malloc fd stepped with ⟨thread, r, r', rfl, _, _, _, rfl⟩ | ⟨thread, r, r', rfl, _, _, _, rfl⟩ |
      ⟨r, r', rfl, _, _, _, rfl⟩ | ⟨r, r', rfl, _, _, _, rfl⟩ | ⟨rfl, _, _, rfl⟩
  · exact ⟨r', thread, rfl, disorderly, by simp⟩
  · exact (disorderly trivial).elim
  · obtain ⟨thread, serving⟩ := not_forall_not.mp disorderly
    exact ⟨r', thread, rfl, by simp, serving⟩
  · exact (disorderly trivial).elim
  · exact (disorderly trivial).elim

omit [DecidableEq Thread] in
theorem settled_start (heap : Heap Int) : (start heap : Server Thread).Settled :=
  ⟨by simp [start], fun ended => (ended rfl).elim⟩

omit [DecidableEq Thread] in
theorem poised_start (heap : Heap Int) : (start heap : Server Thread).Poised := by
  rintro _ _ ⟨⟩
  exact Nat.one_pos

end Server

/-- If no client is being served when the registry is shut down, and none registers afterwards,
then no thread is outrun. Every other run can be continued to one in which a thread is outrun. -/
theorem orderly_termination_clean {Thread : Type} [DecidableEq Thread] (malloc : Allocator Int)
    (fd : Thread → Int) (heap : Heap Int) :
    (∀ actions s, Guarded (Server.step malloc fd) Server.Orderly (Server.start heap) actions →
      runs (Server.step malloc fd) (Server.start heap) actions = some s → s.Clean) ∧
    ∀ actions s action t, runs (Server.step malloc fd) (Server.start heap) actions = some s →
      ¬ s.Orderly action → s.step malloc fd action = some t →
      ∃ later u, runs (Server.step malloc fd) t later = some u ∧ ¬ u.Clean := by
  refine ⟨fun actions s guarded ran => ?_, fun actions s action t ran disorderly stepped => ?_⟩
  · have settled : s.Settled := runs_guarded_invariant
      (fun _ _ _ settled orderly stepped => Server.settled_step malloc fd settled orderly stepped)
      (Server.settled_start heap) guarded ran
    exact fun finished => settled.2 (by rw [settled.1 finished]; decide)
  · have poised : s.Poised := runs_invariant
      (fun _ _ _ poised stepped => Server.poised_step malloc fd poised stepped) (Server.poised_start heap) ran
    exact Server.disorderly_terminates malloc fd poised disorderly stepped

/-- Two clients come and go before the server terminates. -/
def bothLeave : List (ServerAction Bool) :=
  [.register false, .register true, .unregister true, .unregister false, .shutdownAll, .waitForEmpty, .fini]

theorem orderly_termination_clean_bothLeave :
    ∃ s, runs (Server.step (.beyond Int) fun thread => cond thread 5 4) (Server.start ∅) bothLeave = some s ∧
      s.registry = none ∧ ∀ thread, s.phase thread ≠ .serving := by
  have ended : (runs (Server.step (.beyond Int) fun thread => cond thread 5 4) (Server.start ∅) bothLeave).map
      (fun s => s.registry.isNone) = some true := by decide
  obtain ⟨s, ran, freed⟩ := Option.map_eq_some_iff.mp ended
  have finished := Option.isNone_iff_eq_none.mp freed
  exact ⟨s, ran, finished,
    (orderly_termination_clean (.beyond Int) _ ∅).1 bothLeave s (by decide) ran finished⟩

theorem termination_outruns_thread :
    ¬ ∀ (Thread : Type) [DecidableEq Thread] (malloc : Allocator Int) (fd : Thread → Int) (heap : Heap Int)
      (actions : List (ServerAction Thread)) (s : Server Thread),
      runs (Server.step malloc fd) (Server.start heap) actions = some s → s.Clean := by
  intro clean
  have outran : (runs (Server.step (Allocator.beyond Int) fun _ : Unit => 4) (Server.start ∅)
      [.register (), .shutdownAll, .waitForEmpty, .fini]).map (fun s => (s.registry.isNone, s.phase ())) =
        some (true, .serving) := by decide
  obtain ⟨s, ran, ended⟩ := Option.map_eq_some_iff.mp outran
  obtain ⟨freed, serving⟩ := Prod.mk.inj ended
  exact clean Unit _ _ ∅ _ s ran (Option.isNone_iff_eq_none.mp freed) () serving

end MazeWar
