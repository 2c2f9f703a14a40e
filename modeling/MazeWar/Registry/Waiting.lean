import MazeWar.Registry.Shutdown
import MazeWar.Registry.WellFormed

/-!
# Waiting for an empty registry

`creg_wait_for_empty` tests the number of clients and then takes or raises the semaphore `mutex_e`,
among the other calls of any number of threads. `creg_init` sets the semaphore to one, and only a
call that finds the registry empty raises it, so it does not tell a waiter when that is so.
-/

namespace MazeWar
open Foundation ClientRegistry

/-! ### What one registry call does to the count and to the semaphore -/

/-- The call is the one that leaves no client. -/
def RegistryCall.empties (r : ClientRegistry) : RegistryCall → Bool
  | .register _ => false
  | .unregister _ => r.numOfClients = 1
  | .shutdownAll => true

namespace ClientRegistry
variable {malloc : Allocator Int} {r t : ClientRegistry} {ledger : Ledger} {c : RegistryCall}

theorem program_spares (r : ClientRegistry) (c : RegistryCall) : (c.program r).Calls Server.Spares := by
  cases c with
  | register fd => exact (cregRegister_plain fd).mono Server.plain_spares
  | unregister fd => exact (cregUnregister_plain fd _).mono Server.plain_spares
  | shutdownAll => exact Server.cregShutdownAll_spares _

theorem call_mutexE (called : r.call malloc c = some t) : t.mutexE = r.mutexE := by
  obtain ⟨⟨_, u⟩, ran, rfl⟩ := Option.map_eq_some_iff.mp called
  exact (program_spares r c).keeps (I := fun u => u.mutexE = r.mutexE)
    (fun _ _ _ _ spares executed same => (Server.spares_same malloc spares executed).trans same) ran rfl

/-- A call that returns leaves a registry that is intact or dangling. -/
theorem call_represents (represents : Represents r ledger) (called : r.call malloc c = some t) :
    ∃ ledger, Represents t ledger := by
  by_cases careful : ledger.Careful c
  · obtain ⟨t', called', kept⟩ := represents_call malloc represents careful
    obtain rfl := Option.some.inj (called.symm.trans called')
    exact ⟨_, kept⟩
  · cases c with
    | register fd | shutdownAll => exact absurd trivial careful
    | unregister fd =>
      cases represents with
      | @intact nodes intact =>
        have one : nodes.length = 1 := by
          simp only [Ledger.Careful, not_forall] at careful
          obtain ⟨_, careless⟩ := careful
          simpa using careless
        exact ⟨_, .dangling (unregister_last malloc intact one called)⟩
      | dangling dangling =>
        rw [unregister_dangling malloc dangling] at called
        cases called

theorem call_empties (represents : Represents r ledger) (called : r.call malloc c = some t)
    (clients : r.numOfClients ≠ 0) : t.numOfClients = 0 ↔ c.empties r = true := by
  cases represents with
  | dangling dangling => exact absurd dangling.empty clients
  | @intact nodes intact =>
    cases c with
    | register fd =>
      obtain ⟨a, u, ran, pushed⟩ := cregRegister_intact malloc fd intact
      obtain rfl := eq_of_run called ran
      refine iff_of_false ?_ Bool.false_ne_true
      rw [pushed.counted, List.length_cons]
      omega
    | shutdownAll =>
      obtain rfl := eq_of_run called (cregShutdownAll_intact malloc intact)
      exact iff_of_true rfl rfl
    | unregister fd =>
      by_cases several : r.Several (.unregister fd)
      · refine iff_of_false ?_ (by simpa [RegistryCall.empties, Several] using several)
        have counted := intact.counted
        have others : nodes.length ≠ 1 := fun one => several (by rw [counted, one]; rfl)
        by_cases present : fd ∈ nodes.map Prod.snd
        · obtain ⟨left, u, ran, kept, values⟩ := cregUnregister_present malloc fd intact others present
          obtain rfl := eq_of_run called ran
          have length := congrArg List.length values
          rw [List.length_erase_of_mem present, List.length_map, List.length_map] at length
          rw [kept.counted]
          omega
        · obtain rfl := eq_of_run called (cregUnregister_absent malloc fd intact others present)
          exact clients
      · exact iff_of_true (intact_unregister_last intact several called).empty
          (by simpa [RegistryCall.empties, Several] using several)

end ClientRegistry

/-! ### The threads -/

/-- The history of a call of `creg_wait_for_empty`. -/
structure WaitRecord where
  /-- `num_of_clients` is zero, or has been since the call made its test. -/
  emptySince : Bool
  /-- A call has left no client since then. -/
  relieved : Bool
  /-- The test was made while `mutex_e` was positive or another call was about to raise it. -/
  leftover : Bool
  deriving DecidableEq, Repr

/-- The threads that have made the test in `creg_wait_for_empty`: `blocked` are those that found
clients and are at `P(&cr->mutex_e)`, `alerting` those that found none and are at `V(&cr->mutex_e)`. -/
structure Waiters (Thread : Type) where
  registry : ClientRegistry
  blocked : Finset Thread
  alerting : Finset Thread
  record : Thread → WaitRecord

inductive WaitAction (Thread : Type) where
  | call (c : RegistryCall)
  | test (thread : Thread)
  | proceed (thread : Thread)

def WaitRecord.after (record : WaitRecord) (c : RegistryCall) (before after : ClientRegistry) : WaitRecord :=
  { record with
    emptySince := record.emptySince || after.numOfClients = 0
    relieved := record.relieved || c.empties before }

namespace Waiters
variable {Thread : Type} [DecidableEq Thread] (malloc : Allocator Int)

def start (heap : Heap Int) : Waiters Thread := ⟨cregInit heap, ∅, ∅, fun _ => ⟨false, false, false⟩⟩

def tests (s : Waiters Thread) (thread : Thread) : Waiters Thread :=
  { s with
    blocked := if s.registry.numOfClients ≠ 0 then insert thread s.blocked else s.blocked
    alerting := if s.registry.numOfClients ≠ 0 then s.alerting else insert thread s.alerting
    record := Function.update s.record thread
      ⟨s.registry.numOfClients = 0, false, 0 < s.registry.mutexE ∨ s.alerting.Nonempty⟩ }

def step (s : Waiters Thread) : WaitAction Thread → Option (Waiters Thread)
  | .call c => (s.registry.call malloc c).map fun registry =>
      { s with registry, record := fun thread => (s.record thread).after c s.registry registry }
  | .test thread => if thread ∉ s.blocked ∧ thread ∉ s.alerting then some (s.tests thread) else none
  | .proceed thread =>
    if thread ∈ s.blocked then
      ((regCall (.wait .mutexE)).run (exec malloc) s.registry).map fun answer =>
        { s with registry := answer.2, blocked := s.blocked.erase thread }
    else if thread ∈ s.alerting then
      ((regCall (.post .mutexE)).run (exec malloc) s.registry).map fun answer =>
        { s with registry := answer.2, alerting := s.alerting.erase thread }
    else none

/-- The two steps with nothing in between are `creg_wait_for_empty`. -/
theorem steps_alone {s : Waiters Thread} {thread : Thread} (idle : thread ∉ s.blocked ∧ thread ∉ s.alerting) :
    (runs (step malloc) s [.test thread, .proceed thread]).map registry =
      (cregWaitForEmpty.run (exec malloc) s.registry).map Prod.snd := by
  by_cases empty : s.registry.numOfClients = 0
  · simp [runs, step, tests, idle, empty, cregWaitForEmpty, regCall, Program.run_call, Program.run_perform, exec]
  · by_cases free : 0 < s.registry.mutexE <;>
      simp [runs, step, tests, idle, empty, free, cregWaitForEmpty, regCall, Program.run_call, Program.run_perform, exec]

variable {malloc} {s t : Waiters Thread} {action : WaitAction Thread} {thread i : Thread}

theorem step_cases (stepped : s.step malloc action = some t) :
    (∃ c registry, action = .call c ∧ s.registry.call malloc c = some registry ∧
      t = ⟨registry, s.blocked, s.alerting, fun thread => (s.record thread).after c s.registry registry⟩) ∨
    (∃ thread, action = .test thread ∧ thread ∉ s.blocked ∧ thread ∉ s.alerting ∧ t = s.tests thread) ∨
    (∃ thread, action = .proceed thread ∧ thread ∈ s.blocked ∧ 0 < s.registry.mutexE ∧
      t = { s with
        registry := { s.registry with mutexE := s.registry.mutexE - 1 }, blocked := s.blocked.erase thread }) ∨
    (∃ thread, action = .proceed thread ∧ thread ∉ s.blocked ∧ thread ∈ s.alerting ∧
      t = { s with
        registry := { s.registry with mutexE := s.registry.mutexE + 1 }, alerting := s.alerting.erase thread }) := by
  cases action with
  | call c =>
    obtain ⟨registry, called, rfl⟩ := Option.map_eq_some_iff.mp stepped
    exact .inl ⟨c, registry, rfl, called, rfl⟩
  | test thread =>
    simp only [step] at stepped
    split_ifs at stepped with idle
    exact .inr (.inl ⟨thread, rfl, idle.1, idle.2, (Option.some.inj stepped).symm⟩)
  | proceed thread =>
    simp only [step] at stepped
    split_ifs at stepped with waits alerts
    · obtain ⟨⟨_, registry⟩, ran, rfl⟩ := Option.map_eq_some_iff.mp stepped
      simp only [regCall, Program.run_perform, exec, Option.ite_none_right_eq_some, Option.some.injEq,
        Prod.mk.injEq] at ran
      obtain ⟨free, _, rfl⟩ := ran
      exact .inr (.inr (.inl ⟨thread, rfl, waits, free, rfl⟩))
    · obtain ⟨⟨_, registry⟩, ran, rfl⟩ := Option.map_eq_some_iff.mp stepped
      cases ran
      exact .inr (.inr (.inr ⟨thread, rfl, waits, alerts, rfl⟩))

theorem step_takes (malloc : Allocator Int) (waits : thread ∈ s.blocked) (free : 0 < s.registry.mutexE) :
    s.step malloc (.proceed thread) = some { s with
      registry := { s.registry with mutexE := s.registry.mutexE - 1 }, blocked := s.blocked.erase thread } := by
  simp [step, waits, regCall, Program.run_perform, exec, free]

theorem step_raises (malloc : Allocator Int) (notBlocked : thread ∉ s.blocked) (alerts : thread ∈ s.alerting) :
    s.step malloc (.proceed thread) = some { s with
      registry := { s.registry with mutexE := s.registry.mutexE + 1 }, alerting := s.alerting.erase thread } := by
  simp [step, notBlocked, alerts, regCall, Program.run_perform, exec]

/-! ### Early returns -/

/-- A call that returns does so when there are no clients, or have been none since it began. -/
def ReturnsEmpty (s : Waiters Thread) : Option (WaitAction Thread) → Prop
  | some (.proceed thread) => s.registry.numOfClients = 0 ∨ (s.record thread).emptySince = true
  | _ => True

/-- A call that has found clients, although `mutex_e` was positive or about to be raised, takes it
only when a call has left no client since. -/
def Relieved (s : Waiters Thread) : WaitAction Thread → Prop
  | .proceed thread => thread ∈ s.blocked → (s.record thread).leftover = true → (s.record thread).relieved = true
  | .call _ | .test _ => True

instance (s : Waiters Thread) (action : WaitAction Thread) : Decidable (s.Relieved action) := by
  cases action <;> unfold Relieved <;> infer_instance

/-- What the records of the calls in progress say about the registry. The last field is about a call
that really has to wait: nothing raises the semaphore before the registry is empty. -/
structure Accounted (s : Waiters Thread) : Prop where
  registry : ∃ ledger, Represents s.registry ledger
  apart : Disjoint s.blocked s.alerting
  alerting : ∀ thread ∈ s.alerting, (s.record thread).emptySince = true
  relieved : ∀ thread ∈ s.blocked, (s.record thread).relieved = (s.record thread).emptySince
  clients : ∀ thread ∈ s.blocked, (s.record thread).emptySince = false → s.registry.numOfClients ≠ 0
  spent : ∀ thread ∈ s.blocked, (s.record thread).leftover = false → (s.record thread).emptySince = false →
    s.registry.mutexE = 0 ∧ s.alerting = ∅

omit [DecidableEq Thread] in
theorem start_accounted (heap : Heap Int) : (start heap : Waiters Thread).Accounted where
  registry := ⟨⟨0, false⟩, .intact (r := cregInit heap) ⟨rfl, rfl, .nil⟩⟩
  apart := Finset.disjoint_empty_left _
  alerting := by simp [start]
  relieved := by simp [start]
  clients := by simp [start]
  spent := by simp [start]

theorem represents_mutexE {r : ClientRegistry} {ledger : Ledger} (represents : Represents r ledger) (n : Nat) :
    Represents { r with mutexE := n } ledger := by
  cases represents with
  | intact intact => exact .intact ⟨intact.unlocked, intact.counted, intact.chain⟩
  | dangling dangling => exact .dangling ⟨dangling.unlocked, dangling.empty, dangling.freed⟩

omit [DecidableEq Thread] in
theorem accounted_call (accounted : s.Accounted) {c : RegistryCall} {registry : ClientRegistry}
    (called : s.registry.call malloc c = some registry) : Accounted
      ⟨registry, s.blocked, s.alerting, fun thread => (s.record thread).after c s.registry registry⟩ := by
  obtain ⟨ledger, represents⟩ := accounted.registry
  refine ⟨call_represents represents called, accounted.apart, fun thread alerts => ?_, fun thread waits => ?_,
    fun thread _ early => ?_, fun thread waits taken early => ?_⟩
  · simp [WaitRecord.after, accounted.alerting thread alerts]
  · simp only [WaitRecord.after, accounted.relieved thread waits]
    cases early : (s.record thread).emptySince with
    | true => rfl
    | false =>
      have empties := call_empties represents called (accounted.clients thread waits early)
      rw [Bool.false_or, Bool.false_or, Bool.eq_iff_iff, ← empties, decide_eq_true_iff]
  · simp only [WaitRecord.after, Bool.or_eq_false_iff, decide_eq_false_iff_not] at early
    exact early.2
  · simp only [WaitRecord.after, Bool.or_eq_false_iff] at taken early
    rw [call_mutexE called]
    exact accounted.spent thread waits taken early.1

theorem tests_record_self : (s.tests thread).record thread =
    ⟨s.registry.numOfClients = 0, false, 0 < s.registry.mutexE ∨ s.alerting.Nonempty⟩ := Function.update_self ..

theorem tests_record_other {threads : Finset Thread} (member : i ∈ threads) (apart : thread ∉ threads) :
    (s.tests thread).record i = s.record i := Function.update_of_ne (ne_of_mem_of_not_mem member apart) _ _

theorem mem_tests_blocked : i ∈ (s.tests thread).blocked ↔
    (i = thread ∧ s.registry.numOfClients ≠ 0) ∨ i ∈ s.blocked := by
  unfold tests
  by_cases empty : s.registry.numOfClients = 0 <;> simp [empty]

theorem mem_tests_alerting : i ∈ (s.tests thread).alerting ↔
    (i = thread ∧ s.registry.numOfClients = 0) ∨ i ∈ s.alerting := by
  unfold tests
  by_cases empty : s.registry.numOfClients = 0 <;> simp [empty]

theorem tests_alerting (clients : s.registry.numOfClients ≠ 0) : (s.tests thread).alerting = s.alerting := if_pos clients

theorem accounted_tests (accounted : s.Accounted) (notBlocked : thread ∉ s.blocked) (notAlerting : thread ∉ s.alerting) :
    (s.tests thread).Accounted := by
  refine ⟨accounted.registry, ?_, fun i alerts => ?_, fun i waits => ?_, fun i waits early => ?_,
    fun i waits taken early => ?_⟩
  · unfold tests
    by_cases empty : s.registry.numOfClients = 0 <;> simp [empty, notBlocked, notAlerting, accounted.apart]
  · rcases mem_tests_alerting.mp alerts with ⟨rfl, empty⟩ | alerts
    · rw [tests_record_self]
      exact decide_eq_true empty
    · rw [tests_record_other alerts notAlerting]
      exact accounted.alerting i alerts
  · rcases mem_tests_blocked.mp waits with ⟨rfl, clients⟩ | waits
    · rw [tests_record_self]
      exact (decide_eq_false clients).symm
    · rw [tests_record_other waits notBlocked]
      exact accounted.relieved i waits
  · rcases mem_tests_blocked.mp waits with ⟨rfl, clients⟩ | waits
    · exact clients
    · rw [tests_record_other waits notBlocked] at early
      exact accounted.clients i waits early
  · rcases mem_tests_blocked.mp waits with ⟨rfl, clients⟩ | waits
    · rw [tests_record_self, decide_eq_false_iff_not, not_or, Finset.not_nonempty_iff_eq_empty] at taken
      exact ⟨Nat.eq_zero_of_not_pos taken.1, (tests_alerting clients).trans taken.2⟩
    · rw [tests_record_other waits notBlocked] at taken early
      obtain ⟨none, nobody⟩ := accounted.spent i waits taken early
      exact ⟨none, (tests_alerting (accounted.clients i waits early)).trans nobody⟩

theorem accounted_takes (accounted : s.Accounted) (free : 0 < s.registry.mutexE) : Accounted { s with
    registry := { s.registry with mutexE := s.registry.mutexE - 1 }, blocked := s.blocked.erase thread } := by
  obtain ⟨ledger, represents⟩ := accounted.registry
  refine ⟨⟨ledger, represents_mutexE represents _⟩, accounted.apart.mono_left (Finset.erase_subset _ _),
    accounted.alerting, fun i waits => ?_, fun i waits early => ?_, fun i waits taken early => ?_⟩
  · exact accounted.relieved i (Finset.mem_of_mem_erase waits)
  · exact accounted.clients i (Finset.mem_of_mem_erase waits) early
  · have none := (accounted.spent i (Finset.mem_of_mem_erase waits) taken early).1
    omega

theorem accounted_raises (accounted : s.Accounted) (alerts : thread ∈ s.alerting) : Accounted { s with
    registry := { s.registry with mutexE := s.registry.mutexE + 1 }, alerting := s.alerting.erase thread } := by
  obtain ⟨ledger, represents⟩ := accounted.registry
  refine ⟨⟨ledger, represents_mutexE represents _⟩, accounted.apart.mono_right (Finset.erase_subset _ _),
    fun i alerts => ?_, accounted.relieved, accounted.clients, fun i waits taken early => ?_⟩
  · exact accounted.alerting i (Finset.mem_of_mem_erase alerts)
  · have none := (accounted.spent i waits taken early).2
    rw [none] at alerts
    exact absurd alerts (Finset.notMem_empty thread)

theorem step_accounted (accounted : s.Accounted) (stepped : s.step malloc action = some t) : t.Accounted := by
  rcases step_cases stepped with ⟨c, registry, rfl, called, rfl⟩ | ⟨thread, rfl, notBlocked, notAlerting, rfl⟩ |
      ⟨thread, rfl, waits, free, rfl⟩ | ⟨thread, rfl, _, alerts, rfl⟩
  · exact accounted_call accounted called
  · exact accounted_tests accounted notBlocked notAlerting
  · exact accounted_takes accounted free
  · exact accounted_raises accounted alerts

/-- A call that has to wait returns when the registry has been empty. -/
theorem relieved_returns (accounted : s.Accounted) (relieved : s.Relieved action)
    (stepped : s.step malloc action = some t) : s.ReturnsEmpty (some action) := by
  rcases step_cases stepped with ⟨c, registry, rfl, _, _⟩ | ⟨thread, rfl, _, _, _⟩ |
      ⟨thread, rfl, waits, free, _⟩ | ⟨thread, rfl, _, alerts, _⟩
  · trivial
  · trivial
  · right
    by_contra early
    have early := Bool.eq_false_of_not_eq_true early
    cases taken : (s.record thread).leftover with
    | true =>
      have since := relieved waits taken
      rw [accounted.relieved thread waits, early] at since
      cases since
    | false =>
      have none := (accounted.spent thread waits taken early).1
      omega
  · exact .inr (accounted.alerting thread alerts)

omit [DecidableEq Thread] in
theorem unrelieved_returns (accounted : s.Accounted) (unrelieved : ¬ s.Relieved action) :
    ¬ s.ReturnsEmpty (some action) := by
  cases action with
  | call c => exact absurd trivial unrelieved
  | test thread => exact absurd trivial unrelieved
  | proceed thread =>
    simp only [Relieved, Classical.not_imp] at unrelieved
    obtain ⟨waits, _, unrelieved⟩ := unrelieved
    rw [accounted.relieved thread waits, Bool.not_eq_true] at unrelieved
    rintro (empty | since)
    · exact accounted.clients thread waits unrelieved empty
    · rw [unrelieved] at since
      cases since

/-- A call finds clients only when `mutex_e` is zero and no other call is about to raise it. -/
def Depleted (s : Waiters Thread) : WaitAction Thread → Prop
  | .test _ => s.registry.numOfClients ≠ 0 → s.registry.mutexE = 0 ∧ s.alerting = ∅
  | .call _ | .proceed _ => True

instance (s : Waiters Thread) (action : WaitAction Thread) : Decidable (s.Depleted action) := by
  cases action <;> unfold Depleted <;> infer_instance

/-- Each call that waits has found `mutex_e` at zero, and nobody about to raise it. -/
def Patient (s : Waiters Thread) : Prop := ∀ thread ∈ s.blocked, (s.record thread).leftover = false

omit [DecidableEq Thread] in
theorem Patient.relieved (patient : s.Patient) : s.Relieved action := by
  cases action with
  | call c => trivial
  | test thread => trivial
  | proceed thread =>
    intro waits taken
    rw [patient thread waits] at taken
    cases taken

theorem step_patient (patient : s.Patient) (depleted : s.Depleted action) (stepped : s.step malloc action = some t) :
    t.Patient := by
  rcases step_cases stepped with ⟨c, registry, rfl, called, rfl⟩ | ⟨thread, rfl, notBlocked, notAlerting, rfl⟩ |
      ⟨thread, rfl, waits, free, rfl⟩ | ⟨thread, rfl, _, alerts, rfl⟩
  · exact patient
  · intro i waits
    rcases mem_tests_blocked.mp waits with ⟨rfl, clients⟩ | waits
    · obtain ⟨none, nobody⟩ := depleted clients
      rw [tests_record_self]
      simp [none, nobody]
    · rw [tests_record_other waits notBlocked]
      exact patient i waits
  · exact fun i waits => patient i (Finset.mem_of_mem_erase waits)
  · exact patient

/-- A call that has found clients can return before they have left, once the semaphore is positive. -/
theorem takes_early (malloc : Allocator Int) (waits : thread ∈ s.blocked) (clients : s.registry.numOfClients ≠ 0)
    (never : (s.record thread).emptySince = false) (free : 0 < s.registry.mutexE) :
    ∃ later u, runs (step malloc) s later = some u ∧ ¬ Along (step malloc) ReturnsEmpty s later := by
  refine ⟨[.proceed thread], _, runs_cons_iff.mpr ⟨_, step_takes malloc waits free, rfl⟩, fun along => ?_⟩
  rcases along.here with empty | since
  · exact clients empty
  · rw [never] at since
    cases since

theorem undepleted_returns_early (accounted : s.Accounted) (undepleted : ¬ s.Depleted action)
    (stepped : s.step malloc action = some t) :
    ∃ later u, runs (step malloc) t later = some u ∧ ¬ Along (step malloc) ReturnsEmpty t later := by
  cases action with
  | call c => exact absurd trivial undepleted
  | proceed thread => exact absurd trivial undepleted
  | test thread =>
    obtain ⟨clients, available⟩ := Classical.not_imp.mp undepleted
    have kept := step_accounted accounted stepped
    simp only [step] at stepped
    split_ifs at stepped with idle
    obtain rfl := Option.some.inj stepped
    have waits : thread ∈ (s.tests thread).blocked := mem_tests_blocked.mpr (.inl ⟨rfl, clients⟩)
    have never : ((s.tests thread).record thread).emptySince = false := by
      rw [tests_record_self]
      exact decide_eq_false clients
    obtain none | free := Nat.eq_zero_or_pos s.registry.mutexE
    · -- Another call raises the semaphore first.
      obtain ⟨other, alerts⟩ := Finset.nonempty_iff_ne_empty.mpr fun nobody => available ⟨none, nobody⟩
      have alerts : other ∈ (s.tests thread).alerting := mem_tests_alerting.mpr (.inr alerts)
      have raised := step_raises malloc (Finset.disjoint_right.mp kept.apart alerts) alerts
      obtain ⟨later, u, ran, early⟩ := takes_early malloc (s := { s.tests thread with
        registry := { s.registry with mutexE := s.registry.mutexE + 1 },
        alerting := (s.tests thread).alerting.erase other }) waits clients never (Nat.succ_pos _)
      exact ⟨.proceed other :: later, u, runs_cons_iff.mpr ⟨_, raised, ran⟩,
        fun along => early ((along_cons raised).mp along).2⟩
    · exact takes_early malloc waits clients never free

end Waiters

/-- In a run from `creg_init`, every call of `creg_wait_for_empty` that returns does so after the
registry has been empty exactly if each call that finds clients, and could take the semaphore all
the same, takes it only after a call that leaves no client. From a state on in which no call waits it is
enough that no call finds clients while the semaphore is positive or about to be raised, and every
run with a call that does can be continued to one in which a call returns early. -/
theorem waits_return_empty_iff {Thread : Type} [DecidableEq Thread] (malloc : Allocator Int) (heap : Heap Int) :
    (∀ (actions : List (WaitAction Thread)) s, runs (Waiters.step malloc) (Waiters.start heap) actions = some s →
      (Along (Waiters.step malloc) Waiters.ReturnsEmpty (Waiters.start heap) actions ↔
        Guarded (Waiters.step malloc) Waiters.Relieved (Waiters.start heap) actions)) ∧
    (∀ (actions later : List (WaitAction Thread)) s u,
      runs (Waiters.step malloc) (Waiters.start heap) actions = some s → s.blocked = ∅ →
      Guarded (Waiters.step malloc) Waiters.Depleted s later → runs (Waiters.step malloc) s later = some u →
      Along (Waiters.step malloc) Waiters.ReturnsEmpty s later) ∧
    ∀ (actions : List (WaitAction Thread)) s action t,
      runs (Waiters.step malloc) (Waiters.start heap) actions = some s → ¬ s.Depleted action →
      s.step malloc action = some t → ∃ later u, runs (Waiters.step malloc) t later = some u ∧
        ¬ Along (Waiters.step malloc) Waiters.ReturnsEmpty t later := by
  have exactly {s u : Waiters Thread} {actions : List (WaitAction Thread)} (accounted : s.Accounted)
      (ran : runs (Waiters.step malloc) s actions = some u) :
      Along (Waiters.step malloc) Waiters.ReturnsEmpty s actions ↔
        Guarded (Waiters.step malloc) Waiters.Relieved s actions := by
    refine along_iff_guarded (I := Waiters.Accounted) ?_ (fun _ _ => trivial) ?_ ?_ accounted ran
    · exact fun _ _ _ accounted _ stepped => Waiters.step_accounted accounted stepped
    · exact fun _ _ _ accounted relieved stepped => Waiters.relieved_returns accounted relieved stepped
    · exact fun _ _ _ accounted unrelieved _ here => absurd here (Waiters.unrelieved_returns accounted unrelieved)
  have reached {s : Waiters Thread} {actions : List (WaitAction Thread)}
      (ran : runs (Waiters.step malloc) (Waiters.start heap) actions = some s) : s.Accounted :=
    runs_invariant (fun _ _ _ accounted stepped => Waiters.step_accounted accounted stepped)
      (Waiters.start_accounted heap) ran
  refine ⟨fun actions s ran => exactly (Waiters.start_accounted heap) ran, fun actions later s u ran idle guarded ran' => ?_,
    fun actions s action t ran undepleted stepped => ?_⟩
  · have patient : s.Patient := fun thread waits => absurd waits (idle ▸ Finset.notMem_empty thread)
    exact (exactly (reached ran) ran').mpr (guarded.implies
      (fun _ _ _ patient depleted stepped => Waiters.step_patient patient depleted stepped)
      (fun _ _ patient _ => patient.relieved) patient)
  · exact Waiters.undepleted_returns_early (reached ran) undepleted stepped

/-- A client registers, and a thread waits. -/
def impatience : List (WaitAction Unit) := [.call (.register 4), .test (), .proceed ()]

/-- `creg_init` has left the semaphore positive, so the thread goes on while the client is registered. -/
theorem wait_returns_early : (runs (Waiters.step (.beyond Int)) (Waiters.start ∅) impatience).isSome ∧
    ¬ Along (Waiters.step (.beyond Int)) Waiters.ReturnsEmpty (Waiters.start ∅) impatience := by
  refine ⟨by decide, fun along => ?_⟩
  have seen : (runs (Waiters.step (.beyond Int)) (Waiters.start ∅ : Waiters Unit)
      [.call (.register 4), .test ()]).map (fun s => (s.registry.numOfClients, (s.record ()).emptySince)) =
        some (1, false) := by decide
  obtain ⟨s, ran, fields⟩ := Option.map_eq_some_iff.mp seen
  obtain ⟨clients, never⟩ := Prod.mk.inj fields
  rcases along [.call (.register 4), .test ()] [.proceed ()] s rfl ran with empty | since
  · rw [clients] at empty
    cases empty
  · rw [never] at since
    cases since

/-- The first waiter goes on when the client has left, and the second waits for one that finds no client. -/
def patience : List (WaitAction (Fin 3)) :=
  [.call (.register 4), .test 0, .call (.unregister 4), .proceed 0,
    .call (.register 5), .test 1, .call .shutdownAll, .test 2, .proceed 2, .proceed 1]

theorem waits_return_empty_patience :
    Along (Waiters.step (.beyond Int)) Waiters.ReturnsEmpty (Waiters.start ∅) patience ∧
    ∃ s, runs (Waiters.step (.beyond Int)) (Waiters.start ∅) (patience.take 4) = some s ∧ s.registry.mutexE = 0 ∧
      Along (Waiters.step (.beyond Int)) Waiters.ReturnsEmpty s (patience.drop 4) := by
  obtain ⟨exactly, enough, _⟩ := @waits_return_empty_iff (Fin 3) _ (.beyond Int) ∅
  have returns : (runs (Waiters.step (.beyond Int)) (Waiters.start ∅) patience).isSome := by decide
  obtain ⟨u, ran⟩ := Option.isSome_iff_exists.mp returns
  refine ⟨(exactly patience u ran).mpr (by decide), ?_⟩
  have seen : (runs (Waiters.step (.beyond Int)) (Waiters.start ∅) (patience.take 4)).map (fun s =>
      (s.blocked, s.registry.mutexE, decide (Guarded (Waiters.step (.beyond Int)) Waiters.Depleted s (patience.drop 4)),
        (runs (Waiters.step (.beyond Int)) s (patience.drop 4)).isSome)) = some (∅, 0, true, true) := by decide
  obtain ⟨s, ran, fields⟩ := Option.map_eq_some_iff.mp seen
  simp only [Prod.mk.injEq, decide_eq_true_eq] at fields
  obtain ⟨idle, spent, depleted, returns⟩ := fields
  obtain ⟨u, ran'⟩ := Option.isSome_iff_exists.mp returns
  exact ⟨s, ran, spent, enough _ _ s u ran idle depleted ran'⟩

/-! ### Lost wake-ups -/

namespace Waiters
variable {Thread : Type} [DecidableEq Thread] {malloc : Allocator Int} {s t : Waiters Thread}
  {action : WaitAction Thread}

/-- With no clients and no call in progress but those that wait, the semaphore lets one of them go on. -/
def NoLostWakeUp (s : Waiters Thread) : Prop :=
  s.blocked.Nonempty → s.alerting = ∅ → s.registry.numOfClients = 0 → 0 < s.registry.mutexE

/-- A call finds clients only while fewer calls wait than the semaphore allows for, with the calls
that are about to raise it. -/
def Provided (s : Waiters Thread) : WaitAction Thread → Prop
  | .test _ => s.registry.numOfClients ≠ 0 → s.blocked.card < s.registry.mutexE + s.alerting.card
  | .call _ | .proceed _ => True

instance (s : Waiters Thread) (action : WaitAction Thread) : Decidable (s.Provided action) := by
  cases action <;> unfold Provided <;> infer_instance

/-- The semaphore allows for all calls that wait. -/
def Covered (s : Waiters Thread) : Prop := s.blocked.card ≤ s.registry.mutexE + s.alerting.card

omit [DecidableEq Thread] in
theorem Covered.noLostWakeUp (covered : s.Covered) : s.NoLostWakeUp := by
  intro waiting nobody _
  have some := Finset.card_pos.mpr waiting
  rw [Covered, nobody, Finset.card_empty] at covered
  omega

theorem step_covered (covered : s.Covered) (provided : s.Provided action) (stepped : s.step malloc action = some t) :
    t.Covered := by
  unfold Covered at covered ⊢
  rcases step_cases stepped with ⟨c, registry, rfl, called, rfl⟩ | ⟨thread, rfl, notBlocked, notAlerting, rfl⟩ |
      ⟨thread, rfl, waits, free, rfl⟩ | ⟨thread, rfl, _, alerts, rfl⟩
  · dsimp only
    rw [call_mutexE called]
    exact covered
  · by_cases empty : s.registry.numOfClients = 0
    · simp only [tests, empty, ne_eq, not_true_eq_false, if_false]
      rw [Finset.card_insert_of_notMem notAlerting]
      omega
    · have few := provided empty
      simp only [tests, empty, ne_eq, not_false_eq_true, if_true]
      rw [Finset.card_insert_of_notMem notBlocked]
      omega
  · dsimp only
    rw [Finset.card_erase_of_mem waits]
    omega
  · dsimp only
    rw [Finset.card_erase_of_mem alerts]
    omega

/-- When more calls wait than the semaphore allows for, one of them can be left behind: the others
go on, and then the registry is shut down. -/
theorem overdrawn_loses (malloc : Allocator Int) (accounted : s.Accounted)
    (overdrawn : s.registry.mutexE + s.alerting.card < s.blocked.card) :
    ∃ later u, runs (step malloc) s later = some u ∧ ¬ u.NoLostWakeUp := by
  induction measured : s.registry.mutexE + 2 * s.alerting.card using Nat.strongRecOn generalizing s with
  | ind n ih =>
    have next {thread : Thread} {t : Waiters Thread} (stepped : s.step malloc (.proceed thread) = some t)
        (less : t.registry.mutexE + 2 * t.alerting.card < n)
        (still : t.registry.mutexE + t.alerting.card < t.blocked.card) :
        ∃ later u, runs (step malloc) s later = some u ∧ ¬ u.NoLostWakeUp := by
      obtain ⟨later, u, ran, lost⟩ := ih _ less (step_accounted accounted stepped) still rfl
      exact ⟨.proceed thread :: later, u, runs_cons_iff.mpr ⟨t, stepped, ran⟩, lost⟩
    rcases s.alerting.eq_empty_or_nonempty with nobody | ⟨thread, alerts⟩
    · have waiting : s.blocked.Nonempty := Finset.card_pos.mp (by omega)
      obtain none | free := Nat.eq_zero_or_pos s.registry.mutexE
      · obtain ⟨ledger, represents⟩ := accounted.registry
        obtain ⟨registry, called, shut⟩ := represents_shutdownAll malloc represents
        refine ⟨[.call .shutdownAll], _, runs_cons_iff.mpr ⟨_, by rw [step, called]; rfl, rfl⟩, fun kept => ?_⟩
        have positive := kept waiting nobody (refines_of_represents malloc shut).1
        rw [call_mutexE called, none] at positive
        exact absurd positive (Nat.lt_irrefl 0)
      · obtain ⟨thread, waits⟩ := waiting
        refine next (step_takes malloc waits free) ?_ ?_
        · dsimp only
          omega
        · dsimp only
          rw [Finset.card_erase_of_mem waits]
          omega
    · have notBlocked : thread ∉ s.blocked := Finset.disjoint_right.mp accounted.apart alerts
      have some := Finset.card_pos.mpr ⟨thread, alerts⟩
      refine next (step_raises malloc notBlocked alerts) ?_ ?_
      · dsimp only
        rw [Finset.card_erase_of_mem alerts]
        omega
      · dsimp only
        rw [Finset.card_erase_of_mem alerts]
        omega

theorem unprovided_loses (accounted : s.Accounted) (unprovided : ¬ s.Provided action)
    (stepped : s.step malloc action = some t) : ∃ later u, runs (step malloc) t later = some u ∧ ¬ u.NoLostWakeUp := by
  refine overdrawn_loses malloc (step_accounted accounted stepped) ?_
  cases action with
  | call c => exact absurd trivial unprovided
  | proceed thread => exact absurd trivial unprovided
  | test thread =>
    obtain ⟨clients, many⟩ := Classical.not_imp.mp unprovided
    simp only [step] at stepped
    split_ifs at stepped with idle
    obtain rfl := Option.some.inj stepped
    simp only [tests, clients, ne_eq, not_false_eq_true, if_true]
    rw [Finset.card_insert_of_notMem idle.1]
    omega

end Waiters

/-- If each call that finds clients does so while fewer calls wait than the semaphore allows for,
then no wake-up is lost. Every other run can be continued to one in which a wake-up is lost. -/
theorem waits_provided_wake {Thread : Type} [DecidableEq Thread] (malloc : Allocator Int) (heap : Heap Int) :
    (∀ (actions : List (WaitAction Thread)) s,
      Guarded (Waiters.step malloc) Waiters.Provided (Waiters.start heap) actions →
      runs (Waiters.step malloc) (Waiters.start heap) actions = some s → s.NoLostWakeUp) ∧
    ∀ (actions : List (WaitAction Thread)) s action t,
      runs (Waiters.step malloc) (Waiters.start heap) actions = some s → ¬ s.Provided action →
      s.step malloc action = some t →
      ∃ later u, runs (Waiters.step malloc) t later = some u ∧ ¬ u.NoLostWakeUp := by
  refine ⟨fun actions s guarded ran => ?_, fun actions s action t ran unprovided stepped => ?_⟩
  · have covered : s.Covered := runs_guarded_invariant
      (fun _ _ _ covered provided stepped => Waiters.step_covered covered provided stepped)
      (Nat.zero_le _) guarded ran
    exact covered.noLostWakeUp
  · have accounted : s.Accounted := runs_invariant
      (fun _ _ _ accounted stepped => Waiters.step_accounted accounted stepped) (Waiters.start_accounted heap) ran
    exact Waiters.unprovided_loses accounted unprovided stepped

/-- A call that finds no client raises the semaphore, so that two can wait afterwards. -/
def twoProvided : List (WaitAction (Fin 3)) :=
  [.test 0, .proceed 0, .call (.register 4), .test 1, .test 2, .call (.unregister 4)]

theorem waits_provided_wake_two : ∃ s, runs (Waiters.step (.beyond Int)) (Waiters.start ∅) twoProvided = some s ∧
    s.blocked = {1, 2} ∧ s.registry.numOfClients = 0 ∧ s.NoLostWakeUp := by
  have seen : (runs (Waiters.step (.beyond Int)) (Waiters.start ∅) twoProvided).map (fun s =>
      (s.blocked, s.registry.numOfClients)) = some ({1, 2}, 0) := by decide
  obtain ⟨s, ran, fields⟩ := Option.map_eq_some_iff.mp seen
  obtain ⟨waiting, empty⟩ := Prod.mk.inj fields
  exact ⟨s, ran, waiting, empty, (waits_provided_wake (.beyond Int) ∅).1 twoProvided s (by decide) ran⟩

/-- Two threads wait for one client: the first takes the semaphore, and nobody wakes the second. -/
def twoWaiters : List (WaitAction Bool) :=
  [.call (.register 4), .test false, .test true, .proceed false, .call (.unregister 4)]

theorem wait_never_woken : ∃ s, runs (Waiters.step (.beyond Int)) (Waiters.start ∅) twoWaiters = some s ∧
    ¬ s.NoLostWakeUp := by
  have seen : (runs (Waiters.step (.beyond Int)) (Waiters.start ∅) twoWaiters).map (fun s =>
      (s.blocked, s.alerting, s.registry.numOfClients, s.registry.mutexE)) = some ({true}, ∅, 0, 0) := by decide
  obtain ⟨s, ran, fields⟩ := Option.map_eq_some_iff.mp seen
  simp only [Prod.mk.injEq] at fields
  obtain ⟨waiting, nobody, empty, spent⟩ := fields
  refine ⟨s, ran, fun kept => ?_⟩
  have positive := kept (by rw [waiting]; exact Finset.singleton_nonempty true) nobody empty
  rw [spent] at positive
  exact absurd positive (Nat.lt_irrefl 0)

end MazeWar
