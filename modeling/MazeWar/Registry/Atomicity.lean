import MazeWar.Foundation.Locking
import MazeWar.Registry.Waiting

/-!
# Registering and unregistering are atomic

Service threads execute `creg_register` and `creg_unregister` one operation at a time. Both hold the
semaphore `mutex` from their first operation to their last, so every interleaving does what whole
calls do.
-/

namespace MazeWar
open Foundation ClientRegistry
variable {Thread : Type} {malloc : Allocator Int} {r t : ClientRegistry} {fd : Int} {fuel more : Nat}

/-- The registry functions that service threads call. -/
inductive ClientCall where
  | register (fd : Int)
  | unregister (fd : Int)
  deriving DecidableEq, Repr

namespace ClientCall

def program (fuel : Nat) : ClientCall → RegistryProgram Unit
  | .register fd => cregRegister fd
  | .unregister fd => cregUnregister fd fuel

def whole : ClientCall → RegistryCall
  | .register fd => .register fd
  | .unregister fd => .unregister fd

end ClientCall

/-! ### The lock -/

def RegistryOp.role : RegistryOp → LockRole
  | .wait .mutex => .acquire
  | .post .mutex => .release
  | _ => .other

def registryLock (malloc : Allocator Int) : Lock (exec malloc) where
  role := RegistryOp.role
  count := ClientRegistry.mutex
  counted := by
    intro op s result t executed
    cases op with
    | wait semaphore =>
      cases semaphore with
      | mutex =>
        obtain ⟨positive, rfl⟩ : 0 < s.mutex ∧ { s with mutex := s.mutex - 1 } = t := by simpa [exec] using executed
        exact (Nat.sub_add_cancel positive).symm
      | mutexE =>
        obtain ⟨_, rfl⟩ : 0 < s.mutexE ∧ { s with mutexE := s.mutexE - 1 } = t := by simpa [exec] using executed
        rfl
    | post semaphore => cases semaphore <;> cases executed <;> rfl
    | free fd =>
      cases fd with
      | none => cases executed; rfl
      | some address =>
        obtain ⟨_, rfl⟩ : address ∈ s.heap ∧ { s with heap := s.heap.erase address } = t := by
          simpa [exec] using executed
        rfl
    | setCurrFd fd value | setNext fd next =>
      obtain ⟨changed, updated, same⟩ := Option.map_eq_some_iff.mp executed
      cases same
      obtain ⟨heap, rfl⟩ := update_heap updated
      rfl
    | getCurrFd fd | getNext fd =>
      obtain ⟨node, _, same⟩ := Option.map_eq_some_iff.mp executed
      cases same
      rfl
    | diverge => cases executed
    | _ =>
      cases executed
      rfl

theorem cregRegister_section (fd : Int) : Section (exec malloc) RegistryOp.role (cregRegister fd) := by
  simp only [cregRegister, regCall, Program.perform_bind, Section, Closing, RegistryOp.role, true_and, forall_const]
  intro theFd _ _ _ n _
  split <;> simp [Closing, RegistryOp.role, Program.perform]

theorem cregUnregisterLoop_closing (fd lastIndex i : Int) (fuel : Nat) (temp prev : Option Nat) :
    Closing (exec malloc) RegistryOp.role (cregUnregisterLoop fd lastIndex i fuel temp prev) := by
  induction fuel generalizing temp prev with
  | zero =>
    cases temp with
    | none => simp [cregUnregisterLoop, regCall, Closing, RegistryOp.role, Program.perform]
    | some temp => simp [cregUnregisterLoop, regCall, Closing, RegistryOp.role, Program.perform, exec]
  | succ fuel ih =>
    cases temp with
    | none => simp [cregUnregisterLoop, regCall, Closing, RegistryOp.role, Program.perform]
    | some temp =>
      simp only [cregUnregisterLoop, regCall, Program.perform_bind, Closing, RegistryOp.role]
      intro current _
      split
      · intro head _
        by_cases first : some temp = head
        · simp [first, Closing, RegistryOp.role, Program.perform]
        · by_cases last : i = lastIndex - 1 <;> simp [first, last, Closing, RegistryOp.role, Program.perform]
      · exact fun next _ => ih next (some temp)

theorem cregUnregister_section (fd : Int) (fuel : Nat) : Section (exec malloc) RegistryOp.role (cregUnregister fd fuel) := by
  simp only [cregUnregister, regCall, Program.perform_bind, Section, Closing, RegistryOp.role, true_and, forall_const]
  intro lastIndex _
  split
  · simp [Closing, RegistryOp.role, Program.perform]
  · exact fun temp _ prev _ => cregUnregisterLoop_closing _ _ _ _ _ _

theorem ClientCall.section_program (fuel : Nat) (c : ClientCall) : Section (exec malloc) RegistryOp.role (c.program fuel) := by
  cases c with
  | register fd => exact cregRegister_section fd
  | unregister fd => exact cregUnregister_section fd fuel

/-! ### The search needs no more than the number of nodes -/

theorem cregUnregisterLoop_more {lastIndex i : Int} {temp prev : Option Nat} (enough : fuel ≤ more)
    (ran : (cregUnregisterLoop fd lastIndex i fuel temp prev).run (exec malloc) r = some ((), t)) :
    (cregUnregisterLoop fd lastIndex i more temp prev).run (exec malloc) r = some ((), t) := by
  induction fuel generalizing more temp prev r with
  | zero =>
    cases temp with
    | none => cases more <;> exact ran
    | some temp => cases ran
  | succ fuel ih =>
    obtain ⟨more, rfl⟩ : ∃ n, more = n + 1 := ⟨more - 1, by omega⟩
    cases temp with
    | none => exact ran
    | some temp =>
      simp only [cregUnregisterLoop, regCall, Program.perform_bind, Program.run_call] at ran ⊢
      obtain ⟨⟨current, u⟩, read, ran⟩ := Option.bind_eq_some_iff.mp ran
      rw [read, Option.bind_some]
      by_cases found : current = fd
      · rw [if_pos found] at ran ⊢
        exact ran
      · rw [if_neg found] at ran ⊢
        obtain ⟨⟨next, v⟩, followed, ran⟩ := Option.bind_eq_some_iff.mp ran
        rw [Program.run_call, followed, Option.bind_some]
        exact ih (by omega) ran

theorem cregUnregister_more (enough : fuel ≤ more)
    (ran : (cregUnregister fd fuel).run (exec malloc) r = some ((), t)) :
    (cregUnregister fd more).run (exec malloc) r = some ((), t) := by
  simp only [cregUnregister, regCall, Program.perform_bind, Program.run_call] at ran ⊢
  obtain ⟨⟨_, u⟩, waited, ran⟩ := Option.bind_eq_some_iff.mp ran
  rw [waited, Option.bind_some]
  obtain ⟨⟨lastIndex, v⟩, read, ran⟩ := Option.bind_eq_some_iff.mp ran
  rw [read, Option.bind_some]
  by_cases one : lastIndex = 1
  · rw [if_pos one] at ran ⊢
    exact ran
  · rw [if_neg one] at ran ⊢
    obtain ⟨⟨temp, w⟩, listed, ran⟩ := Option.bind_eq_some_iff.mp ran
    rw [Program.run_call, listed, Option.bind_some]
    obtain ⟨⟨prev, w'⟩, again, ran⟩ := Option.bind_eq_some_iff.mp ran
    rw [Program.run_call, again, Option.bind_some]
    exact cregUnregisterLoop_more enough ran

theorem ClientRegistry.Intact.unregister_returns {nodes : List (Nat × Int)} (intact : r.Intact nodes) (fd : Int) :
    ∃ t, r.call malloc (.unregister fd) = some t := by
  by_cases one : nodes.length = 1
  · obtain ⟨⟨a, value⟩, rfl⟩ := List.length_eq_one_iff.mp one
    obtain ⟨t, called, _⟩ := unregister_one malloc intact fd
    exact ⟨t, called⟩
  · have several : r.Several (.unregister fd) := fun same => one (by rw [intact.counted] at same; exact_mod_cast same)
    obtain ⟨t, called, _⟩ := intact_call malloc intact several
    exact ⟨t, called⟩

/-- A whole call that returns, however long its search may be, is the call. -/
theorem call_of_wholeCall {ledger : Ledger} {c : ClientCall} (represents : Represents r ledger)
    (made : wholeCall (exec malloc) (ClientCall.program fuel) r c = some t) : r.call malloc c.whole = some t := by
  cases c with
  | register fd => exact made
  | unregister fd =>
    obtain ⟨⟨_, _⟩, ran, rfl⟩ := Option.map_eq_some_iff.mp made
    cases represents with
    | dangling dangling =>
      rw [ClientCall.program, cregUnregister_dangling malloc fd dangling fuel] at ran
      cases ran
    | intact intact =>
      obtain ⟨u, called⟩ : ∃ u, r.call malloc (.unregister fd) = some u := intact.unregister_returns fd
      obtain ⟨⟨_, _⟩, ran', rfl⟩ := Option.map_eq_some_iff.mp called
      have first := cregUnregister_more (le_max_left fuel (r.heap.keys.card + 1)) ran
      have second := cregUnregister_more (le_max_right fuel (r.heap.keys.card + 1)) ran'
      cases first.symm.trans second
      exact called

theorem represents_cregInit (heap : Heap Int) : Represents (cregInit heap) ⟨0, false⟩ :=
  .intact (show (cregInit heap).Intact [] from ⟨rfl, rfl, .nil⟩)

theorem runs_call_of_wholeCalls {calls : List ClientCall} {ledger : Ledger} (represents : Represents r ledger)
    (made : runs (wholeCall (exec malloc) (ClientCall.program fuel)) r calls = some t) :
    runs (ClientRegistry.call malloc) r (calls.map ClientCall.whole) = some t := by
  induction calls generalizing r ledger with
  | nil => exact made
  | cons c rest ih =>
    obtain ⟨u, first, made⟩ := runs_cons_iff.mp made
    have called := call_of_wholeCall represents first
    obtain ⟨ledger, kept⟩ := call_represents represents called
    exact runs_cons_iff.mpr ⟨u, called, ih kept made⟩

/-! ### Atomicity -/

section
variable [DecidableEq Thread] {calls : Thread → List ClientCall} {schedule : List Thread}
  {pool : Pool Thread RegistryOp RegistryOp.Res Unit ClientRegistry}

/-- Threads that call the registry functions, one operation at a time. -/
def clients (heap : Heap Int) (fuel : Nat) (calls : Thread → List ClientCall) :
    Pool Thread RegistryOp RegistryOp.Res Unit ClientRegistry where
  left thread := performAll (ClientCall.program fuel) (calls thread)
  shared := cregInit heap

/-- At any moment some calls have been made whole, one after another and in each thread's order. Every
thread is between two calls, or one of them is inside a call and what is left of that call does what the
whole call does after the others. -/
theorem registry_serializable (heap : Heap Int)
    (ran : runs (Pool.step (exec malloc)) (clients heap fuel calls) schedule = some pool) :
    ∃ order reached,
      runs (ClientRegistry.call malloc) (cregInit heap) (order.map fun made => made.2.whole) = some reached ∧
      Serial (registryLock malloc) (ClientCall.program fuel) calls (cregInit heap) order pool reached := by
  obtain ⟨order, reached, serial⟩ : ∃ order reached,
      Serial (registryLock malloc) (ClientCall.program fuel) calls (cregInit heap) order pool reached :=
    serial_of_runs (ClientCall.section_program fuel) rfl ran
  have represents := represents_cregInit heap
  have called := runs_call_of_wholeCalls represents serial.made.1
  rw [List.map_map] at called
  exact ⟨order, reached, called, serial⟩

/-- One thread has registered, and another is in the middle of it. -/
theorem registry_serializable_two : ∃ pool order reached,
    runs (Pool.step (exec (.beyond Int))) (clients ∅ 3 fun thread : Bool => if thread then [.register 4] else [.register 5])
      (List.replicate 9 true ++ List.replicate 5 false) = some pool ∧
    runs (ClientRegistry.call (.beyond Int)) (cregInit ∅) (order.map fun made => made.2.whole) = some reached ∧
    Serial (registryLock (.beyond Int)) (ClientCall.program 3)
      (fun thread : Bool => if thread then [.register 4] else [.register 5]) (cregInit ∅) order pool reached := by
  have returns : (runs (Pool.step (exec (.beyond Int)))
      (clients ∅ 3 fun thread : Bool => if thread then [.register 4] else [.register 5])
      (List.replicate 9 true ++ List.replicate 5 false)).isSome := by decide
  obtain ⟨pool, ran⟩ := Option.isSome_iff_exists.mp returns
  obtain ⟨order, reached, called, serial⟩ := registry_serializable ∅ ran
  exact ⟨pool, order, reached, ran, called, serial⟩

/-! ### Service threads -/

/-- What a service thread asks of the registry. -/
def serviceCalls (fd : Thread → Int) (thread : Thread) : List ClientCall :=
  [.register (fd thread), .unregister (fd thread)]

omit [DecidableEq Thread] in
theorem serviceCalls_next {fds : Thread → Int} {thread : Thread} {made : List ClientCall} {c : ClientCall}
    (next : made ++ [c] <+: serviceCalls fds thread) :
    (made = [] ∧ c = .register (fds thread)) ∨ (made = [.register (fds thread)] ∧ c = .unregister (fds thread)) := by
  obtain ⟨rest, same⟩ := next
  match made, same with
  | [], same =>
    obtain ⟨rfl, _⟩ := List.cons.inj same
    exact .inl ⟨rfl, rfl⟩
  | [first], same =>
    obtain ⟨registered, later⟩ := List.cons.inj same
    exact .inr ⟨congrArg (· :: []) registered, (List.cons.inj later).1⟩
  | first :: second :: more, same =>
    have lengths := congrArg List.length same
    simp only [serviceCalls, List.length_append, List.length_cons, List.length_nil] at lengths
    omega

/-- The registry holds the descriptors of the threads that have registered and not unregistered. -/
theorem serviceCalls_represents {heap : Heap Int} {fds : Thread → Int} {order : List (Thread × ClientCall)}
    {reached : ClientRegistry} (first : ∀ thread, callsOf thread order <+: serviceCalls fds thread)
    (made : runs (ClientRegistry.call malloc) (cregInit heap) (order.map fun made => made.2.whole) = some reached) :
    ∃ (inside : Finset Thread) (ledger : Ledger), Represents reached ledger ∧ ledger.fds = inside.val.map fds ∧
      ∀ thread, thread ∈ inside ↔ callsOf thread order = [.register (fds thread)] := by
  induction order using List.reverseRecOn generalizing reached with
  | nil =>
    cases made
    exact ⟨∅, _, represents_cregInit heap, rfl, by simp [callsOf]⟩
  | append_singleton order entry ih =>
    obtain ⟨i, c⟩ := entry
    have others : ∀ thread, callsOf thread order <+: callsOf thread (order ++ [(i, c)]) := by
      intro thread
      simp [callsOf]
    rw [List.map_append, runs_append] at made
    obtain ⟨before, made, last⟩ := Option.bind_eq_some_iff.mp made
    obtain ⟨after, called, same⟩ := runs_cons_iff.mp last
    cases same
    obtain ⟨inside, ledger, represents, holds, member⟩ := ih (fun thread => (others thread).trans (first thread)) made
    have own := first i
    rw [callsOf_self] at own
    rcases serviceCalls_next own with ⟨none, rfl⟩ | ⟨one, rfl⟩
    · have outside : i ∉ inside := by simp [member, none]
      obtain ⟨t, called', kept⟩ := represents_register malloc represents (fds i)
      obtain rfl := Option.some.inj (called.symm.trans called')
      refine ⟨insert i inside, _, kept, ?_, fun thread => ?_⟩
      · rw [Finset.insert_val_of_notMem outside, Multiset.map_cons, holds]
      · rcases eq_or_ne thread i with rfl | apart
        · simp [callsOf_self, none]
        · simp [callsOf_other apart, apart, member]
    · have enrolled : i ∈ inside := (member i).mpr one
      have careful : ledger.Careful (.unregister (fds i)) := by
        intro absent
        rw [holds] at absent
        exact absurd (Multiset.mem_map_of_mem fds enrolled) absent
      obtain ⟨t, called', kept⟩ := represents_unregister malloc represents careful
      obtain rfl := Option.some.inj (called.symm.trans called')
      refine ⟨inside.erase i, _, kept, ?_, fun thread => ?_⟩
      · rw [Finset.erase_val, Multiset.map_erase_of_mem _ _ enrolled, holds]
      · rcases eq_or_ne thread i with rfl | apart
        · simp [callsOf_self, one]
        · simp [callsOf_other apart, apart, member]

/-- The search ends within the nodes that are in the list. -/
theorem wholeCall_unregister {nodes : List (Nat × Int)} (intact : r.Intact nodes) (enough : nodes.length < fuel)
    (fd : Int) : (wholeCall (exec malloc) (ClientCall.program fuel) r (.unregister fd)).isSome := by
  rw [wholeCall, Option.isSome_map, ClientCall.program]
  by_cases one : nodes.length = 1
  · obtain ⟨⟨a, value⟩, rfl⟩ := List.length_eq_one_iff.mp one
    obtain ⟨head, next, stored, _, _⟩ := intact.chain.head
    rw [cregUnregister_one malloc fd fuel intact.unlocked intact.counted head (Finmap.mem_of_lookup_eq_some stored)]
    rfl
  · have several : r.numOfClients ≠ 1 := by
      rw [intact.counted]
      exact_mod_cast one
    rw [cregUnregister_several malloc fd fuel intact.unlocked several]
    by_cases present : fd ∈ nodes.map Prod.snd
    · obtain ⟨before, a, after, rfl, first⟩ := exists_first fd present
      have short : before.length < fuel := by
        rw [List.length_append] at enough
        omega
      have start : Passed [] r.registeredFds := fun _ _ _ same => by simp at same
      obtain ⟨heap, fds, _, ran⟩ := cregUnregisterLoop_first malloc fd (r := { r with mutex := 0 })
        intact.chain intact.chain start first short (show (0 : Int) ≠ r.numOfClients - 1 by omega)
      rw [ran]
      rfl
    · rw [cregUnregisterLoop_absent malloc fd (r := { r with mutex := 0 }) intact.chain present enough]
      rfl

theorem service_returns [Fintype Thread] {heap : Heap Int} {fds : Thread → Int} {order : List (Thread × ClientCall)}
    {reached : ClientRegistry} (enough : Fintype.card Thread < fuel)
    (first : ∀ thread, callsOf thread order <+: serviceCalls fds thread)
    (made : runs (ClientRegistry.call malloc) (cregInit heap) (order.map fun made => made.2.whole) = some reached)
    {thread : Thread} {c : ClientCall} (next : callsOf thread order ++ [c] <+: serviceCalls fds thread) :
    (wholeCall (exec malloc) (ClientCall.program fuel) reached c).isSome := by
  obtain ⟨inside, ledger, represents, holds, member⟩ := serviceCalls_represents first made
  rcases serviceCalls_next next with ⟨_, rfl⟩ | ⟨one, rfl⟩
  · obtain ⟨t, called, _⟩ := represents_register malloc represents (fds thread)
    exact Option.isSome_iff_exists.mpr ⟨t, called⟩
  · cases represents with
    | @intact nodes intact =>
      have lengths := congrArg Multiset.card holds
      rw [Multiset.coe_card, List.length_map, Multiset.card_map, Finset.card_val] at lengths
      exact wholeCall_unregister intact ((lengths.trans_le (Finset.card_le_univ inside)).trans_lt enough) (fds thread)
    | dangling dangling =>
      have enrolled := Multiset.mem_map_of_mem fds ((member thread).mpr one)
      rw [← holds] at enrolled
      cases enrolled

/-- Service threads in any interleaving of their operations on the registry never get stuck there, and
whenever no thread is inside a function the registry holds the descriptors of exactly those threads that
have registered and not unregistered. -/
theorem service_threads_registered [Fintype Thread] (heap : Heap Int) (fds : Thread → Int)
    (enough : Fintype.card Thread < fuel)
    (ran : runs (Pool.step (exec malloc)) (clients heap fuel (serviceCalls fds)) schedule = some pool) :
    (pool.Finished ∨ ∃ thread, (pool.step (exec malloc) thread).isSome) ∧
    (pool.shared.mutex ≠ 0 → ∃ inside : Finset Thread, pool.shared.Refines malloc (inside.val.map fds) ∧
      ∀ thread, if thread ∈ inside then pool.left thread = performAll (ClientCall.program fuel) [.unregister (fds thread)]
        else pool.left thread = performAll (ClientCall.program fuel) (serviceCalls fds thread) ∨
          pool.left thread = .done ()) := by
  obtain ⟨order, reached, made, serial⟩ := registry_serializable heap ran
  have first := serial.made.2
  constructor
  · refine serial.progress (ClientCall.section_program fuel) ?_ fun thread c next => service_returns enough first made next
    intro op s taken free
    cases op with
    | wait semaphore =>
      cases semaphore with
      | mutex =>
        have positive : 0 < s.mutex := free
        simp [exec, positive]
      | mutexE => cases taken
    | post semaphore => cases semaphore <;> cases taken
    | _ => cases taken
  · intro unlocked
    cases serial with
    | inside taken => exact absurd taken unlocked
    | @between rest _ _ left split =>
      obtain ⟨inside, ledger, represents, holds, member⟩ := serviceCalls_represents first made
      refine ⟨inside, holds ▸ refines_of_represents malloc represents, fun thread => ?_⟩
      by_cases enrolled : thread ∈ inside
      · rw [if_pos enrolled, left thread]
        have all := split thread
        rw [(member thread).mp enrolled, serviceCalls, List.singleton_append] at all
        rw [← (List.cons.inj all).2]
      · rw [if_neg enrolled, left thread]
        have all := split thread
        cases remaining : rest thread with
        | nil => exact .inr rfl
        | cons c later =>
          have next : callsOf thread order ++ [c] <+: serviceCalls fds thread :=
            ⟨later, by rw [all, remaining, List.append_assoc]; rfl⟩
          rcases serviceCalls_next next with ⟨none, _⟩ | ⟨one, _⟩
          · rw [none, List.nil_append, remaining] at all
            exact .inl (by rw [all])
          · exact absurd ((member thread).mpr one) enrolled

/-- Two clients, one after the other. -/
theorem service_threads_registered_two : ∃ pool,
    runs (Pool.step (exec (.beyond Int))) (clients ∅ 3 (serviceCalls fun thread : Bool => if thread then 4 else 5))
      (List.replicate 9 true ++ List.replicate 10 false) = some pool ∧
    (∃ thread, (pool.step (exec (.beyond Int)) thread).isSome) ∧
    ∃ inside : Finset Bool, pool.shared.Refines (.beyond Int) (inside.val.map fun thread => if thread then 4 else 5) := by
  have counts : (runs (Pool.step (exec (.beyond Int)))
      (clients ∅ 3 (serviceCalls fun thread : Bool => if thread then 4 else 5))
      (List.replicate 9 true ++ List.replicate 10 false)).map (fun pool => (pool.shared.numOfClients, pool.shared.mutex)) =
        some (2, 1) := by decide
  obtain ⟨pool, ran, fields⟩ := Option.map_eq_some_iff.mp counts
  obtain ⟨clients, unlocked⟩ := Prod.mk.inj fields
  obtain ⟨goes, holds⟩ := service_threads_registered ∅ (fun thread : Bool => if thread then 4 else 5) (by decide) ran
  obtain ⟨inside, refines, left⟩ := holds (by rw [unlocked]; decide)
  refine ⟨pool, ran, goes.resolve_left fun finished => ?_, inside, refines⟩
  -- Both are registered, so neither has finished.
  have count := refines.1
  rw [clients, Multiset.card_map, Finset.card_val] at count
  have all : inside = Finset.univ := Finset.card_eq_iff_eq_univ inside |>.mp (by exact_mod_cast count.symm)
  obtain ⟨_, ended⟩ := finished true
  have remaining := left true
  rw [if_pos (by rw [all]; exact Finset.mem_univ true), ended] at remaining
  cases remaining

end

end MazeWar
