import MazeWar.Registry.Waiting

/-!
# The blocks of the registry

Registering allocates a node and unregistering frees one. `creg_shutdown_all` drops the list without freeing
it, so the nodes of the clients that are registered at a shutdown, and no others, are never freed.
-/

namespace MazeWar
open Foundation ClientRegistry
variable {malloc : Allocator Int} {r t : ClientRegistry} {fd : Int}

/-! ### The number of blocks -/

/-- The blocks that no client accounts for. -/
def ClientRegistry.surplus (r : ClientRegistry) : Int := r.heap.keys.card - r.numOfClients

theorem card_insert_live {heap : Heap Int} {a : Nat} (live : a ∈ heap) (node : Fd) :
    (heap.insert a node).keys.card = heap.keys.card := by
  have same : (heap.insert a node).keys = heap.keys := by
    ext b
    rw [Finmap.mem_keys, Finmap.mem_insert, Finmap.mem_keys]
    exact or_iff_right_of_imp fun here => here ▸ live
  rw [same]

theorem card_insert_new {heap : Heap Int} {a : Nat} (new : a ∉ heap) (node : Fd) :
    (heap.insert a node).keys.card = heap.keys.card + 1 := by
  have added : (heap.insert a node).keys = insert a heap.keys := by
    ext b
    rw [Finmap.mem_keys, Finmap.mem_insert, Finset.mem_insert, Finmap.mem_keys]
  rw [added, Finset.card_insert_of_notMem (Finmap.mem_keys.not.mpr new)]

theorem card_erase_live {heap : Heap Int} {a : Nat} (live : a ∈ heap) :
    (heap.erase a).keys.card + 1 = heap.keys.card := by
  have less : (heap.erase a).keys = heap.keys.erase a := by
    ext b
    rw [Finmap.mem_keys, Finmap.mem_erase, Finset.mem_erase, Finmap.mem_keys]
  rw [less, Finset.card_erase_add_one (Finmap.mem_keys.mpr live)]

theorem ClientRegistry.update_surplus {pointer : Option Nat} {change : Fd → Fd}
    (updated : r.update pointer change = some t) : t.surplus = r.surplus := by
  simp only [ClientRegistry.update, Option.bind_eq_bind, Option.bind_eq_some_iff, Option.pure_def, Option.some.injEq]
    at updated
  obtain ⟨a, rfl, node, stored, rfl⟩ := updated
  have kept := card_insert_live (Finmap.mem_of_lookup_eq_some stored) (change node)
  simp only [surplus, kept]

/-! ### Unregistering -/

/-- What the search does when it has unlinked the node. -/
def dropNode (a : Nat) : RegistryProgram Unit := do
  regCall (.free (some a))
  regCall (.setNumOfClients ((← regCall .getNumOfClients) - 1))
  regCall (.post .mutex)

theorem dropNode_surplus {a : Nat} (ran : (dropNode a).run (exec malloc) r = some ((), t)) : t.surplus = r.surplus := by
  by_cases live : a ∈ r.heap
  · simp only [dropNode, regCall, Program.perform_bind, Program.run_call, Program.run_perform, exec, if_pos live,
      Option.bind_some, Option.some.injEq, Prod.mk.injEq, true_and] at ran
    subst ran
    have fewer := card_erase_live live
    simp only [surplus]
    omega
  · simp [dropNode, regCall, Program.run_call, exec, live] at ran

/-- What the search does at the node it was looking for. -/
def unlinkNode (lastIndex i : Int) (a : Nat) (prev : Option Nat) : RegistryProgram Unit := do
  if some a = (← regCall .getRegisteredFds) then
    regCall (.setRegisteredFds (← regCall (.getNext (some a))))
  else if i = lastIndex - 1 then
    regCall (.setNext prev none)
  else
    regCall (.setNext prev (← regCall (.getNext (some a))))
  dropNode a

theorem unlink_surplus {lastIndex i : Int} {a : Nat} {prev : Option Nat}
    (ran : (unlinkNode lastIndex i a prev).run (exec malloc) r = some ((), t)) : t.surplus = r.surplus := by
  simp only [unlinkNode, regCall, Program.perform_bind, Program.run_call, exec, Option.bind_some] at ran
  split_ifs at ran with first last
  · simp only [Program.run_call, exec, Option.bind_some] at ran
    obtain ⟨⟨next, s⟩, read, ran⟩ := Option.bind_eq_some_iff.mp ran
    obtain ⟨_, _, same⟩ := Option.map_eq_some_iff.mp read
    cases same
    exact (dropNode_surplus ran : t.surplus = surplus { r with registeredFds := _ })
  · simp only [Program.run_call, exec] at ran
    obtain ⟨⟨_, s⟩, written, ran⟩ := Option.bind_eq_some_iff.mp ran
    obtain ⟨_, updated, same⟩ := Option.map_eq_some_iff.mp written
    cases same
    exact (dropNode_surplus ran).trans (update_surplus updated)
  · simp only [Program.run_call, exec] at ran
    obtain ⟨⟨next, s⟩, read, ran⟩ := Option.bind_eq_some_iff.mp ran
    obtain ⟨_, _, same⟩ := Option.map_eq_some_iff.mp read
    cases same
    obtain ⟨⟨_, s⟩, written, ran⟩ := Option.bind_eq_some_iff.mp ran
    obtain ⟨_, updated, same⟩ := Option.map_eq_some_iff.mp written
    cases same
    exact (dropNode_surplus ran).trans (update_surplus updated)

theorem cregUnregisterLoop_surplus {lastIndex i : Int} {fuel : Nat} {temp prev : Option Nat}
    (ran : (cregUnregisterLoop fd lastIndex i fuel temp prev).run (exec malloc) r = some ((), t)) :
    t.surplus = r.surplus := by
  induction fuel generalizing temp prev with
  | zero =>
    cases temp with
    | none =>
      cases ran
      rfl
    | some a => cases ran
  | succ fuel ih =>
    cases temp with
    | none =>
      cases ran
      rfl
    | some a =>
      simp only [cregUnregisterLoop, regCall, Program.perform_bind, Program.run_call] at ran
      obtain ⟨⟨value, s⟩, read, ran⟩ := Option.bind_eq_some_iff.mp ran
      obtain ⟨node, _, same⟩ := Option.map_eq_some_iff.mp read
      cases same
      by_cases found : node.value = fd
      · rw [if_pos found] at ran
        exact unlink_surplus ran
      · rw [if_neg found] at ran
        obtain ⟨⟨next, s⟩, read, ran⟩ := Option.bind_eq_some_iff.mp ran
        obtain ⟨_, _, same⟩ := Option.map_eq_some_iff.mp read
        cases same
        exact ih ran

/-! ### Calls -/

/-- The nodes that a call drops from the list without freeing them. -/
def RegistryCall.drops (r : ClientRegistry) : RegistryCall → Int
  | .shutdownAll => r.numOfClients
  | .register _ | .unregister _ => 0

theorem unregister_surplus {ledger : Ledger} (represents : Represents r ledger)
    (called : r.call malloc (.unregister fd) = some t) : t.surplus = r.surplus := by
  cases represents with
  | dangling dangling =>
    rw [unregister_dangling malloc dangling] at called
    cases called
  | @intact nodes intact =>
    by_cases one : r.numOfClients = 1
    · have single : nodes.length = 1 := by exact_mod_cast intact.counted.symm.trans one
      obtain ⟨⟨a, value⟩, rfl⟩ := List.length_eq_one_iff.mp single
      obtain ⟨head, next, stored, _, _⟩ := intact.chain.head
      have live := Finmap.mem_of_lookup_eq_some stored
      obtain rfl := eq_of_run called (cregUnregister_one malloc fd _ intact.unlocked one head live)
      have fewer := card_erase_live live
      simp only [surplus]
      omega
    · obtain ⟨⟨_, u⟩, ran, rfl⟩ := Option.map_eq_some_iff.mp called
      have searched := (cregUnregister_several malloc fd _ intact.unlocked one).symm.trans ran
      exact (cregUnregisterLoop_surplus searched : u.surplus = surplus { r with mutex := 0 })

theorem call_surplus {ledger : Ledger} (represents : Represents r ledger) {call : RegistryCall}
    (called : r.call malloc call = some t) : t.surplus = r.surplus + call.drops r := by
  cases call with
  | register fd =>
    have unlocked : r.mutex = 1 := by
      cases represents with
      | intact intact => exact intact.unlocked
      | dangling dangling => exact dangling.unlocked
    obtain rfl := eq_of_run called (cregRegister_run malloc fd unlocked)
    have more := card_insert_new (malloc.fresh r.heap) ⟨fd, if r.numOfClients = 0 then none else r.registeredFds⟩
    simp only [surplus, RegistryCall.drops]
    omega
  | unregister fd => rw [unregister_surplus represents called, RegistryCall.drops, add_zero]
  | shutdownAll =>
    cases represents with
    | intact intact =>
      obtain rfl := eq_of_run called (cregShutdownAll_intact malloc intact)
      simp only [surplus, RegistryCall.drops]
      omega
    | dangling dangling =>
      obtain rfl := eq_of_run called (cregShutdownAll_dangling malloc dangling)
      simp only [surplus, RegistryCall.drops]
      omega

/-! ### Runs -/

namespace Ledger

/-- What the code makes of a call: with one client left, unregistering takes that one out, whatever the
descriptor, and after that the list refers to a node that has been freed. -/
def account (ledger : Ledger) : RegistryCall → Option Ledger
  | .register fd => some ⟨fd ::ₘ ledger.fds, false⟩
  | .shutdownAll => some ⟨0, false⟩
  | .unregister fd =>
    if ledger.emptied then none
    else if ledger.fds.card = 1 then some ⟨0, true⟩
    else some ⟨ledger.fds.erase fd, false⟩

/-- The nodes that the shutdowns among the calls drop. -/
def dropped : Ledger → List RegistryCall → Nat
  | _, [] => 0
  | ledger, call :: rest =>
    (if call = .shutdownAll then ledger.fds.card else 0) + ((ledger.account call).map (·.dropped rest)).getD 0

end Ledger

theorem represents_count {ledger : Ledger} (represents : Represents r ledger) : r.numOfClients = ledger.fds.card := by
  cases represents with
  | intact intact => simp [intact.counted]
  | dangling dangling => simp [dangling.empty]

theorem account_call {ledger : Ledger} (malloc : Allocator Int) (represents : Represents r ledger) (call : RegistryCall) :
    (∃ next t, ledger.account call = some next ∧ r.call malloc call = some t ∧ Represents t next) ∨
    (ledger.account call = none ∧ r.call malloc call = none ∧ r.Dangling ∧ ∃ fd, call = .unregister fd) := by
  cases call with
  | register fd =>
    obtain ⟨t, called, kept⟩ := represents_register malloc represents fd
    exact .inl ⟨_, t, rfl, called, kept⟩
  | shutdownAll =>
    obtain ⟨t, called, kept⟩ := represents_shutdownAll malloc represents
    exact .inl ⟨_, t, rfl, called, kept⟩
  | unregister fd =>
    cases represents with
    | dangling dangling => exact .inr ⟨rfl, unregister_dangling malloc dangling, dangling, fd, rfl⟩
    | @intact nodes intact =>
      by_cases one : nodes.length = 1
      · obtain ⟨⟨a, value⟩, rfl⟩ := List.length_eq_one_iff.mp one
        obtain ⟨t, called, dangling⟩ := unregister_one malloc intact fd
        exact .inl ⟨_, t, rfl, called, .dangling dangling⟩
      · have careful : Ledger.Careful ⟨(nodes.map Prod.snd : List Int), false⟩ (.unregister fd) :=
          fun _ => ⟨by simpa using one, rfl⟩
        obtain ⟨t, called, kept⟩ := represents_unregister malloc (.intact intact) careful
        have others : ((nodes.map Prod.snd : List Int) : Multiset Int).card ≠ 1 := by simpa using one
        have still : Ledger.emptiedBy ⟨(nodes.map Prod.snd : List Int), false⟩ (.unregister fd) = false :=
          if_neg fun last => others last.2
        rw [still] at kept
        refine .inl ⟨_, t, ?_, called, kept⟩
        rw [Ledger.account, if_neg Bool.false_ne_true, if_neg others]

theorem drops_ledger {ledger : Ledger} (represents : Represents r ledger) (call : RegistryCall) :
    call.drops r = ((if call = .shutdownAll then ledger.fds.card else 0 : Nat) : Int) := by
  cases call with
  | shutdownAll => exact represents_count represents
  | register fd | unregister fd => rfl

/-- A run of calls has the state that the ledger says, or comes to a call that reads a freed node. -/
theorem runs_account {ledger : Ledger} (malloc : Allocator Int) (represents : Represents r ledger)
    (calls : List RegistryCall) :
    (∃ last t, runs Ledger.account ledger calls = some last ∧ runs (ClientRegistry.call malloc) r calls = some t ∧
      Represents t last ∧ t.surplus = r.surplus + ledger.dropped calls) ∨
    (runs Ledger.account ledger calls = none ∧ runs (ClientRegistry.call malloc) r calls = none ∧
      ∃ before fd after reached, calls = before ++ .unregister fd :: after ∧
        runs (ClientRegistry.call malloc) r before = some reached ∧ reached.Dangling) := by
  induction calls generalizing r ledger with
  | nil => exact .inl ⟨ledger, r, rfl, rfl, represents, (add_zero _).symm⟩
  | cons call rest ih =>
    rcases account_call malloc represents call with ⟨next, t, counted, called, kept⟩ | ⟨counted, called, dangling, fd, rfl⟩
    · have here := call_surplus represents called
      rw [drops_ledger represents] at here
      rw [runs, runs, counted, called, Option.bind_some, Option.bind_some]
      rcases ih kept with ⟨last, u, counts, ran, holds, balance⟩ | ⟨counts, ran, before, fd, after, reached, rfl, ran_before, dangling⟩
      · refine .inl ⟨last, u, counts, ran, holds, ?_⟩
        rw [balance, here, Ledger.dropped, counted]
        push_cast
        rw [add_assoc]
        rfl
      · refine .inr ⟨counts, ran, call :: before, fd, after, reached, rfl, ?_, dangling⟩
        exact runs_cons_iff.mpr ⟨t, called, ran_before⟩
    · refine .inr ⟨?_, ?_, [], fd, rest, r, rfl, rfl, dangling⟩
      · rw [runs, counted, Option.bind_none]
      · rw [runs, called, Option.bind_none]

/-- After any calls the heap has as many blocks more than at first as clients are registered and as the
shutdowns have dropped, unless one of them unregisters when the last client has been taken out and the
list refers to its freed node: that call reads the node. -/
theorem registry_blocks (malloc : Allocator Int) (heap : Heap Int) (calls : List RegistryCall) :
    (∃ last t, runs Ledger.account ⟨0, false⟩ calls = some last ∧
      runs (ClientRegistry.call malloc) (cregInit heap) calls = some t ∧ t.numOfClients = last.fds.card ∧
      (t.heap.keys.card : Int) = heap.keys.card + t.numOfClients + Ledger.dropped ⟨0, false⟩ calls) ∨
    (runs Ledger.account ⟨0, false⟩ calls = none ∧
      runs (ClientRegistry.call malloc) (cregInit heap) calls = none ∧
      ∃ before fd after reached, calls = before ++ .unregister fd :: after ∧
        runs (ClientRegistry.call malloc) (cregInit heap) before = some reached ∧ reached.Dangling) := by
  have start : Represents (cregInit heap) ⟨0, false⟩ := .intact (show (cregInit heap).Intact [] from ⟨rfl, rfl, .nil⟩)
  rcases runs_account malloc start calls with ⟨last, t, counted, ran, represents, balance⟩ | stuck
  · refine .inl ⟨last, t, counted, ran, represents_count represents, ?_⟩
    simp only [surplus, cregInit] at balance
    omega
  · exact .inr stuck

/-- A client that is registered at the shutdown leaves its node, the one that has unregistered does not. -/
theorem registry_blocks_shutdown : ∃ t,
    runs (ClientRegistry.call (.beyond Int)) (cregInit ∅) [.register 4, .register 5, .unregister 4, .shutdownAll] = some t ∧
      t.heap.keys.card = 1 := by
  have returns : (runs (ClientRegistry.call (.beyond Int)) (cregInit ∅)
      [.register 4, .register 5, .unregister 4, .shutdownAll]).isSome := by decide
  have left : (runs (ClientRegistry.call (.beyond Int)) (cregInit ∅)
      [.register 4, .register 5, .unregister 4, .shutdownAll]).map (·.numOfClients) = some 0 := by decide
  have lost : Ledger.dropped ⟨0, false⟩ [.register 4, .register 5, .unregister 4, .shutdownAll] = 1 := by decide
  rcases registry_blocks (.beyond Int) ∅ [.register 4, .register 5, .unregister 4, .shutdownAll] with
    ⟨last, t, _, ran, _, blocks⟩ | ⟨_, stuck, _⟩
  · rw [ran, Option.map_some, Option.some_inj] at left
    rw [left, lost] at blocks
    exact ⟨t, ran, by exact_mod_cast blocks⟩
  · rw [stuck] at returns
    cases returns

end MazeWar
