import MazeWar.Registry.Model

/-!
# What the registry functions do

One specification for each function, on a registry whose list is intact.
-/

namespace MazeWar
open Foundation

namespace ClientRegistry
variable (malloc : Allocator Int) {r : ClientRegistry} {fd : Int} {a : Nat} {node : Fd}

theorem read_some (stored : r.heap.lookup a = some node) : r.read (some a) = some node := by
  simp [read, stored]

theorem update_some (stored : r.heap.lookup a = some node) (change : Fd → Fd) :
    r.update (some a) change = some { r with heap := r.heap.insert a (change node) } := by
  simp [update, stored]

theorem update_heap {r r' : ClientRegistry} {fd : Option Nat} {change : Fd → Fd}
    (updated : r.update fd change = some r') : ∃ heap, r' = { r with heap } := by
  simp only [ClientRegistry.update, Option.bind_eq_bind, Option.bind_eq_some_iff] at updated
  obtain ⟨address, _, node, _, same⟩ := updated
  exact ⟨_, (Option.some.inj same).symm⟩

/-- The semaphore is free and the list is intact. -/
structure Intact (r : ClientRegistry) (nodes : List (Nat × Int)) : Prop where
  unlocked : r.mutex = 1
  counted : r.numOfClients = nodes.length
  chain : Chain r.heap r.registeredFds nodes

/-- The semaphore is free and the registry is empty, but its list is a block that was freed. -/
structure Dangling (r : ClientRegistry) : Prop where
  unlocked : r.mutex = 1
  empty : r.numOfClients = 0
  freed : ∃ a, r.registeredFds = some a ∧ a ∉ r.heap

end ClientRegistry

open ClientRegistry

section Functions
variable (malloc : Allocator Int) {r : ClientRegistry} {nodes : List (Nat × Int)} {a : Nat} (fd : Int)

/-- Registering puts a new node before the list, or in its place when the count is zero. -/
theorem cregRegister_run (unlocked : r.mutex = 1) :
    (cregRegister fd).run (exec malloc) r = some ((), { r with
      numOfClients := r.numOfClients + 1
      registeredFds := some (malloc.choose r.heap)
      heap := r.heap.insert (malloc.choose r.heap) ⟨fd, if r.numOfClients = 0 then none else r.registeredFds⟩ }) := by
  by_cases empty : r.numOfClients = 0 <;>
    simp [cregRegister, regCall, Program.run_call, Program.run_perform, exec, unlocked, empty, update, Finmap.insert_insert]

theorem cregRegister_intact (intact : r.Intact nodes) :
    ∃ a t, (cregRegister fd).run (exec malloc) r = some ((), t) ∧ t.Intact ((a, fd) :: nodes) := by
  have tail : (if r.numOfClients = 0 then none else r.registeredFds) = r.registeredFds := by
    split_ifs with empty
    · have none : nodes = [] := by
        rw [intact.counted] at empty
        exact List.length_eq_zero_iff.mp (by exact_mod_cast empty)
      rw [intact.chain.pointer, none]
      rfl
    · rfl
  refine ⟨malloc.choose r.heap, _, cregRegister_run malloc fd intact.unlocked, ?_⟩
  rw [tail]
  exact ⟨intact.unlocked, by simp [intact.counted], intact.chain.push (malloc.fresh r.heap)⟩

theorem cregRegister_dangling (dangling : r.Dangling) :
    ∃ a t, (cregRegister fd).run (exec malloc) r = some ((), t) ∧ t.Intact [(a, fd)] := by
  refine ⟨malloc.choose r.heap, _, cregRegister_run malloc fd dangling.unlocked, ?_⟩
  rw [if_pos dangling.empty]
  exact ⟨dangling.unlocked, by simp [dangling.empty], Chain.nil.push (malloc.fresh r.heap)⟩

/-- With one client the node at the head is freed, whatever the descriptor. -/
theorem cregUnregister_one (fuel : Nat) (unlocked : r.mutex = 1) (one : r.numOfClients = 1)
    (head : r.registeredFds = some a) (live : a ∈ r.heap) :
    (cregUnregister fd fuel).run (exec malloc) r =
      some ((), { r with numOfClients := 0, heap := r.heap.erase a }) := by
  simp [cregUnregister, regCall, Program.run_call, Program.run_perform, exec, unlocked, one, head, live]

theorem cregUnregisterLoop_absent {lastIndex i : Int} {temp prev : Option Nat} {fuel : Nat}
    (chain : Chain r.heap temp nodes) (absent : fd ∉ nodes.map Prod.snd) (enough : nodes.length < fuel) :
    (cregUnregisterLoop fd lastIndex i fuel temp prev).run (exec malloc) r =
      some ((), { r with mutex := r.mutex + 1 }) := by
  induction chain generalizing fuel prev with
  | nil =>
    cases fuel <;> simp [cregUnregisterLoop, regCall, Program.run_perform, exec]
  | @cons a v next rest stored apart tail ih =>
    simp only [List.map_cons, List.mem_cons, not_or] at absent
    obtain ⟨fuel, rfl⟩ : ∃ n, fuel = n + 1 := ⟨fuel - 1, by simp at enough; omega⟩
    have others : v ≠ fd := Ne.symm absent.1
    have later := @ih (some a) fuel absent.2 (by simpa using enough)
    simpa [cregUnregisterLoop, regCall, Program.run_call, exec, read_some stored, others] using later

/-- The last of the nodes passed is the one before the search. -/
def Passed (before : List (Nat × Int)) (prev : Option Nat) : Prop :=
  ∀ earlier a v, before = earlier ++ [(a, v)] → prev = some a

/-- The search unlinks and frees the first node with the descriptor. -/
theorem cregUnregisterLoop_first {before skipped after : List (Nat × Int)} {lastIndex i : Int} {temp prev : Option Nat}
    {fuel : Nat} (whole : Chain r.heap r.registeredFds (before ++ (skipped ++ (a, fd) :: after)))
    (chain : Chain r.heap temp (skipped ++ (a, fd) :: after)) (passed : Passed before prev)
    (first : fd ∉ skipped.map Prod.snd) (enough : skipped.length < fuel) (several : i ≠ lastIndex - 1) :
    ∃ heap fds, Chain heap fds (before ++ (skipped ++ after)) ∧
      (cregUnregisterLoop fd lastIndex i fuel temp prev).run (exec malloc) r = some ((), { r with
        numOfClients := r.numOfClients - 1, registeredFds := fds, heap := heap, mutex := r.mutex + 1 }) := by
  induction skipped generalizing before temp prev fuel with
  | nil =>
    obtain ⟨fuel, rfl⟩ : ∃ n, fuel = n + 1 := ⟨fuel - 1, by simp at enough; omega⟩
    rw [List.nil_append] at whole chain ⊢
    obtain ⟨rfl, next, stored, apart, tail⟩ := chain.head
    rcases List.eq_nil_or_concat' before with rfl | ⟨earlier, ⟨b, v⟩, rfl⟩
    · obtain ⟨head, _⟩ := whole.head
      have live : a ∈ r.heap := Finmap.mem_of_lookup_eq_some stored
      refine ⟨r.heap.erase a, next, tail.erase_other apart, ?_⟩
      simp [cregUnregisterLoop, regCall, Program.run_call, Program.run_perform, exec, read_some stored, head, live]
    · obtain rfl := passed earlier b v rfl
      rw [List.append_assoc, List.singleton_append] at whole
      obtain ⟨following, here⟩ := whole.stored (a := b) (v := v) (by simp)
      have head : r.registeredFds ≠ some a := by
        rw [whole.pointer]
        have distinct := whole.nodup
        cases earlier with
        | nil => simp_all
        | cons first earlier => simp_all
      have live : a ∈ r.heap.insert b ⟨v, next⟩ := Finmap.mem_insert.mpr (.inr (Finmap.mem_of_lookup_eq_some stored))
      refine ⟨(r.heap.insert b ⟨v, next⟩).erase a, r.registeredFds, ?_, ?_⟩
      · simpa using whole.unlink_behind stored
      · simp [cregUnregisterLoop, regCall, Program.run_call, Program.run_perform, exec, read_some stored,
          update_some here, Ne.symm head, several, live]
  | cons node skipped ih =>
    obtain ⟨b, w⟩ := node
    obtain ⟨fuel, rfl⟩ : ∃ n, fuel = n + 1 := ⟨fuel - 1, by simp at enough; omega⟩
    rw [List.map_cons, List.mem_cons, not_or] at first
    obtain ⟨rfl, next, stored, apart, tail⟩ := chain.head
    have searched : Passed (before ++ [(b, w)]) (some b) := by
      intro earlier a v same
      obtain ⟨_, last⟩ := List.append_inj' same rfl
      simp_all
    obtain ⟨heap, fds, chained, ran⟩ := ih (by simpa using whole) tail
      searched first.2 (by simpa using enough)
    refine ⟨heap, fds, by simpa using chained, ?_⟩
    have other : w ≠ fd := Ne.symm first.1
    simpa [cregUnregisterLoop, regCall, Program.run_call, exec, read_some stored, other] using ran

theorem cregUnregister_several (fuel : Nat) (unlocked : r.mutex = 1) (several : r.numOfClients ≠ 1) :
    (cregUnregister fd fuel).run (exec malloc) r =
      (cregUnregisterLoop fd r.numOfClients 0 fuel r.registeredFds r.registeredFds).run (exec malloc)
        { r with mutex := 0 } := by
  simp [cregUnregister, regCall, Program.run_call, exec, unlocked, several]

theorem cregUnregister_absent (intact : r.Intact nodes) (several : nodes.length ≠ 1)
    (absent : fd ∉ nodes.map Prod.snd) :
    (cregUnregister fd (r.heap.keys.card + 1)).run (exec malloc) r = some ((), r) := by
  have count : r.numOfClients ≠ 1 := by rw [intact.counted]; omega
  have unlocked := intact.unlocked
  rw [cregUnregister_several malloc fd _ unlocked count,
    cregUnregisterLoop_absent malloc fd (r := { r with mutex := 0 }) intact.chain absent
      (Nat.lt_succ_of_le intact.chain.length_le)]
  simp [← unlocked]

/-- Unregistering takes out the first node with the descriptor and leaves the others where they are. -/
theorem cregUnregister_first {before after : List (Nat × Int)} (intact : r.Intact (before ++ (a, fd) :: after))
    (first : fd ∉ before.map Prod.snd) (several : before ++ after ≠ []) :
    ∃ t, (cregUnregister fd (r.heap.keys.card + 1)).run (exec malloc) r = some ((), t) ∧
      t.Intact (before ++ after) ∧ t.closed = r.closed := by
  have some := List.length_pos_iff.mpr several
  have counted := intact.counted
  simp only [List.length_append, List.length_cons] at some counted
  have count : r.numOfClients ≠ 1 := by omega
  have middle : (0 : Int) ≠ r.numOfClients - 1 := by omega
  have bound := intact.chain.length_le
  simp only [List.length_append, List.length_cons] at bound
  have enough : before.length < r.heap.keys.card + 1 := by omega
  have passed : Passed [] r.registeredFds := by simp [Passed]
  obtain ⟨heap, fds, chain, ran⟩ := cregUnregisterLoop_first malloc fd (r := { r with mutex := 0 })
    intact.chain intact.chain passed first enough middle
  refine ⟨_, (cregUnregister_several malloc fd _ intact.unlocked count).trans ran, ⟨rfl, ?_, chain⟩, rfl⟩
  simp only [List.length_append]
  omega

theorem exists_first {nodes : List (Nat × Int)} (present : fd ∈ nodes.map Prod.snd) :
    ∃ before a after, nodes = before ++ (a, fd) :: after ∧ fd ∉ before.map Prod.snd := by
  induction nodes with
  | nil => simp at present
  | cons node rest ih =>
    obtain ⟨a, v⟩ := node
    by_cases here : v = fd
    · exact ⟨[], a, rest, by rw [here]; rfl, by simp⟩
    · have later : fd ∈ rest.map Prod.snd := by simpa [Ne.symm here] using present
      obtain ⟨before, b, after, rfl, first⟩ := ih later
      exact ⟨(a, v) :: before, b, after, rfl, by simpa [Ne.symm here] using first⟩

theorem cregUnregister_present (intact : r.Intact nodes) (several : nodes.length ≠ 1)
    (present : fd ∈ nodes.map Prod.snd) :
    ∃ left t, (cregUnregister fd (r.heap.keys.card + 1)).run (exec malloc) r = some ((), t) ∧ t.Intact left ∧
      left.map Prod.snd = (nodes.map Prod.snd).erase fd := by
  obtain ⟨before, a, after, rfl, first⟩ := exists_first fd present
  have others : before ++ after ≠ [] := by
    intro none
    obtain ⟨rfl, rfl⟩ := List.append_eq_nil_iff.mp none
    exact several rfl
  obtain ⟨t, ran, left, _⟩ := cregUnregister_first malloc fd intact first others
  refine ⟨before ++ after, t, ran, left, ?_⟩
  rw [List.map_append, List.map_append, List.map_cons, List.erase_append_right _ first, List.erase_cons_head]

/-- On a dangling registry the search reads a node that was freed. -/
theorem cregUnregister_dangling (dangling : r.Dangling) (fuel : Nat) :
    (cregUnregister fd fuel).run (exec malloc) r = none := by
  obtain ⟨a, head, freed⟩ := dangling.freed
  rw [cregUnregister_several malloc fd _ dangling.unlocked (by rw [dangling.empty]; decide), head]
  cases fuel with
  | zero => simp [cregUnregisterLoop, regCall, Program.run_perform, exec]
  | succ fuel =>
    simp [cregUnregisterLoop, regCall, Program.run_call, exec, ClientRegistry.read, Finmap.lookup_eq_none.mpr freed]

theorem cregShutdownLoop_run {i : Int} {temp : Option Nat} (chain : Chain r.heap temp nodes)
    (count : r.numOfClients = i + nodes.length) :
    (cregShutdownLoop nodes.length i temp).run (exec malloc) r =
      some ((), { r with closed := r.closed ++ nodes.map Prod.snd }) := by
  induction nodes generalizing r i temp with
  | nil =>
    have past : ¬ i < r.numOfClients := by simp at count; omega
    simp [cregShutdownLoop, regCall, Program.run_call, exec, past]
  | cons node rest ih =>
    obtain ⟨a, v⟩ := node
    obtain ⟨rfl, next, stored, _, tail⟩ := chain.head
    have inside : i < r.numOfClients := by simp at count; omega
    have later := @ih { r with closed := r.closed ++ [v] } (i + 1) next tail (by simp at count ⊢; omega)
    simpa [cregShutdownLoop, regCall, Program.run_call, exec, inside, ClientRegistry.read, stored] using later

theorem cregShutdownAll_intact (intact : r.Intact nodes) :
    (cregShutdownAll r.numOfClients.toNat).run (exec malloc) r = some ((), { r with
      numOfClients := 0, registeredFds := none, closed := r.closed ++ nodes.map Prod.snd }) := by
  have fuel : r.numOfClients.toNat = nodes.length := by rw [intact.counted, Int.toNat_natCast]
  have looped := cregShutdownLoop_run malloc (i := 0) intact.chain (by rw [intact.counted]; omega)
  simp [cregShutdownAll, regCall, Program.run_bind, Program.run_call, Program.run_perform, exec, fuel, looped]

theorem cregShutdownAll_dangling (dangling : r.Dangling) :
    (cregShutdownAll r.numOfClients.toNat).run (exec malloc) r =
      some ((), { r with numOfClients := 0, registeredFds := none }) := by
  simp [cregShutdownAll, cregShutdownLoop, regCall, Program.run_call, Program.run_perform, exec, dangling.empty]

end Functions

/-! ### Operations that registering and unregistering do without -/

/-- Neither a close nor an operation on the semaphore that `creg_wait_for_empty` uses. -/
def RegistryOp.Plain : RegistryOp → Prop
  | .wait .mutexE | .post .mutexE | .close _ => False
  | _ => True

theorem cregRegister_plain (value : Int) : (cregRegister value).Calls RegistryOp.Plain := by
  simp only [cregRegister, regCall, Program.perform_bind, Program.Calls, RegistryOp.Plain, true_and, forall_const]
  intro theFd n
  split <;> simp [Program.Calls, RegistryOp.Plain]

theorem cregUnregisterLoop_plain (value lastIndex i : Int) (fuel : Nat) (temp prev : Option Nat) :
    (cregUnregisterLoop value lastIndex i fuel temp prev).Calls RegistryOp.Plain := by
  induction fuel generalizing temp prev with
  | zero => cases temp <;> simp [cregUnregisterLoop, regCall, RegistryOp.Plain]
  | succ fuel ih =>
    cases temp with
    | none => simp [cregUnregisterLoop, regCall, RegistryOp.Plain]
    | some temp =>
      simp only [cregUnregisterLoop, regCall, Program.perform_bind, Program.Calls, RegistryOp.Plain, true_and]
      intro current
      split
      · refine ⟨trivial, fun head => ?_⟩
        by_cases first : some temp = head
        · simp [first, Program.Calls, RegistryOp.Plain]
        · by_cases last : i = lastIndex - 1 <;> simp [first, last, Program.Calls, RegistryOp.Plain]
      · exact ⟨trivial, fun next => ih next (some temp)⟩

theorem cregUnregister_plain (value : Int) (fuel : Nat) : (cregUnregister value fuel).Calls RegistryOp.Plain := by
  simp only [cregUnregister, regCall, Program.perform_bind, Program.Calls, RegistryOp.Plain, true_and, forall_const]
  intro lastIndex
  split
  · simp [Program.Calls, RegistryOp.Plain]
  · exact ⟨trivial, fun temp => ⟨trivial, fun prev => cregUnregisterLoop_plain _ _ _ _ _ _⟩⟩

theorem plain_step {malloc : Allocator Int} {op : RegistryOp} {r r' : ClientRegistry} {result : op.Res}
    (plain : op.Plain) (executed : exec malloc op r = some (result, r')) : r'.closed = r.closed := by
  cases op with
  | wait semaphore =>
    cases semaphore with
    | mutex =>
      obtain ⟨_, rfl⟩ : 0 < r.mutex ∧ { r with mutex := r.mutex - 1 } = r' := by simpa [exec] using executed
      rfl
    | mutexE => exact plain.elim
  | post semaphore =>
    cases semaphore with
    | mutex => cases executed; rfl
    | mutexE => exact plain.elim
  | free fd =>
    cases fd with
    | none => cases executed; rfl
    | some address =>
      obtain ⟨_, rfl⟩ : address ∈ r.heap ∧ { r with heap := r.heap.erase address } = r' := by
        simpa [exec] using executed
      rfl
  | setCurrFd fd value | setNext fd next =>
    obtain ⟨changed, updated, equal⟩ := Option.map_eq_some_iff.mp executed
    cases equal
    obtain ⟨heap, rfl⟩ := update_heap updated
    rfl
  | getCurrFd fd | getNext fd =>
    obtain ⟨node, _, equal⟩ := Option.map_eq_some_iff.mp executed
    cases equal
    rfl
  | close fd => exact plain.elim
  | diverge => cases executed
  | _ =>
    cases executed
    rfl

theorem plain_closed {malloc : Allocator Int} {program : RegistryProgram Unit} {r r' : ClientRegistry}
    (plain : program.Calls RegistryOp.Plain) (ran : program.run (exec malloc) r = some ((), r')) :
    r'.closed = r.closed :=
  plain.keeps (I := fun u => u.closed = r.closed)
    (fun _ _ _ _ allowed executed same => (plain_step allowed executed).trans same) ran rfl

end MazeWar
