import MazeWar.Registry.Descriptors
import MazeWar.Server.Model

/-!
# Connections are handed over

The loop of `main` passes the descriptor of each connection to its thread in a block of memory that
the thread frees. Every thread so gets the descriptor that was accepted for it, and the steps of
`main` and of the threads are those of the accounts that are kept of descriptors.
-/

namespace MazeWar
open Foundation

inductive HandoffOp where
  | malloc
  | accept
  | store (address : Nat) (fd : Int)
  | pthreadCreate (arg : Nat)
  | load (address : Nat)
  | free (address : Nat)
  | cregRegister (fd : Int)
  /-- The loop of the thread, which opens and closes nothing. -/
  | serve (fd : Int)
  | cregUnregister (fd : Int)
  | close (fd : Int)

abbrev HandoffOp.Res : HandoffOp → Type
  | .malloc => Nat
  | .accept | .load _ => Int
  | _ => Unit

abbrev HandoffProgram := Program HandoffOp HandoffOp.Res Unit

/-- So many rounds of `while (term == 0)`; nothing sets `term`. -/
def acceptLoop : Nat → HandoffProgram
  | 0 => pure ()
  | rounds + 1 => do
    let connfdp ← Program.perform HandoffOp.malloc
    let fd ← Program.perform HandoffOp.accept
    Program.perform (HandoffOp.store connfdp fd)
    Program.perform (HandoffOp.pthreadCreate connfdp)
    acceptLoop rounds

/-- `mzw_client_service`, as far as it deals with its argument and its descriptor. -/
def serviceThread (arg : Nat) : HandoffProgram := do
  let fd ← Program.perform (HandoffOp.load arg)
  Program.perform (HandoffOp.free arg)
  Program.perform (HandoffOp.cregRegister fd)
  Program.perform (HandoffOp.serve fd)
  Program.perform (HandoffOp.cregUnregister fd)
  Program.perform (HandoffOp.close fd)

/-- What is left of the loop of `main` and of each thread, the blocks for arguments with their contents,
and the descriptors that are open. Threads are numbered as they are created. -/
structure Handoff where
  main : HandoffProgram
  threads : Nat → HandoffProgram
  count : Nat
  args : Nat → Option Int
  isOpen : Int → Bool
  registry : ClientRegistry

inductive HandoffAction where
  /-- `malloc` returns a block that is not allocated, with whatever it held before. -/
  | malloc (address : Nat) (contents : Int)
  /-- `accept` returns a descriptor that is not open. -/
  | accept (fd : Int)
  | main
  | thread (n : Nat)

namespace Handoff
variable (malloc : Allocator Int)

def start (heap : Heap Int) (rounds : Nat) : Handoff where
  main := acceptLoop rounds
  threads _ := .done ()
  count := 0
  args _ := none
  isOpen _ := false
  registry := cregInit heap

def resume (n : Nat) (left : HandoffProgram) (s : Handoff) : Handoff :=
  { s with threads := Function.update s.threads n left }

def step (s : Handoff) : HandoffAction → Option Handoff
  | .malloc address contents =>
    match s.main with
    | .call .malloc next =>
      if s.args address = none then
        some { s with main := next address, args := Function.update s.args address (some contents) }
      else none
    | _ => none
  | .accept fd =>
    match s.main with
    | .call .accept next =>
      if 0 ≤ fd ∧ s.isOpen fd = false then
        some { s with main := next fd, isOpen := Function.update s.isOpen fd true }
      else none
    | _ => none
  | .main =>
    match s.main with
    | .call (.store address fd) next =>
      if (s.args address).isSome then
        some { s with main := next (), args := Function.update s.args address (some fd) }
      else none
    | .call (.pthreadCreate arg) next =>
      some { s.resume s.count (serviceThread arg) with main := next (), count := s.count + 1 }
    | _ => none
  | .thread n =>
    match s.threads n with
    | .call (.load address) next => (s.args address).map fun fd => s.resume n (next fd)
    | .call (.free address) next =>
      if (s.args address).isSome then some { s.resume n (next ()) with args := Function.update s.args address none }
      else none
    | .call (.cregRegister fd) next =>
      ((cregRegister fd).run (ClientRegistry.exec malloc) s.registry).map fun answer =>
        { s.resume n (next ()) with registry := answer.2 }
    | .call (.serve _) next => some (s.resume n (next ()))
    | .call (.cregUnregister fd) next =>
      ((cregUnregister fd (s.registry.heap.keys.card + 1)).run (ClientRegistry.exec malloc) s.registry).map fun answer =>
        { s.resume n (next ()) with registry := answer.2 }
    | .call (.close fd) next => some { s.resume n (next ()) with isOpen := Function.update s.isOpen fd false }
    | _ => none

end Handoff

/-! ### The service thread in full -/

/-- What an operation of the service thread is for its argument, at `arg`, and its descriptor. -/
def ServiceOp.handoff (arg : Nat) : ServiceOp → Option HandoffOp
  | .free .arg => some (.free arg)
  | .cregRegister fd => some (.cregRegister fd)
  | .cregUnregister fd => some (.cregUnregister fd)
  | .close fd => some (.close fd)
  | _ => none

section
variable {arg : Nat} {fd : Int}

theorem serviceDispatch_handoff (st : ServiceState) : (serviceDispatch fd st).Calls fun op => op.handoff arg = none := by
  unfold serviceDispatch
  split_ifs
  · refine ⟨rfl, fun login => ?_⟩
    dsimp only [Program.bind]
    split
    · refine ⟨rfl, fun block => ⟨rfl, fun sent => ?_⟩⟩
      dsimp only [Program.bind]
      split
      · exact ⟨rfl, fun _ => ⟨rfl, fun _ => trivial⟩⟩
      · exact ⟨rfl, fun _ => trivial⟩
    · exact ⟨rfl, fun block => ⟨rfl, fun sent => ⟨rfl, fun _ => trivial⟩⟩⟩
  · exact ⟨rfl, fun _ => trivial⟩
  · exact ⟨rfl, fun _ => trivial⟩
  · exact ⟨rfl, fun _ => trivial⟩
  · exact ⟨rfl, fun _ => ⟨rfl, fun _ => trivial⟩⟩
  · exact ⟨rfl, fun _ => trivial⟩
  · trivial

theorem serviceAnswer_handoff (st : ServiceState) (answer : Int × MzwPacket × Payload) :
    (serviceAnswer fd st answer).Calls fun op => op.handoff arg = none := by
  unfold serviceAnswer
  split_ifs
  · exact ⟨rfl, fun _ => trivial⟩
  · exact ⟨rfl, fun _ => trivial⟩
  · exact (serviceDispatch_handoff _).bind fun _ => ⟨rfl, fun _ => trivial⟩

theorem serviceRound_handoff (st : ServiceState) : (serviceRound fd st).Calls fun op => op.handoff arg = none := by
  rw [serviceRound_eq]
  split
  · exact ⟨rfl, fun _ => ⟨rfl, serviceAnswer_handoff st⟩⟩
  · exact ⟨rfl, serviceAnswer_handoff st⟩

theorem serviceLoop_handoff (fuel : Nat) (st : ServiceState) :
    (serviceLoop fd fuel st).Calls fun op => op.handoff arg = none := by
  induction fuel generalizing st with
  | zero => trivial
  | succ fuel ih =>
    refine (serviceRound_handoff st).bind fun outcome => ?_
    cases outcome with
    | none => trivial
    | some next => exact ih next

/-- A service thread that ends does to its argument and its descriptor what `serviceThread` does. -/
theorem mzwClientService_handoff {fuel : Nat} {log : List ((op : ServiceOp) × op.Res)}
    (emitted : (mzwClientService fd fuel).Emits log true) :
    (log.map Sigma.fst).filterMap (ServiceOp.handoff arg) =
      [.free arg, .cregRegister fd, .cregUnregister fd, .close fd] := by
  simp only [mzwClientService, Program.perform_bind, Program.emits_call, Program.emits_bind] at emitted
  obtain ⟨_, _, rfl, _, _, rfl, pkt, _, rfl, datap, _, rfl, player, _, rfl, before, value, after, rfl, looped, rest⟩ :=
    emitted
  have silent : (before.map Sigma.fst).filterMap (ServiceOp.handoff arg) = [] := by
    rw [List.filterMap_eq_nil_iff]
    intro op member
    obtain ⟨event, made, rfl⟩ := List.mem_map.mp member
    exact (serviceLoop_handoff fuel _).emitted looped event made
  cases value with
  | false => cases rest.2
  | true =>
    simp only [if_true, Program.emits_call, Program.emits_pure] at rest
    obtain ⟨_, _, rfl, closed, _, rfl, _, _, rfl, _, _, rfl, rfl, _⟩ := rest
    simp [List.filterMap_cons, List.filterMap_append, ServiceOp.handoff, silent]

end

/-! ### Where a program has come -/

def accepting (connfdp rounds : Nat) : HandoffProgram := do
  let fd ← Program.perform HandoffOp.accept
  Program.perform (HandoffOp.store connfdp fd)
  Program.perform (HandoffOp.pthreadCreate connfdp)
  acceptLoop rounds

def storing (connfdp : Nat) (fd : Int) (rounds : Nat) : HandoffProgram := do
  Program.perform (HandoffOp.store connfdp fd)
  Program.perform (HandoffOp.pthreadCreate connfdp)
  acceptLoop rounds

def creating (connfdp rounds : Nat) : HandoffProgram := do
  Program.perform (HandoffOp.pthreadCreate connfdp)
  acceptLoop rounds

def freeing (arg : Nat) (fd : Int) : HandoffProgram := do
  Program.perform (HandoffOp.free arg)
  Program.perform (HandoffOp.cregRegister fd)
  Program.perform (HandoffOp.serve fd)
  Program.perform (HandoffOp.cregUnregister fd)
  Program.perform (HandoffOp.close fd)

def registering (fd : Int) : HandoffProgram := do
  Program.perform (HandoffOp.cregRegister fd)
  Program.perform (HandoffOp.serve fd)
  Program.perform (HandoffOp.cregUnregister fd)
  Program.perform (HandoffOp.close fd)

def serving (fd : Int) : HandoffProgram := do
  Program.perform (HandoffOp.serve fd)
  Program.perform (HandoffOp.cregUnregister fd)
  Program.perform (HandoffOp.close fd)

def unregistering (fd : Int) : HandoffProgram := do
  Program.perform (HandoffOp.cregUnregister fd)
  Program.perform (HandoffOp.close fd)

/-- `main` between two steps: the block that it holds, and the stage of the connection that it has accepted
but not yet handed over. -/
inductive Accepting (args : Nat → Option Int) : HandoffProgram → Option Nat → Stage → Prop
  | idle {rounds} : Accepting args (acceptLoop rounds) none .pending
  | allocated {a rounds} : Accepting args (accepting a rounds) (some a) .pending
  | accepted {a fd rounds} : Accepting args (storing a fd rounds) (some a) (.accepted fd)
  | stored {a fd rounds} (handed : args a = some fd) : Accepting args (creating a rounds) (some a) (.accepted fd)

/-- A thread between two steps, the block that it is still to free, and the stage of its connection. -/
inductive Reached (args : Nat → Option Int) : HandoffProgram → Option Nat → Stage → Prop
  | created {a fd} (handed : args a = some fd) : Reached args (serviceThread a) (some a) (.accepted fd)
  | loaded {a fd} : Reached args (freeing a fd) (some a) (.accepted fd)
  | freed {fd} : Reached args (registering fd) none (.accepted fd)
  | registered {fd} : Reached args (serving fd) none (.serving fd)
  | stopped {fd} : Reached args (unregistering fd) none (.stopped fd)
  | unregistered {fd} : Reached args (Program.perform (HandoffOp.close fd)) none (.unregistered fd)
  | ended : Reached args (.done ()) none .ended

theorem Accepting.frame {args args' : Nat → Option Int} {program : HandoffProgram} {block : Option Nat} {stage : Stage}
    (accepting : Accepting args program block stage) (kept : ∀ a, block = some a → args' a = args a) :
    Accepting args' program block stage := by
  cases accepting with
  | idle => exact .idle
  | allocated => exact .allocated
  | accepted => exact .accepted
  | stored handed => exact .stored ((kept _ rfl).trans handed)

theorem Reached.frame {args args' : Nat → Option Int} {program : HandoffProgram} {block : Option Nat} {stage : Stage}
    (reached : Reached args program block stage) (kept : ∀ a, block = some a → args' a = args a) :
    Reached args' program block stage := by
  cases reached with
  | created handed => exact .created ((kept _ rfl).trans handed)
  | loaded => exact .loaded
  | freed => exact .freed
  | registered => exact .registered
  | stopped => exact .stopped
  | unregistered => exact .unregistered
  | ended => exact .ended

/-! ### Who holds a block -/

/-- The holder's only block is this one, if any. `main` is `none`. -/
def Owned (holder : Nat → Option (Option Nat)) (who : Option Nat) (block : Option Nat) : Prop :=
  ∀ a, holder a = some who ↔ block = some a

section
variable {holder : Nat → Option (Option Nat)} {who value : Option (Option Nat)} {me : Option Nat} {a : Nat}
  {block : Option Nat}

theorem Owned.kept (owned : Owned holder me block) (was : holder a ≠ some me) (now : value ≠ some me) :
    Owned (Function.update holder a value) me block := by
  intro b
  rcases eq_or_ne b a with rfl | apart
  · rw [Function.update_self]
    exact iff_of_false now fun here => was ((owned b).mpr here)
  · rw [Function.update_of_ne apart]
    exact owned b

theorem Owned.taken (owned : Owned holder me none) : Owned (Function.update holder a (some me)) me (some a) := by
  intro b
  rcases eq_or_ne b a with rfl | apart
  · rw [Function.update_self]
    exact iff_of_true rfl rfl
  · rw [Function.update_of_ne apart]
    exact (owned b).trans (iff_of_false (Option.some_ne_none b).symm fun same => apart (Option.some.inj same).symm)

theorem Owned.released (owned : Owned holder me (some a)) (now : value ≠ some me) :
    Owned (Function.update holder a value) me none := by
  intro b
  rcases eq_or_ne b a with rfl | apart
  · rw [Function.update_self]
    exact iff_of_false now (Option.some_ne_none b).symm
  · rw [Function.update_of_ne apart]
    exact (owned b).trans (iff_of_false (fun same => apart (Option.some.inj same).symm) (Option.some_ne_none b).symm)

end

/-! ### The simulation -/

/-- The accounts say of each descriptor and each thread what there is. -/
structure Linked (s : Handoff) (d : Descriptors Nat) (holder : Nat → Option (Option Nat)) : Prop where
  registry : d.registry = s.registry
  opened : ∀ fd, s.isOpen fd = (d.owner fd).isSome
  live : ∀ a, (s.args a).isSome = (holder a).isSome
  main : ∃ block, Accepting s.args s.main block (d.stage s.count) ∧ Owned holder none block
  threads : ∀ n < s.count, ∃ block, Reached s.args (s.threads n) block (d.stage n) ∧ Owned holder (some n) block
  later : ∀ n, s.count ≤ n → s.threads n = .done () ∧ Owned holder (some n) none ∧ (n ≠ s.count → d.stage n = .pending)

/-- What the other holders have is left as it is. -/
def Spares (s : Handoff) (holder holder' : Nat → Option (Option Nat)) (args : Nat → Option Int) (me : Option Nat) : Prop :=
  ∀ who block, who ≠ me → Owned holder who block →
    Owned holder' who block ∧ ∀ a, block = some a → args a = s.args a

section
variable {s : Handoff} {d d' : Descriptors Nat} {holder holder' : Nat → Option (Option Nat)} {args : Nat → Option Int}
  {isOpen : Int → Bool} {registry : ClientRegistry} {left : HandoffProgram} {n a : Nat} {me : Option Nat}

theorem spares_same : Spares s holder holder s.args me := fun _ _ _ owned => ⟨owned, fun _ _ => rfl⟩

/-- A block that nobody else has changes hands. -/
theorem spares_update {value : Option (Option Nat)} {contents : Option Int} (was : ∀ who, who ≠ me → holder a ≠ some who)
    (now : ∀ who, who ≠ me → value ≠ some who) :
    Spares s holder (Function.update holder a value) (Function.update s.args a contents) me := by
  intro who block other owned
  refine ⟨owned.kept (was who other) (now who other), fun b mine => Function.update_of_ne ?_ _ _⟩
  rintro rfl
  exact was who other ((owned b).mpr mine)

theorem Linked.mainStep (linked : Linked s d holder) (registers : d'.registry = s.registry)
    (opened : ∀ fd, isOpen fd = (d'.owner fd).isSome) (live : ∀ a, (args a).isSome = (holder' a).isSome)
    (stages : ∀ m, m ≠ s.count → d'.stage m = d.stage m) (spares : Spares s holder holder' args none)
    (now : ∃ block, Accepting args left block (d'.stage s.count) ∧ Owned holder' none block) :
    Linked { s with main := left, args, isOpen } d' holder' where
  registry := registers
  opened := opened
  live := live
  main := now
  threads m inside := by
    obtain ⟨block, reached, owned⟩ := linked.threads m inside
    obtain ⟨owned', kept⟩ := spares (some m) block (Option.some_ne_none m) owned
    refine ⟨block, ?_, owned'⟩
    rw [stages m inside.ne]
    exact reached.frame kept
  later m outside := by
    obtain ⟨ended, owned, pending⟩ := linked.later m outside
    refine ⟨ended, (spares (some m) none (Option.some_ne_none m) owned).1, fun other => ?_⟩
    rw [stages m other]
    exact pending other

theorem Linked.threadStep (linked : Linked s d holder) (inside : n < s.count) (registers : d'.registry = registry)
    (opened : ∀ fd, isOpen fd = (d'.owner fd).isSome) (live : ∀ a, (args a).isSome = (holder' a).isSome)
    (stages : ∀ m, m ≠ n → d'.stage m = d.stage m) (spares : Spares s holder holder' args (some n))
    (now : ∃ block, Reached args left block (d'.stage n) ∧ Owned holder' (some n) block) :
    Linked { s.resume n left with args, isOpen, registry } d' holder' where
  registry := registers
  opened := opened
  live := live
  main := by
    obtain ⟨block, accepting, owned⟩ := linked.main
    obtain ⟨owned', kept⟩ := spares none block (Option.some_ne_none n).symm owned
    refine ⟨block, ?_, owned'⟩
    show Accepting args s.main block (d'.stage s.count)
    rw [stages _ inside.ne']
    exact accepting.frame kept
  threads m within := by
    rcases eq_or_ne m n with rfl | apart
    · obtain ⟨block, reached, owned⟩ := now
      refine ⟨block, ?_, owned⟩
      simp only [Handoff.resume, Function.update_self]
      exact reached
    · obtain ⟨block, reached, owned⟩ := linked.threads m within
      obtain ⟨owned', kept⟩ := spares (some m) block (fun same => apart (Option.some.inj same)) owned
      refine ⟨block, ?_, owned'⟩
      simp only [Handoff.resume, Function.update_of_ne apart]
      rw [stages m apart]
      exact reached.frame kept
  later m outside := by
    have apart : m ≠ n := (inside.trans_le outside).ne'
    obtain ⟨ended, owned, pending⟩ := linked.later m outside
    refine ⟨?_, (spares (some m) none (fun same => apart (Option.some.inj same)) owned).1, fun other => ?_⟩
    · simp only [Handoff.resume, Function.update_of_ne apart]
      exact ended
    · rw [stages m apart]
      exact pending other

end

/-! ### The steps of `main` -/

section
variable {malloc : Allocator Int} {s t : Handoff} {d : Descriptors Nat} {holder : Nat → Option (Option Nat)}
  {args : Nat → Option Int} {program : HandoffProgram} {block : Option Nat} {stage : Stage}

theorem acceptLoop_succ (rounds : Nat) :
    acceptLoop (rounds + 1) = .call .malloc fun connfdp => accepting connfdp rounds := rfl

theorem Accepting.of_malloc {next : Nat → HandoffProgram} (reached : Accepting args program block stage)
    (op : program = .call .malloc next) : block = none ∧ stage = .pending ∧ ∃ rounds, ∀ a, next a = accepting a rounds := by
  cases reached with
  | @idle rounds =>
    cases rounds with
    | zero => cases op
    | succ rounds =>
      rw [acceptLoop_succ] at op
      cases op
      exact ⟨rfl, rfl, rounds, fun _ => rfl⟩
  | allocated | accepted | stored => cases op

theorem Accepting.of_accept {next : Int → HandoffProgram} (reached : Accepting args program block stage)
    (op : program = .call .accept next) :
    stage = .pending ∧ ∃ a rounds, block = some a ∧ ∀ fd, next fd = storing a fd rounds := by
  cases reached with
  | @idle rounds =>
    cases rounds with
    | zero => cases op
    | succ rounds =>
      rw [acceptLoop_succ] at op
      cases op
  | @allocated a rounds =>
    cases op
    exact ⟨rfl, a, rounds, rfl, fun _ => rfl⟩
  | accepted | stored => cases op

theorem malloc_simulates {address : Nat} {contents : Int} (linked : Linked s d holder)
    (stepped : s.step malloc (.malloc address contents) = some t) : ∃ holder', Linked t d holder' := by
  obtain ⟨block, reached, owned⟩ := linked.main
  simp only [Handoff.step] at stepped
  split at stepped
  · next next op =>
    obtain ⟨free, same⟩ := Option.ite_none_right_eq_some.mp stepped
    cases same
    obtain ⟨rfl, pending, rounds, rest⟩ := reached.of_malloc op
    have fresh : holder address = none := by
      rw [← Option.not_isSome_iff_eq_none, ← linked.live, free]
      decide
    refine ⟨Function.update holder address (some none),
      linked.mainStep linked.registry linked.opened ?_ (fun _ _ => rfl) ?_ ?_⟩
    · intro a
      rcases eq_or_ne a address with rfl | apart
      · simp only [Function.update_self, Option.isSome_some]
      · simp only [Function.update_of_ne apart, linked.live a]
    · refine spares_update (fun who _ => by rw [fresh]; exact (Option.some_ne_none who).symm) fun who other same => ?_
      exact other (Option.some.inj same).symm
    · rw [pending, rest]
      exact ⟨some address, .allocated, owned.taken⟩
  · cases stepped

theorem accept_simulates {fd : Int} (linked : Linked s d holder) (stepped : s.step malloc (.accept fd) = some t) :
    ∃ d', d.step malloc (.accept s.count fd) = some d' ∧ Linked t d' holder := by
  obtain ⟨block, reached, owned⟩ := linked.main
  simp only [Handoff.step] at stepped
  split at stepped
  · next next op =>
    obtain ⟨⟨known, closed⟩, same⟩ := Option.ite_none_right_eq_some.mp stepped
    cases same
    obtain ⟨pending, a, rounds, rfl, rest⟩ := reached.of_accept op
    have nobody : d.owner fd = none := by
      rw [← Option.not_isSome_iff_eq_none, ← linked.opened, closed]
      decide
    refine ⟨_, if_pos ⟨pending, known, nobody⟩, linked.mainStep linked.registry ?_ linked.live ?_ spares_same ?_⟩
    · intro other
      rcases eq_or_ne other fd with rfl | apart
      · simp only [Function.update_self, Option.isSome_some]
      · simp only [Function.update_of_ne apart]
        exact linked.opened other
    · exact fun m apart => Function.update_of_ne apart _ _
    · rw [rest]
      refine ⟨some a, ?_, owned⟩
      simp only [Descriptors.enter, Function.update_self]
      exact .accepted
  · cases stepped

theorem Accepting.of_store {a : Nat} {fd : Int} {next : Unit → HandoffProgram} (reached : Accepting args program block stage)
    (op : program = .call (.store a fd) next) :
    block = some a ∧ stage = .accepted fd ∧ ∃ rounds, next () = creating a rounds := by
  cases reached with
  | @idle rounds =>
    cases rounds with
    | zero => cases op
    | succ rounds =>
      rw [acceptLoop_succ] at op
      cases op
  | @accepted _ _ rounds =>
    cases op
    exact ⟨rfl, rfl, rounds, rfl⟩
  | allocated | stored => cases op

theorem Accepting.of_create {a : Nat} {next : Unit → HandoffProgram} (reached : Accepting args program block stage)
    (op : program = .call (.pthreadCreate a) next) :
    block = some a ∧ ∃ fd rounds, stage = .accepted fd ∧ args a = some fd ∧ next () = acceptLoop rounds := by
  cases reached with
  | @idle rounds =>
    cases rounds with
    | zero => cases op
    | succ rounds =>
      rw [acceptLoop_succ] at op
      cases op
  | @stored _ fd rounds handed =>
    cases op
    exact ⟨rfl, fd, rounds, rfl, handed, rfl⟩
  | allocated | accepted => cases op

/-- The new thread is the one of the connection that `main` has in hand. -/
theorem create_linked {a rounds : Nat} {fd : Int} (linked : Linked s d holder) (owned : Owned holder none (some a))
    (accepted : d.stage s.count = .accepted fd) (handed : s.args a = some fd) :
    Linked { s.resume s.count (serviceThread a) with main := acceptLoop rounds, count := s.count + 1 } d
      (Function.update holder a (some (some s.count))) where
  registry := linked.registry
  opened := linked.opened
  live b := by
    show (s.args b).isSome = _
    rcases eq_or_ne b a with rfl | apart
    · rw [Function.update_self, handed]
      rfl
    · rw [Function.update_of_ne apart]
      exact linked.live b
  main := by
    obtain ⟨_, _, pending⟩ := linked.later (s.count + 1) (Nat.le_succ _)
    refine ⟨none, ?_, owned.released (fun same => Option.some_ne_none _ (Option.some.inj same))⟩
    rw [show d.stage (s.count + 1) = .pending from pending (Nat.succ_ne_self _)]
    exact .idle
  threads m within := by
    have mine : holder a = some none := (owned a).mpr rfl
    rcases Nat.lt_succ_iff_lt_or_eq.mp within with before | rfl
    · obtain ⟨block, reached, owned'⟩ := linked.threads m before
      refine ⟨block, ?_, owned'.kept ?_ ?_⟩
      · simp only [Handoff.resume, Function.update_of_ne before.ne]
        exact reached
      · rw [mine]
        exact fun same => Option.some_ne_none m (Option.some.inj same).symm
      · exact fun same => before.ne (Option.some.inj (Option.some.inj same)).symm
    · obtain ⟨_, owned', _⟩ := linked.later s.count le_rfl
      refine ⟨some a, ?_, owned'.taken⟩
      simp only [Handoff.resume, Function.update_self]
      rw [accepted]
      exact .created handed
  later m outside := by
    have mine : holder a = some none := (owned a).mpr rfl
    obtain ⟨ended, owned', pending⟩ := linked.later m (Nat.le_of_succ_le outside)
    have apart : m ≠ s.count := (Nat.lt_of_succ_le outside).ne'
    refine ⟨?_, owned'.kept ?_ ?_, fun _ => pending apart⟩
    · simp only [Handoff.resume, Function.update_of_ne apart]
      exact ended
    · rw [mine]
      exact fun same => Option.some_ne_none m (Option.some.inj same).symm
    · exact fun same => apart (Option.some.inj (Option.some.inj same)).symm

theorem main_simulates (linked : Linked s d holder) (stepped : s.step malloc .main = some t) :
    ∃ holder', Linked t d holder' := by
  obtain ⟨block, reached, owned⟩ := linked.main
  simp only [Handoff.step] at stepped
  split at stepped
  · next a fd next op =>
    obtain ⟨allocated, same⟩ := Option.ite_none_right_eq_some.mp stepped
    cases same
    obtain ⟨rfl, accepted, rounds, rest⟩ := reached.of_store op
    have mine : holder a = some none := (owned a).mpr rfl
    refine ⟨holder, linked.mainStep linked.registry linked.opened ?_ (fun _ _ => rfl) ?_ ?_⟩
    · intro b
      rcases eq_or_ne b a with rfl | apart
      · rw [Function.update_self, mine]
        rfl
      · rw [Function.update_of_ne apart]
        exact linked.live b
    · refine fun who block other owned' => ⟨owned', fun b theirs => Function.update_of_ne ?_ _ _⟩
      rintro rfl
      exact other (Option.some.inj (((owned' b).mpr theirs).symm.trans mine))
    · rw [accepted, rest]
      exact ⟨some a, .stored (Function.update_self _ _ _), owned⟩
  · next a next op =>
    cases stepped
    obtain ⟨rfl, fd, rounds, accepted, handed, rest⟩ := reached.of_create op
    rw [rest]
    exact ⟨_, create_linked linked owned accepted handed⟩
  · cases stepped

/-! ### The steps of a thread -/

theorem serviceThread_eq (arg : Nat) : serviceThread arg = .call (.load arg) fun fd => freeing arg fd := rfl

/-- The shutdown has no part in the step. -/
def DescriptorAction.Served (action : DescriptorAction Nat) : Prop := ∀ e : Descriptors Nat, e.Spared action

/-- What there is in `t` is what the accounts say after some steps from `d`. -/
def Simulated (malloc : Allocator Int) (d : Descriptors Nat) (t : Handoff) : Prop :=
  ∃ actions d' holder, runs (Descriptors.step malloc) d actions = some d' ∧
    (∀ action ∈ actions, DescriptorAction.Served action) ∧ Linked t d' holder

theorem Linked.still (linked : Linked t d holder) : Simulated malloc d t :=
  ⟨[], d, holder, rfl, fun _ member => (List.not_mem_nil member).elim, linked⟩

theorem Linked.after {d' : Descriptors Nat} {action : DescriptorAction Nat} (linked : Linked t d' holder)
    (made : d.step malloc action = some d') (served : action.Served) : Simulated malloc d t :=
  ⟨[action], d', holder, runs_cons_iff.mpr ⟨d', made, rfl⟩, fun _ member => List.mem_singleton.mp member ▸ served, linked⟩

theorem free_linked {n a : Nat} {fd : Int} (linked : Linked s d holder) (inside : n < s.count)
    (owned : Owned holder (some n) (some a)) (accepted : d.stage n = .accepted fd) :
    Linked { s.resume n (registering fd) with args := Function.update s.args a none } d (Function.update holder a none) := by
  have mine : holder a = some (some n) := (owned a).mpr rfl
  have others : ∀ who, who ≠ some n → holder a ≠ some who :=
    fun who other same => other (Option.some.inj (same.symm.trans mine))
  refine linked.threadStep inside linked.registry linked.opened (fun b => ?_) (fun _ _ => rfl)
    (spares_update others fun who _ => (Option.some_ne_none who).symm) ?_
  · rcases eq_or_ne b a with rfl | apart
    · simp only [Function.update_self, Option.isSome_none]
    · simp only [Function.update_of_ne apart, linked.live b]
  · rw [accepted]
    exact ⟨none, .freed, owned.released (Option.some_ne_none _).symm⟩

theorem close_linked {n : Nat} {fd : Int} (linked : Linked s d holder) (inside : n < s.count)
    (owned : Owned holder (some n) none) :
    Linked { s.resume n (.done ()) with isOpen := Function.update s.isOpen fd false }
      ((d.close fd (some n)).enter n .ended) holder := by
  refine linked.threadStep inside linked.registry (fun other => ?_) linked.live
    (fun m apart => Function.update_of_ne apart _ _) spares_same ?_
  · show _ = (Function.update d.owner fd none other).isSome
    rcases eq_or_ne other fd with rfl | apart
    · simp only [Function.update_self, Option.isSome_none]
    · simp only [Function.update_of_ne apart, linked.opened other]
  · refine ⟨none, ?_, owned⟩
    rw [show ((d.close fd (some n)).enter n .ended).stage n = .ended from Function.update_self _ _ _]
    exact .ended

theorem thread_simulates {n : Nat} (linked : Linked s d holder) (stepped : s.step malloc (.thread n) = some t) :
    Simulated malloc d t := by
  have inside : n < s.count := by
    by_contra outside
    obtain ⟨ended, _⟩ := linked.later n (Nat.le_of_not_lt outside)
    simp [Handoff.step, ended] at stepped
  obtain ⟨block, reached, owned⟩ := linked.threads n inside
  generalize here : s.threads n = program at reached
  generalize place : d.stage n = stage at reached
  cases reached with
  | @created a fd handed =>
    simp only [Handoff.step, here, serviceThread_eq, handed, Option.map_some, Option.some.injEq] at stepped
    subst stepped
    refine (linked.threadStep inside linked.registry linked.opened linked.live (fun _ _ => rfl) spares_same ?_).still
    rw [place]
    exact ⟨some a, .loaded, owned⟩
  | @loaded a fd =>
    have mine : holder a = some (some n) := (owned a).mpr rfl
    have allocated : (s.args a).isSome = true := by rw [linked.live, mine]; rfl
    have op : freeing a fd = .call (.free a) fun _ => registering fd := rfl
    simp only [Handoff.step, here, op, allocated, if_true, Option.some.injEq] at stepped
    subst stepped
    exact (free_linked linked inside owned place).still
  | @freed fd =>
    have op : registering fd = .call (.cregRegister fd) fun _ => serving fd := rfl
    simp only [Handoff.step, here, op, ← linked.registry] at stepped
    obtain ⟨answer, ran, rfl⟩ := Option.map_eq_some_iff.mp stepped
    have made : ∃ d', d.step malloc (.register n) = some d' ∧ d'.registry = answer.2 ∧ d'.owner = d.owner ∧
        d'.stage = Function.update d.stage n (.serving fd) := by
      simp only [Descriptors.step, place, ran, Option.map_some]
      exact ⟨_, rfl, rfl, rfl, rfl⟩
    obtain ⟨d', made, registers, owners, stages⟩ := made
    refine (linked.threadStep inside registers (by rw [owners]; exact linked.opened) linked.live ?_ spares_same ?_).after
      made fun _ => trivial
    · exact fun m apart => by rw [stages, Function.update_of_ne apart]
    · rw [stages, Function.update_self]
      exact ⟨none, .registered, owned⟩
  | @registered fd =>
    have op : serving fd = .call (.serve fd) fun _ => unregistering fd := rfl
    simp only [Handoff.step, here, op, Option.some.injEq] at stepped
    subst stepped
    have made : d.step malloc (.stop n) = some (d.enter n (.stopped fd)) := by simp only [Descriptors.step, place]
    have registers : (d.enter n (.stopped fd)).registry = s.registry := linked.registry
    refine (linked.threadStep inside registers linked.opened linked.live ?_ spares_same ?_).after made fun _ => trivial
    · exact fun m apart => Function.update_of_ne apart _ _
    · rw [show (d.enter n (.stopped fd)).stage n = .stopped fd from Function.update_self _ _ _]
      exact ⟨none, .stopped, owned⟩
  | @stopped fd =>
    have op : unregistering fd = .call (.cregUnregister fd) fun _ => Program.perform (HandoffOp.close fd) := rfl
    simp only [Handoff.step, here, op, ← linked.registry] at stepped
    obtain ⟨answer, ran, rfl⟩ := Option.map_eq_some_iff.mp stepped
    have made : ∃ d', d.step malloc (.unregister n) = some d' ∧ d'.registry = answer.2 ∧ d'.owner = d.owner ∧
        d'.stage = Function.update d.stage n (.unregistered fd) := by
      simp only [Descriptors.step, place, ran, Option.map_some]
      exact ⟨_, rfl, rfl, rfl, rfl⟩
    obtain ⟨d', made, registers, owners, stages⟩ := made
    refine (linked.threadStep inside registers (by rw [owners]; exact linked.opened) linked.live ?_ spares_same ?_).after
      made fun _ => trivial
    · exact fun m apart => by rw [stages, Function.update_of_ne apart]
    · rw [stages, Function.update_self]
      exact ⟨none, .unregistered, owned⟩
  | @unregistered fd =>
    have op : (Program.perform (HandoffOp.close fd) : HandoffProgram) = .call (.close fd) .done := rfl
    simp only [Handoff.step, here, op, Option.some.injEq] at stepped
    subst stepped
    have made : d.step malloc (.close n) = some ((d.close fd (some n)).enter n .ended) := by
      simp only [Descriptors.step, place]
    exact (close_linked linked inside owned).after made fun _ => trivial
  | ended => simp [Handoff.step, here] at stepped

theorem step_simulated {action : HandoffAction} (linked : Linked s d holder) (stepped : s.step malloc action = some t) :
    Simulated malloc d t := by
  cases action with
  | malloc address contents =>
    obtain ⟨_, linked'⟩ := malloc_simulates linked stepped
    exact linked'.still
  | accept fd =>
    obtain ⟨_, made, linked'⟩ := accept_simulates linked stepped
    exact linked'.after made fun _ => trivial
  | main =>
    obtain ⟨_, linked'⟩ := main_simulates linked stepped
    exact linked'.still
  | thread n => exact thread_simulates linked stepped

theorem start_linked (heap : Heap Int) (rounds : Nat) :
    Linked (.start heap rounds) (Descriptors.start heap) fun _ => none where
  registry := rfl
  opened _ := rfl
  live _ := rfl
  main := ⟨none, .idle, fun _ => iff_of_false (Option.some_ne_none _).symm (Option.some_ne_none _).symm⟩
  threads n inside := absurd inside (Nat.not_lt_zero n)
  later _ _ := ⟨rfl, fun _ => iff_of_false (Option.some_ne_none _).symm (Option.some_ne_none _).symm, fun _ => rfl⟩

/-- A run of `main` and its threads is a run of the accounts in which the shutdown has no part. -/
theorem runs_simulated {heap : Heap Int} {rounds : Nat} {actions : List HandoffAction}
    (ran : runs (Handoff.step malloc) (.start heap rounds) actions = some s) :
    Simulated malloc (Descriptors.start heap) s := by
  refine runs_invariant (I := Simulated malloc (Descriptors.start heap)) ?_ ?_ ran
  · intro s action t simulated stepped
    obtain ⟨before, d, holder, made, served, linked⟩ := simulated
    obtain ⟨after, d', holder', made', served', linked'⟩ := step_simulated linked stepped
    refine ⟨before ++ after, d', holder', by rw [runs_append, made]; exact made', fun action member => ?_, linked'⟩
    exact (List.mem_append.mp member).elim (served action) (served' action)
  · exact (start_linked heap rounds).still

end

/-! ### What each thread gets -/

/-- The block that is accessed next. -/
def blockAccessed : HandoffProgram → Option Nat
  | .call (.store address _) _ | .call (.load address) _ | .call (.free address) _ => some address
  | _ => none

section
variable {s : Handoff} {d : Descriptors Nat} {holder : Nat → Option (Option Nat)} {a n : Nat}
  {args : Nat → Option Int} {program : HandoffProgram} {block : Option Nat} {stage : Stage}

theorem Accepting.accesses (reached : Accepting args program block stage) (next : blockAccessed program = some a) :
    block = some a := by
  cases reached with
  | @idle rounds =>
    cases rounds with
    | zero => cases next
    | succ rounds => cases next
  | accepted => exact next
  | allocated | stored => cases next

theorem Reached.accesses (reached : Reached args program block stage) (next : blockAccessed program = some a) :
    block = some a := by
  cases reached with
  | created | loaded => exact next
  | freed | registered | stopped | unregistered | ended => cases next

theorem Linked.held (linked : Linked s d holder) {who : Option Nat} (owned : Owned holder who (some a)) :
    (s.args a).isSome = true := by
  rw [linked.live, (owned a).mpr rfl]
  rfl

theorem Linked.accessed (linked : Linked s d holder)
    (next : blockAccessed s.main = some a ∨ ∃ n, blockAccessed (s.threads n) = some a) : (s.args a).isSome = true := by
  rcases next with next | ⟨n, next⟩
  · obtain ⟨block, reached, owned⟩ := linked.main
    obtain rfl := reached.accesses next
    exact linked.held owned
  · have inside : n < s.count := by
      by_contra outside
      rw [(linked.later n (Nat.le_of_not_lt outside)).1] at next
      cases next
    obtain ⟨block, reached, owned⟩ := linked.threads n inside
    obtain rfl := reached.accesses next
    exact linked.held owned

theorem Accepting.over (reached : Accepting args program block stage) (done : program = .done ()) : block = none := by
  cases reached with
  | idle => rfl
  | allocated | accepted | stored => cases done

theorem Reached.over (reached : Reached args program block stage) (done : program = .done ()) : block = none := by
  cases reached with
  | freed | registered | stopped | unregistered | ended => rfl
  | created | loaded => cases done

theorem Linked.over (linked : Linked s d holder) (main : s.main = .done ()) (threads : ∀ n, s.threads n = .done ()) :
    s.args a = none := by
  have nobody : ∀ who, holder a ≠ some who := by
    intro who held
    cases who with
    | none =>
      obtain ⟨block, reached, owned⟩ := linked.main
      rw [reached.over main] at owned
      cases (owned a).mp held
    | some n =>
      rcases Nat.lt_or_ge n s.count with inside | outside
      · obtain ⟨block, reached, owned⟩ := linked.threads n inside
        rw [reached.over (threads n)] at owned
        cases (owned a).mp held
      · cases ((linked.later n outside).2.1 a).mp held
  rw [← Option.not_isSome_iff_eq_none, linked.live, Option.eq_none_iff_forall_ne_some.mpr nobody]
  decide

end

/-- Whatever blocks `malloc` and whatever descriptors `accept` return, and however `main` and the threads
take turns: every block that is accessed is allocated; the thread of the n-th connection has come as far
as the accounts of descriptors say, with the descriptor accepted for that connection, which is its own to
close; and when all have ended no block is left. -/
theorem connections_handed_over (malloc : Allocator Int) (heap : Heap Int) (rounds : Nat) (actions : List HandoffAction)
    (s : Handoff) (ran : runs (Handoff.step malloc) (.start heap rounds) actions = some s) :
    (∃ accounts d, runs (Descriptors.step malloc) (Descriptors.start heap) accounts = some d ∧ d.Custody ∧
      d.registry = s.registry ∧ (∀ fd, s.isOpen fd = (d.owner fd).isSome) ∧
      ∀ n < s.count, ∃ block, Reached s.args (s.threads n) block (d.stage n)) ∧
    (∀ a, blockAccessed s.main = some a ∨ (∃ n, blockAccessed (s.threads n) = some a) → (s.args a).isSome = true) ∧
    (s.main = .done () → (∀ n, s.threads n = .done ()) → ∀ a, s.args a = none) := by
  obtain ⟨accounts, d, holder, made, served, linked⟩ := runs_simulated ran
  have custody : d.Custody := runs_guarded_invariant
    (fun _ _ _ custody allowed stepped => Descriptors.custody_step malloc custody allowed stepped)
    (Descriptors.start_custody heap) (guarded_of_forall fun action member => served action member) made
  refine ⟨⟨accounts, d, made, custody, linked.registry, linked.opened, fun n inside => ?_⟩,
    fun a next => linked.accessed next, fun main threads a => linked.over main threads⟩
  obtain ⟨block, reached, _⟩ := linked.threads n inside
  exact ⟨block, reached⟩

/-- The first thread has freed its block, and the second gets the same one. -/
def twoConnections : List HandoffAction :=
  [.malloc 7 99, .accept 4, .main, .main, .thread 0, .thread 0, .malloc 7 4, .accept 5, .main, .main, .thread 1]

theorem connections_handed_over_two : ∃ s accounts, ∃ d : Descriptors Nat,
    runs (Handoff.step (.beyond Int)) (.start ∅ 2) twoConnections = some s ∧ s.threads 0 = registering 4 ∧
    s.threads 1 = freeing 7 5 ∧ (s.args 7).isSome = true ∧
    runs (Descriptors.step (.beyond Int)) (Descriptors.start ∅) accounts = some d ∧ d.Custody := by
  have left : (runs (Handoff.step (.beyond Int)) (.start ∅ 2) twoConnections).map (fun s => (s.threads 0, s.threads 1)) =
      some (registering 4, freeing 7 5) := rfl
  obtain ⟨s, ran, threads⟩ := Option.map_eq_some_iff.mp left
  obtain ⟨first, second⟩ := Prod.mk.inj threads
  obtain ⟨⟨accounts, d, made, custody, _⟩, live, _⟩ := connections_handed_over _ _ _ _ s ran
  exact ⟨s, accounts, d, ran, first, second, live 7 (.inr ⟨1, by rw [second]; rfl⟩), made, custody⟩

end MazeWar
