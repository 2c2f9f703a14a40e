import MazeWar.Foundation.Runs
import MazeWar.Registry.Behavior

/-!
# The registry as a multiset of descriptors

What the registry is for: to hold the descriptors that have been registered and not yet
unregistered. It does so through every sequence of calls in which no descriptor is
unregistered that is not registered while one client is left, or after the last one left.
-/

namespace MazeWar
open Foundation ClientRegistry

inductive RegistryCall where
  | register (fd : Int)
  | unregister (fd : Int)
  | shutdownAll
  deriving DecidableEq, Repr

def RegistryCall.program (r : ClientRegistry) : RegistryCall → RegistryProgram Unit
  | .register fd => cregRegister fd
  | .unregister fd => cregUnregister fd (r.heap.keys.card + 1)
  | .shutdownAll => cregShutdownAll r.numOfClients.toNat

namespace ClientRegistry
variable (malloc : Allocator Int)

def call (r : ClientRegistry) (call : RegistryCall) : Option ClientRegistry :=
  ((call.program r).run (exec malloc) r).map Prod.snd

def wouldClose (r : ClientRegistry) : Option (List Int) :=
  ((cregShutdownAll r.numOfClients.toNat).run (exec malloc) { r with closed := [] }).map fun ran => ran.2.closed

def Refines (r : ClientRegistry) (fds : Multiset Int) : Prop :=
  r.numOfClients = fds.card ∧ ∃ closed, r.wouldClose malloc = some closed ∧ (closed : Multiset Int) = fds

end ClientRegistry

/-! ### The multiset -/

/-- The descriptors registered, and whether the last one was unregistered since the registry
was last empty. -/
structure Ledger where
  fds : Multiset Int
  emptied : Bool

namespace Ledger

def registered (fds : Multiset Int) : RegistryCall → Multiset Int
  | .register fd => fd ::ₘ fds
  | .unregister fd => fds.erase fd
  | .shutdownAll => 0

def emptiedBy (ledger : Ledger) : RegistryCall → Bool
  | .register _ | .shutdownAll => false
  | .unregister fd => if fd ∈ ledger.fds ∧ ledger.fds.card = 1 then true else ledger.emptied

def step (ledger : Ledger) (call : RegistryCall) : Option Ledger :=
  some ⟨registered ledger.fds call, ledger.emptiedBy call⟩

/-- A descriptor that is not registered is not unregistered from a registry that holds one
descriptor, or none after the last was unregistered. -/
def Careful (ledger : Ledger) : RegistryCall → Prop
  | .unregister fd => fd ∉ ledger.fds → ledger.fds.card ≠ 1 ∧ ledger.emptied = false
  | _ => True

instance (ledger : Ledger) (call : RegistryCall) : Decidable (ledger.Careful call) := by
  cases call <;> unfold Careful <;> infer_instance

end Ledger

/-- The registry is intact, or empty and dangling once it has been emptied. -/
inductive Represents (r : ClientRegistry) : Ledger → Prop
  | intact {nodes} (intact : r.Intact nodes) : Represents r ⟨(nodes.map Prod.snd : List Int), false⟩
  | dangling (dangling : r.Dangling) : Represents r ⟨0, true⟩

/-! ### One call -/

section Calls
variable (malloc : Allocator Int) {r : ClientRegistry} {ledger : Ledger}

theorem refines_of_represents (represents : Represents r ledger) : r.Refines malloc ledger.fds := by
  cases represents with
  | @intact nodes intact =>
    refine ⟨by simp [intact.counted], nodes.map Prod.snd, ?_, rfl⟩
    have cleared : ({ r with closed := [] } : ClientRegistry).Intact nodes := ⟨intact.1, intact.2, intact.3⟩
    have ran := cregShutdownAll_intact malloc cleared
    rw [wouldClose, ran]
    rfl
  | dangling dangling =>
    have cleared : ({ r with closed := [] } : ClientRegistry).Dangling := ⟨dangling.1, dangling.2, dangling.3⟩
    have ran := cregShutdownAll_dangling malloc cleared
    refine ⟨by simp [dangling.empty], [], ?_, rfl⟩
    rw [wouldClose, ran]
    rfl

theorem call_of_run {malloc : Allocator Int} {call : RegistryCall} {t : ClientRegistry}
    (ran : (call.program r).run (exec malloc) r = some ((), t)) : r.call malloc call = some t := by
  rw [ClientRegistry.call, ran]
  rfl

theorem eq_of_run {malloc : Allocator Int} {call : RegistryCall} {t u : ClientRegistry}
    (called : r.call malloc call = some t) (ran : (call.program r).run (exec malloc) r = some ((), u)) : t = u :=
  Option.some.inj (called.symm.trans (call_of_run ran))

theorem represents_register (represents : Represents r ledger) (fd : Int) :
    ∃ t, r.call malloc (.register fd) = some t ∧ Represents t ⟨fd ::ₘ ledger.fds, false⟩ := by
  cases represents with
  | intact intact =>
    obtain ⟨a, t, ran, pushed⟩ := cregRegister_intact malloc fd intact
    exact ⟨t, call_of_run ran, .intact pushed⟩
  | dangling dangling =>
    obtain ⟨a, t, ran, pushed⟩ := cregRegister_dangling malloc fd dangling
    exact ⟨t, call_of_run ran, .intact pushed⟩

theorem represents_shutdownAll (represents : Represents r ledger) :
    ∃ t, r.call malloc .shutdownAll = some t ∧ Represents t ⟨0, false⟩ := by
  have shut : ∀ closed, ClientRegistry.Intact
      { r with numOfClients := 0, registeredFds := none, closed := closed } [] := by
    cases represents with
    | intact intact => exact fun closed => ⟨intact.unlocked, rfl, .nil⟩
    | dangling dangling => exact fun closed => ⟨dangling.unlocked, rfl, .nil⟩
  cases represents with
  | intact intact => exact ⟨_, call_of_run (cregShutdownAll_intact malloc intact), .intact (shut _)⟩
  | dangling dangling => exact ⟨_, call_of_run (cregShutdownAll_dangling malloc dangling), .intact (shut _)⟩

theorem unregister_one {a : Nat} {value : Int} (intact : r.Intact [(a, value)]) (fd : Int) :
    ∃ t, r.call malloc (.unregister fd) = some t ∧ t.Dangling := by
  obtain ⟨head, next, stored, _, _⟩ := intact.chain.head
  have ran := cregUnregister_one malloc fd (r.heap.keys.card + 1) intact.unlocked intact.counted head
    (Finmap.mem_of_lookup_eq_some stored)
  exact ⟨_, call_of_run ran, ⟨intact.unlocked, rfl, a, head, Finmap.notMem_erase_self⟩⟩

theorem unregister_last {nodes : List (Nat × Int)} (intact : r.Intact nodes) (one : nodes.length = 1) {fd : Int}
    {t : ClientRegistry} (called : r.call malloc (.unregister fd) = some t) : t.Dangling := by
  obtain ⟨⟨a, value⟩, rfl⟩ := List.length_eq_one_iff.mp one
  obtain ⟨u, called', dangling⟩ := unregister_one malloc intact fd
  obtain rfl : t = u := Option.some.inj (called.symm.trans called')
  exact dangling

theorem unregister_dangling (dangling : r.Dangling) {fd : Int} : r.call malloc (.unregister fd) = none := by
  have stuck := cregUnregister_dangling malloc fd dangling (r.heap.keys.card + 1)
  rw [ClientRegistry.call, RegistryCall.program, stuck]
  rfl

theorem represents_unregister (represents : Represents r ledger) {fd : Int}
    (careful : ledger.Careful (.unregister fd)) :
    ∃ t, r.call malloc (.unregister fd) = some t ∧
      Represents t ⟨ledger.fds.erase fd, ledger.emptiedBy (.unregister fd)⟩ := by
  cases represents with
  | @intact nodes intact =>
    by_cases present : fd ∈ nodes.map Prod.snd
    · by_cases one : nodes.length = 1
      · obtain ⟨⟨a, value⟩, rfl⟩ := List.length_eq_one_iff.mp one
        obtain rfl : fd = value := by simpa using present
        obtain ⟨t, called, dangling⟩ := unregister_one malloc intact fd
        refine ⟨t, called, ?_⟩
        simpa [Ledger.emptiedBy] using Represents.dangling dangling
      · obtain ⟨left, t, ran, kept, values⟩ := cregUnregister_present malloc fd intact one present
        refine ⟨t, call_of_run ran, ?_⟩
        have represents := Represents.intact kept
        rw [values] at represents
        simpa [Ledger.emptiedBy, one] using represents
    · have absent : fd ∉ (nodes.map Prod.snd : Multiset Int) := present
      have several : nodes.length ≠ 1 := by simpa using (careful absent).1
      have ran := cregUnregister_absent malloc fd intact several present
      refine ⟨r, call_of_run ran, ?_⟩
      rw [Multiset.erase_of_notMem absent]
      simpa [Ledger.emptiedBy, several] using Represents.intact intact
  | dangling dangling => simpa using (careful (by simp)).2

/-- A call that is not careful either has no result or loses a client that is registered. -/
theorem not_refines_unregister (represents : Represents r ledger) {fd : Int}
    (careless : ¬ ledger.Careful (.unregister fd)) {t : ClientRegistry}
    (called : r.call malloc (.unregister fd) = some t) : ¬ t.Refines malloc (ledger.fds.erase fd) := by
  cases represents with
  | @intact nodes intact =>
    simp only [Ledger.Careful, and_true, not_forall, not_not] at careless
    obtain ⟨absent, one⟩ := careless
    have length : nodes.length = 1 := by simpa using one
    have dangling := unregister_last malloc intact length called
    rintro ⟨count, _⟩
    rw [Multiset.erase_of_notMem absent, dangling.empty] at count
    simp [length] at count
  | dangling dangling =>
    rw [unregister_dangling malloc dangling] at called
    cases called

theorem represents_call (represents : Represents r ledger) {call : RegistryCall} (careful : ledger.Careful call) :
    ∃ t, r.call malloc call = some t ∧ Represents t ⟨Ledger.registered ledger.fds call, ledger.emptiedBy call⟩ := by
  cases call with
  | register fd => exact represents_register malloc represents fd
  | unregister fd => exact represents_unregister malloc represents careful
  | shutdownAll => exact represents_shutdownAll malloc represents

theorem careful_of_refines (represents : Represents r ledger) {call : RegistryCall} {t : ClientRegistry}
    (called : r.call malloc call = some t) (refines : t.Refines malloc (Ledger.registered ledger.fds call)) :
    ledger.Careful call := by
  by_contra careless
  cases call with
  | register fd => exact careless trivial
  | unregister fd => exact not_refines_unregister malloc represents careless called refines
  | shutdownAll => exact careless trivial

end Calls

/-! ### Sequences of calls -/

/-- After each of the calls the registry has a state, which shows the multiset. -/
def RefinesThroughout (malloc : Allocator Int) (r : ClientRegistry) (fds : Multiset Int)
    (calls : List RegistryCall) : Prop :=
  ∀ count, ∃ t, runs (ClientRegistry.call malloc) r (calls.take count) = some t ∧
    t.Refines malloc ((calls.take count).foldl Ledger.registered fds)

theorem refinesThroughout_cons (malloc : Allocator Int) (r : ClientRegistry) (fds : Multiset Int)
    (call : RegistryCall) (rest : List RegistryCall) :
    RefinesThroughout malloc r fds (call :: rest) ↔ r.Refines malloc fds ∧ ∃ t, r.call malloc call = some t ∧
      RefinesThroughout malloc t (Ledger.registered fds call) rest := by
  constructor
  · intro throughout
    obtain ⟨_, same, now⟩ := throughout 0
    obtain rfl : r = _ := by simpa using same
    obtain ⟨t, first, _⟩ := throughout 1
    obtain ⟨t, called, same⟩ := runs_cons_iff.mp first
    refine ⟨now, t, called, fun count => ?_⟩
    obtain ⟨u, ran, later⟩ := throughout (count + 1)
    obtain ⟨t', called', ran'⟩ := runs_cons_iff.mp ran
    obtain rfl : t = t' := Option.some.inj (called.symm.trans called')
    exact ⟨u, ran', later⟩
  · rintro ⟨now, t, called, later⟩ count
    cases count with
    | zero => exact ⟨r, rfl, now⟩
    | succ count =>
      obtain ⟨u, ran, refines⟩ := later count
      exact ⟨u, runs_cons_iff.mpr ⟨t, called, ran⟩, refines⟩

theorem refinesThroughout_iff (malloc : Allocator Int) {r : ClientRegistry} {ledger : Ledger}
    (represents : Represents r ledger) (calls : List RegistryCall) :
    RefinesThroughout malloc r ledger.fds calls ↔ Guarded Ledger.step Ledger.Careful ledger calls := by
  induction calls generalizing r ledger with
  | nil => exact iff_of_true (fun count => ⟨r, by simp, by simpa using refines_of_represents malloc represents⟩) trivial
  | cons call rest ih =>
    rw [refinesThroughout_cons, and_iff_right (refines_of_represents malloc represents), Guarded]
    constructor
    · rintro ⟨t, called, later⟩
      obtain ⟨_, same, refines⟩ := later 0
      obtain rfl : t = _ := by simpa using same
      -- A call after which the registry shows the multiset was careful, so `Represents` goes on.
      have careful := careful_of_refines malloc represents called refines
      obtain ⟨t', called', kept⟩ := represents_call malloc represents careful
      obtain rfl : t = t' := Option.some.inj (called.symm.trans called')
      refine ⟨careful, fun next stepped => ?_⟩
      cases stepped
      exact (ih kept).mp later
    · rintro ⟨careful, later⟩
      obtain ⟨t, called, kept⟩ := represents_call malloc represents careful
      exact ⟨t, called, (ih kept).mpr (later _ rfl)⟩

/-- A new registry refines the multiset throughout a sequence of calls exactly if all of its
calls are careful. -/
theorem registry_refines_iff (malloc : Allocator Int) (heap : Heap Int) (calls : List RegistryCall) :
    RefinesThroughout malloc (cregInit heap) 0 calls ↔ Guarded Ledger.step Ledger.Careful ⟨0, false⟩ calls :=
  refinesThroughout_iff malloc (.intact (r := cregInit heap) ⟨rfl, rfl, .nil⟩) calls

theorem registry_loses_client :
    ¬ RefinesThroughout (.beyond Int) (cregInit ∅) 0 [.register 3, .unregister 5] := by
  intro throughout
  obtain ⟨t, ran, count, _⟩ := throughout 2
  have counts : (runs (ClientRegistry.call (.beyond Int)) (cregInit ∅) [.register 3, .unregister 5]).map
      (fun r => r.numOfClients) = some 0 := by decide
  rw [show [RegistryCall.register 3, .unregister 5].take 2 = [.register 3, .unregister 5] from rfl] at ran
  rw [ran] at counts
  simp only [Option.map_some, Option.some_inj] at counts
  rw [counts] at count
  simp [Ledger.registered] at count

end MazeWar
