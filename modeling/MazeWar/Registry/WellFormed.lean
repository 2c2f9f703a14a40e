import MazeWar.Registry.Refinement

/-!
# The list of the registry

The list that starts at `registered_fds` has as many nodes as `num_of_clients` says, after every
call but one: `creg_unregister` on a registry with one client frees the node and leaves the list
pointing at it.
-/

namespace MazeWar
open Foundation ClientRegistry

namespace ClientRegistry
variable {malloc : Allocator Int} {r t : ClientRegistry} {nodes : List (Nat × Int)}

/-- Following `next` from `registered_fds` visits `num_of_clients` live and distinct nodes and ends
in NULL; without clients the list is NULL. -/
structure WellFormed (r : ClientRegistry) : Prop where
  list : ∃ nodes, Chain r.heap r.registeredFds nodes ∧ r.numOfClients = nodes.length
  null : r.numOfClients = 0 → r.registeredFds = none

theorem Intact.wellFormed (intact : r.Intact nodes) : r.WellFormed where
  list := ⟨nodes, intact.chain, intact.counted⟩
  null := by
    intro none
    rw [intact.counted, Int.natCast_eq_zero, List.length_eq_zero_iff] at none
    rw [intact.chain.pointer, none]
    rfl

theorem Dangling.not_wellFormed (dangling : r.Dangling) : ¬ r.WellFormed := by
  intro wellFormed
  obtain ⟨a, head, _⟩ := dangling.freed
  rw [wellFormed.null dangling.empty] at head
  cases head

/-- `creg_unregister` is not called while exactly one client is registered. -/
def Several (r : ClientRegistry) : RegistryCall → Prop
  | .unregister _ => r.numOfClients ≠ 1
  | .register _ | .shutdownAll => True

instance (r : ClientRegistry) : (call : RegistryCall) → Decidable (r.Several call)
  | .unregister _ => inferInstanceAs (Decidable (r.numOfClients ≠ 1))
  | .register _ | .shutdownAll => .isTrue trivial

theorem intact_call (malloc : Allocator Int) (intact : r.Intact nodes) {call : RegistryCall} (several : r.Several call) :
    ∃ t, r.call malloc call = some t ∧ ∃ nodes, t.Intact nodes := by
  cases call with
  | register fd =>
    obtain ⟨a, t, ran, pushed⟩ := cregRegister_intact malloc fd intact
    exact ⟨t, call_of_run ran, _, pushed⟩
  | unregister fd =>
    have others : nodes.length ≠ 1 := by
      intro one
      exact several (by rw [intact.counted, one]; rfl)
    by_cases present : fd ∈ nodes.map Prod.snd
    · obtain ⟨left, t, ran, kept, _⟩ := cregUnregister_present malloc fd intact others present
      exact ⟨t, call_of_run ran, left, kept⟩
    · exact ⟨r, call_of_run (cregUnregister_absent malloc fd intact others present), nodes, intact⟩
  | shutdownAll =>
    exact ⟨_, call_of_run (cregShutdownAll_intact malloc intact), [], ⟨intact.unlocked, rfl, .nil⟩⟩

theorem intact_unregister_last (intact : r.Intact nodes) {call : RegistryCall} (last : ¬ r.Several call)
    (called : r.call malloc call = some t) : t.Dangling := by
  cases call with
  | register fd | shutdownAll => exact absurd trivial last
  | unregister fd =>
    have one : nodes.length = 1 := by
      have counted := intact.counted
      rw [not_not.mp last] at counted
      exact_mod_cast counted.symm
    exact unregister_last malloc intact one called

end ClientRegistry

/-- Every call of a sequence returns, and leaves the list well formed, exactly if no call unregisters
a descriptor while one client is left. -/
theorem registry_wellFormed_iff (malloc : Allocator Int) (heap : Heap Int) (calls : List RegistryCall) :
    Throughout (ClientRegistry.call malloc) WellFormed (cregInit heap) calls ↔
      Guarded (ClientRegistry.call malloc) Several (cregInit heap) calls := by
  refine throughout_iff_guarded (I := fun r => ∃ nodes, r.Intact nodes) ?_ ?_ ?_ ⟨[], rfl, rfl, .nil⟩
  · intro r ⟨nodes, intact⟩
    exact intact.wellFormed
  · intro r call ⟨nodes, intact⟩ several
    exact intact_call malloc intact several
  · intro r call t ⟨nodes, intact⟩ last called
    exact (intact_unregister_last intact last called).not_wellFormed

theorem registry_list_dangles :
    ¬ Throughout (ClientRegistry.call (.beyond Int)) WellFormed (cregInit ∅) [.register 4, .unregister 4] := by
  intro throughout
  obtain ⟨t, ran, wellFormed⟩ := throughout 2
  have fields : (runs (ClientRegistry.call (.beyond Int)) (cregInit ∅)
      ([RegistryCall.register 4, .unregister 4].take 2)).map (fun r => (r.numOfClients, r.registeredFds)) =
        some (0, some 1) := by decide
  rw [ran, Option.map_some, Option.some_inj, Prod.mk.injEq] at fields
  rw [wellFormed.null fields.1] at fields
  cases fields.2

end MazeWar
