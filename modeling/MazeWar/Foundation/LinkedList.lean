import Mathlib.Data.Finmap
import Mathlib.Tactic

/-!
# Linked lists in a heap

Singly linked, NULL-terminated lists of nodes in a heap whose domain is the set of live
blocks. `Chain heap p nodes` says that following `next` from `p` visits these nodes.
-/

namespace Foundation

structure Node (V : Type) where
  value : V
  next : Option Nat
  deriving DecidableEq, Repr

abbrev Heap (V : Type) := Finmap fun _ : Nat => Node V

/-- The choice of an address for a new block: one that is not live. -/
structure Allocator (V : Type) where
  choose : Heap V → Nat
  fresh : ∀ heap, choose heap ∉ heap

theorem beyond_notMem {V : Type} (blocks : Finmap fun _ : Nat => V) : blocks.keys.sup id + 1 ∉ blocks := by
  intro live
  have bound : blocks.keys.sup id + 1 ≤ blocks.keys.sup id := Finset.le_sup (f := id) (Finmap.mem_keys.mpr live)
  omega

def Allocator.beyond (V : Type) : Allocator V where
  choose heap := heap.keys.sup id + 1
  fresh heap := beyond_notMem heap

variable {V : Type} {heap heap' : Heap V} {p : Option Nat} {a b : Nat} {v w : V} {nodes rest : List (Nat × V)}

inductive Chain (heap : Heap V) : Option Nat → List (Nat × V) → Prop
  | nil : Chain heap none []
  | cons {a v next rest} (stored : heap.lookup a = some ⟨v, next⟩) (apart : a ∉ rest.map Prod.fst)
      (tail : Chain heap next rest) : Chain heap (some a) ((a, v) :: rest)

theorem Chain.live (chain : Chain heap p nodes) : ∀ a ∈ nodes.map Prod.fst, a ∈ heap := by
  induction chain with
  | nil => simp
  | cons stored apart tail ih =>
    intro a present
    rcases List.mem_cons.mp present with rfl | present
    · exact Finmap.mem_of_lookup_eq_some stored
    · exact ih a present

theorem Chain.stored (chain : Chain heap p nodes) (present : (a, v) ∈ nodes) :
    ∃ next, heap.lookup a = some ⟨v, next⟩ := by
  induction chain with
  | nil => simp at present
  | cons stored apart tail ih =>
    rcases List.mem_cons.mp present with same | present
    · obtain ⟨rfl, rfl⟩ := Prod.mk.inj same
      exact ⟨_, stored⟩
    · exact ih present

theorem Chain.pointer (chain : Chain heap p nodes) : p = nodes.head?.map Prod.fst := by
  cases chain <;> rfl

theorem Chain.nodup (chain : Chain heap p nodes) : (nodes.map Prod.fst).Nodup := by
  induction chain with
  | nil => exact List.nodup_nil
  | cons stored apart tail ih => exact List.nodup_cons.mpr ⟨apart, ih⟩

theorem Chain.length_le (chain : Chain heap p nodes) : nodes.length ≤ heap.keys.card := by
  rw [← List.length_map Prod.fst, ← List.toFinset_card_of_nodup chain.nodup]
  exact Finset.card_le_card fun a present => Finmap.mem_keys.mpr (chain.live a (List.mem_toFinset.mp present))

theorem Chain.frame (chain : Chain heap p nodes)
    (same : ∀ a ∈ nodes.map Prod.fst, heap'.lookup a = heap.lookup a) : Chain heap' p nodes := by
  induction chain with
  | nil => exact .nil
  | cons stored apart tail ih =>
    refine .cons ((same _ List.mem_cons_self).trans stored) apart (ih fun a present => ?_)
    exact same a (List.mem_cons_of_mem _ present)

theorem Chain.push (chain : Chain heap p nodes) (new : a ∉ heap) :
    Chain (heap.insert a ⟨v, p⟩) (some a) ((a, v) :: nodes) := by
  have apart : a ∉ nodes.map Prod.fst := fun present => new (chain.live a present)
  refine .cons (Finmap.lookup_insert heap) apart (chain.frame fun b present => ?_)
  exact Finmap.lookup_insert_of_ne heap (ne_of_mem_of_not_mem present apart)

theorem Chain.erase_other (chain : Chain heap p nodes) (other : a ∉ nodes.map Prod.fst) :
    Chain (heap.erase a) p nodes :=
  chain.frame fun _ present => Finmap.lookup_erase_ne (ne_of_mem_of_not_mem present other)

theorem Chain.insert_other {node : Node V} (chain : Chain heap p nodes) (other : a ∉ nodes.map Prod.fst) :
    Chain (heap.insert a node) p nodes :=
  chain.frame fun _ present => Finmap.lookup_insert_of_ne heap (ne_of_mem_of_not_mem present other)

theorem Chain.head (chain : Chain heap p ((a, v) :: rest)) :
    p = some a ∧ ∃ next, heap.lookup a = some ⟨v, next⟩ ∧ a ∉ rest.map Prod.fst ∧ Chain heap next rest := by
  cases chain with
  | cons stored apart tail => exact ⟨rfl, _, stored, apart, tail⟩

theorem Chain.behind (chain : Chain heap p (nodes ++ (a, v) :: rest)) :
    ∃ next, heap.lookup a = some ⟨v, next⟩ ∧ Chain heap next rest := by
  induction nodes generalizing p with
  | nil =>
    obtain ⟨_, next, stored, _, tail⟩ := chain.head
    exact ⟨next, stored, tail⟩
  | cons node nodes ih =>
    obtain ⟨_, _, _, _, tail⟩ := chain.head
    exact ih tail

theorem Chain.unlink_second (chain : Chain heap p ((a, v) :: (b, w) :: rest)) {next : Option Nat}
    (stored : heap.lookup b = some ⟨w, next⟩) :
    Chain ((heap.insert a ⟨v, next⟩).erase b) p ((a, v) :: rest) := by
  obtain ⟨rfl, between, _, apart, second⟩ := chain.head
  obtain ⟨rfl, next', stored', apart', tail⟩ := second.head
  obtain rfl : next = next' := by
    rw [stored] at stored'
    injection stored' with same
    injection same
  simp only [List.map_cons, List.mem_cons, not_or] at apart
  refine .cons ?_ apart.2 ((tail.insert_other apart.2).erase_other apart')
  rw [Finmap.lookup_erase_ne apart.1, Finmap.lookup_insert]

theorem Chain.unlink_behind (chain : Chain heap p (nodes ++ (a, v) :: (b, w) :: rest)) {next : Option Nat}
    (stored : heap.lookup b = some ⟨w, next⟩) :
    Chain ((heap.insert a ⟨v, next⟩).erase b) p (nodes ++ (a, v) :: rest) := by
  induction nodes generalizing p with
  | nil => exact chain.unlink_second stored
  | cons node nodes ih =>
    obtain ⟨c, u⟩ := node
    rw [List.cons_append] at chain
    obtain ⟨rfl, following, here, apart, tail⟩ := chain.head
    simp only [List.map_append, List.map_cons, List.mem_append, List.mem_cons, not_or] at apart
    obtain ⟨notBefore, notFirst, notSecond, notAfter⟩ := apart
    refine .cons ?_ ?_ (ih tail)
    · rw [Finmap.lookup_erase_ne notSecond, Finmap.lookup_insert_of_ne _ notFirst]
      exact here
    · simp [notBefore, notFirst, notAfter]

/-- The first nodes of a list, as far as it goes. -/
def follow (heap : Heap V) : Nat → Option Nat → List (Nat × V)
  | fuel + 1, some a => ((heap.lookup a).map fun node => (a, node.value) :: follow heap fuel node.next).getD []
  | _, _ => []

theorem Chain.follow (chain : Chain heap p nodes) : follow heap nodes.length p = nodes := by
  induction chain with
  | nil => rfl
  | cons stored apart tail ih => simp [Foundation.follow, stored, ih]

end Foundation
