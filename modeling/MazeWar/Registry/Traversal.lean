import Mathlib.Logic.Relation
import MazeWar.Foundation.Runs
import MazeWar.Registry.Behavior

/-!
# The shutdown loop among other threads

`creg_shutdown_all` takes no semaphore. Its loop walks the list one test, one close and one
advance at a time while service threads register and unregister in between.
-/

namespace MazeWar
open Foundation ClientRegistry

/-- How far `creg_shutdown_all` has come; `i` and `temp` are the variables of its loop. -/
inductive Cursor where
  | notStarted
  | testing (i : Int) (temp : Option Nat)
  | closing (i : Int) (temp : Option Nat)
  | advancing (i : Int) (temp : Option Nat)
  | left
  | cleared
  | finished
  deriving DecidableEq, Repr

namespace Cursor

/-- The next step of `creg_shutdown_all`, up to where the cursor is then. -/
def program : Cursor → RegistryProgram Cursor
  | notStarted => do return testing 0 (← regCall .getRegisteredFds)
  | testing i temp => do return if i < (← regCall .getNumOfClients) then closing i temp else left
  | closing i temp => do
    regCall (.close (← regCall (.getCurrFd temp)))
    return advancing i temp
  | advancing i temp => do return testing (i + 1) (← regCall (.getNext temp))
  | left => do
    regCall (.setRegisteredFds none)
    return cleared
  | cleared => do
    regCall (.setNumOfClients 0)
    return finished
  | finished => return finished

def Past : Cursor → Prop
  | left | cleared | finished => True
  | notStarted | testing _ _ | closing _ _ | advancing _ _ => False

end Cursor

/-- One step of `creg_shutdown_all`; there is none once it has finished. -/
def traverse (malloc : Allocator Int) (place : Cursor × ClientRegistry) : Option (Cursor × ClientRegistry) :=
  if place.1 = .finished then none else place.1.program.run (exec malloc) place.2

section Uninterrupted
variable {malloc : Allocator Int} {r t : ClientRegistry} {fuel : Nat} {i : Int} {temp : Option Nat} {node : Fd}

theorem traverse_testing : traverse malloc (.testing i temp, r) =
    some (if i < r.numOfClients then .closing i temp else .left, r) := rfl

theorem traverse_closing (read : r.read temp = some node) : traverse malloc (.closing i temp, r) =
    some (.advancing i temp, { r with closed := r.closed ++ [node.value] }) := by
  simp [traverse, Cursor.program, regCall, Program.run_call, exec, read]

theorem traverse_advancing (read : r.read temp = some node) : traverse malloc (.advancing i temp, r) =
    some (.testing (i + 1) node.next, r) := by
  simp [traverse, Cursor.program, regCall, Program.run_call, exec, read]

abbrev Traverses (malloc : Allocator Int) : Cursor × ClientRegistry → Cursor × ClientRegistry → Prop :=
  Relation.ReflTransGen fun before after => traverse malloc before = some after

theorem traverses_loop (ran : (cregShutdownLoop fuel i temp).run (exec malloc) r = some ((), t)) :
    Traverses malloc (.testing i temp, r) (.left, t) := by
  induction fuel generalizing r i temp with
  | zero =>
    by_cases more : i < r.numOfClients
    · simp [cregShutdownLoop, regCall, Program.run_call, exec, more, Program.run_perform] at ran
    · obtain rfl : r = t := by simpa [cregShutdownLoop, regCall, Program.run_call, exec, more] using ran
      exact .single (by rw [traverse_testing, if_neg more])
  | succ fuel ih =>
    by_cases more : i < r.numOfClients
    · cases read : r.read temp with
      | none => simp [cregShutdownLoop, regCall, Program.run_call, exec, more, read] at ran
      | some node =>
        have ran' : (cregShutdownLoop fuel (i + 1) node.next).run (exec malloc)
            { r with closed := r.closed ++ [node.value] } = some ((), t) := by
          have again : ClientRegistry.read temp { r with closed := r.closed ++ [node.value] } = some node := read
          simpa [cregShutdownLoop, regCall, Program.run_call, exec, more, read, again] using ran
        refine .head (by rw [traverse_testing, if_pos more]) (.head (traverse_closing read) (.head ?_ (ih ran')))
        exact traverse_advancing read
    · obtain rfl : r = t := by simpa [cregShutdownLoop, regCall, Program.run_call, exec, more] using ran
      exact .single (by rw [traverse_testing, if_neg more])

/-- Undisturbed, the steps are those of `creg_shutdown_all`. -/
theorem traverses_shutdownAll (ran : (cregShutdownAll fuel).run (exec malloc) r = some ((), t)) :
    Traverses malloc (.notStarted, r) (.finished, t) := by
  have whole : (cregShutdownAll fuel).run (exec malloc) r =
      ((cregShutdownLoop fuel 0 r.registeredFds).run (exec malloc) r).map fun answer =>
        ((), { answer.2 with registeredFds := none, numOfClients := 0 }) := by
    cases looped : (cregShutdownLoop fuel 0 r.registeredFds).run (exec malloc) r with
    | none => simp [cregShutdownAll, regCall, Program.run_bind, Program.run_call, exec, looped]
    | some answer =>
      simp [cregShutdownAll, regCall, Program.run_bind, Program.run_call, Program.run_perform, exec, looped]
  rw [whole] at ran
  obtain ⟨⟨_, u⟩, looped, ended⟩ := Option.map_eq_some_iff.mp ran
  cases ended
  exact .head rfl ((traverses_loop looped).trans (.head rfl (.single rfl)))

end Uninterrupted

/-- The registry with the threads whose descriptors are in it, and those among them that were
registered before the loop started. -/
structure Traversal (Thread : Type) where
  registry : ClientRegistry
  serving : Finset Thread
  watched : Finset Thread
  cursor : Cursor

inductive TraversalAction (Thread : Type) where
  | register (thread : Thread)
  | unregister (thread : Thread)
  | traverse

namespace Traversal
variable {Thread : Type} [DecidableEq Thread] (malloc : Allocator Int) (fd : Thread → Int)

def start (heap : Heap Int) : Traversal Thread := ⟨cregInit heap, ∅, ∅, .notStarted⟩

def step (s : Traversal Thread) : TraversalAction Thread → Option (Traversal Thread)
  | .register thread =>
    if thread ∉ s.serving then
      ((cregRegister (fd thread)).run (exec malloc) s.registry).map fun answer =>
        { s with registry := answer.2, serving := insert thread s.serving }
    else none
  | .unregister thread =>
    if thread ∈ s.serving then
      ((cregUnregister (fd thread) (s.registry.heap.keys.card + 1)).run (exec malloc) s.registry).map fun answer =>
        { s with registry := answer.2, serving := s.serving.erase thread, watched := s.watched.erase thread }
    else none
  | .traverse =>
    (MazeWar.traverse malloc (s.cursor, s.registry)).map fun answer =>
      { s with
        cursor := answer.1
        registry := answer.2
        watched := if s.cursor = .notStarted then s.serving else s.watched }

/-- The node that the loop is about to read is live, and once the loop has ended it has closed
every descriptor that has been registered since before it started. -/
structure Safe (s : Traversal Thread) : Prop where
  live : ∀ i temp, s.cursor = .closing i temp ∨ s.cursor = .advancing i temp →
    ∃ a, temp = some a ∧ a ∈ s.registry.heap
  closed : s.cursor.Past → ∀ thread ∈ s.watched, fd thread ∈ s.registry.closed

end Traversal

/-- The list, as far as the count goes. -/
def ClientRegistry.nodes (r : ClientRegistry) : List (Nat × Int) :=
  follow r.heap r.numOfClients.toNat r.registeredFds

/-- The position of the node that unregistering the descriptor frees. -/
def ClientRegistry.victim (r : ClientRegistry) (fd : Int) : Nat := r.nodes.findIdx fun node => node.2 = fd

/-- The position of the node that a pointer points to. -/
def ClientRegistry.position (r : ClientRegistry) (temp : Option Nat) : Nat :=
  r.nodes.findIdx fun node => some node.1 = temp

namespace Traversal
variable {Thread : Type} [DecidableEq Thread] (malloc : Allocator Int) (fd : Thread → Int)

/-- While the loop runs, a thread registers only if the index is past the count all the same, and
one that unregisters takes out a node behind the cursor, or there is nothing more for the loop to
visit: before a test, no node or only the one taken out; after it, none but the one that the
cursor is at. -/
def Undisturbed (s : Traversal Thread) : TraversalAction Thread → Prop
  | .register _ =>
    match s.cursor with
    | .testing i _ => s.registry.numOfClients < i
    | .closing i _ | .advancing i _ => s.registry.numOfClients ≤ i
    | .notStarted | .left | .cleared | .finished => True
  | .unregister thread =>
    match s.cursor with
    | .testing i temp => s.registry.position temp < s.registry.victim (fd thread) ∨ s.registry.numOfClients ≤ i ∨
        s.registry.position temp = s.registry.victim (fd thread) ∧ s.registry.numOfClients ≤ i + 1
    | .closing i temp | .advancing i temp => s.registry.position temp < s.registry.victim (fd thread) ∨
        s.registry.position temp ≠ s.registry.victim (fd thread) ∧ s.registry.numOfClients ≤ i + 1
    | .notStarted | .left | .cleared | .finished => True
  | .traverse => True

instance (s : Traversal Thread) (action : TraversalAction Thread) : Decidable (Undisturbed fd s action) := by
  obtain ⟨r, serving, watched, cursor⟩ := s
  cases action <;> cases cursor <;> dsimp only [Undisturbed] <;> infer_instance

end Traversal

/-! ### The list under the cursor -/

/-- The nodes in the registry: those of an intact list, or none when the list is a freed block. -/
def Lists (r : ClientRegistry) (nodes : List (Nat × Int)) : Prop :=
  r.Intact nodes ∨ nodes = [] ∧ r.Dangling

section Lists
variable {r : ClientRegistry} {nodes passed ahead before after : List (Nat × Int)}
  {a b : Nat} {v fd : Int}

theorem Lists.count (lists : Lists r nodes) : r.numOfClients = nodes.length := by
  rcases lists with intact | ⟨rfl, dangling⟩
  · exact intact.counted
  · exact dangling.empty

theorem Lists.listed (lists : Lists r nodes) : r.nodes = nodes := by
  unfold ClientRegistry.nodes
  rcases lists with intact | ⟨rfl, dangling⟩
  · rw [intact.counted, Int.toNat_natCast, intact.chain.follow]
  · rw [dangling.empty]
    rfl

theorem Lists.intact (lists : Lists r nodes) (some : nodes ≠ []) : r.Intact nodes := by
  rcases lists with intact | ⟨none, _⟩
  · exact intact
  · exact absurd none some

theorem lists_register (malloc : Allocator Int) (fd : Int) (lists : Lists r nodes) : ∃ a t,
    (cregRegister fd).run (exec malloc) r = some ((), t) ∧ Lists t ((a, fd) :: nodes) := by
  rcases lists with intact | ⟨rfl, dangling⟩
  · obtain ⟨a, t, ran, pushed⟩ := cregRegister_intact malloc fd intact
    exact ⟨a, t, ran, Or.inl pushed⟩
  · obtain ⟨a, t, ran, pushed⟩ := cregRegister_dangling malloc fd dangling
    exact ⟨a, t, ran, Or.inl pushed⟩

theorem lists_unregister (malloc : Allocator Int) (lists : Lists r (before ++ (a, fd) :: after))
    (first : fd ∉ before.map Prod.snd) : ∃ t,
      (cregUnregister fd (r.heap.keys.card + 1)).run (exec malloc) r = some ((), t) ∧ Lists t (before ++ after) := by
  have intact := lists.intact (by simp)
  by_cases others : before ++ after = []
  · obtain ⟨rfl, rfl⟩ := List.append_eq_nil_iff.mp others
    obtain ⟨head, next, stored, _⟩ := intact.chain.head
    have ran := cregUnregister_one malloc fd (r.heap.keys.card + 1) intact.unlocked intact.counted head
      (Finmap.mem_of_lookup_eq_some stored)
    exact ⟨_, ran, Or.inr ⟨rfl, intact.unlocked, rfl, a, head, Finmap.notMem_erase_self⟩⟩
  · obtain ⟨t, ran, left, _⟩ := cregUnregister_first malloc fd intact first others
    exact ⟨t, ran, Or.inl left⟩

/-! ### Positions -/

theorem findIdx_first {p : Nat × Int → Bool} (others : ∀ node ∈ before, p node = false) (here : p (a, v) = true) :
    (before ++ (a, v) :: after).findIdx p = before.length := by
  induction before with
  | nil => simp [List.findIdx_cons, here]
  | cons node before ih =>
    obtain ⟨first, others⟩ := List.forall_mem_cons.mp others
    simp [List.findIdx_cons, first, ih others]

theorem Lists.victim (lists : Lists r (before ++ (a, fd) :: after)) (first : fd ∉ before.map Prod.snd) :
    r.victim fd = before.length := by
  unfold ClientRegistry.victim
  rw [lists.listed]
  refine findIdx_first (fun node member => decide_eq_false fun same => ?_) (decide_eq_true rfl)
  exact first (List.mem_map.mpr ⟨node, member, same⟩)

theorem Lists.position (lists : Lists r (passed ++ (a, v) :: ahead)) : r.position (some a) = passed.length := by
  have distinct := (lists.intact (by simp)).chain.nodup
  rw [List.map_append, List.nodup_append] at distinct
  unfold ClientRegistry.position
  rw [lists.listed]
  refine findIdx_first (fun node member => decide_eq_false fun same => ?_) (decide_eq_true rfl)
  exact distinct.2.2 node.1 (List.mem_map_of_mem member) a List.mem_cons_self (Option.some.inj same)

end Lists

/-- Every node has been closed. -/
def Covered (closed : List Int) (nodes : List (Nat × Int)) : Prop := ∀ node ∈ nodes, node.2 ∈ closed

/-- The nodes split at the one that a pointer points to, the ones before it closed. -/
structure Split (nodes : List (Nat × Int)) (closed : List Int) (temp : Option Nat) (passed : List (Nat × Int))
    (a : Nat) (v : Int) (ahead : List (Nat × Int)) : Prop where
  nodes : nodes = passed ++ (a, v) :: ahead
  temp : temp = some a
  covered : Covered closed passed

/-- The cursor is at the node with the index `i`, and those before it are closed. -/
def Tracks (nodes : List (Nat × Int)) (closed : List Int) : Cursor → Prop
  | .notStarted => True
  | .testing i temp | .closing i temp =>
    ∃ passed a v ahead, Split nodes closed temp passed a v ahead ∧ i = passed.length
  | .advancing i temp => ∃ passed a v ahead, Split nodes closed temp passed a v ahead ∧ i = passed.length ∧ v ∈ closed
  | .left | .cleared | .finished => False

/-! ### Taking a node out -/

section Remove
variable {nodes passed ahead before after : List (Nat × Int)} {closed : List Int} {temp : Option Nat} {a b : Nat}
  {v fd : Int} {i : Int}

/-- Two marked places in one list: the second lies behind the first, at it, or before it. -/
theorem marked_cases (same : before ++ (b, fd) :: after = passed ++ (a, v) :: ahead) :
    (∃ between, before = passed ++ (a, v) :: between ∧ ahead = between ++ (b, fd) :: after) ∨
    (before = passed ∧ (b, fd) = (a, v) ∧ after = ahead) ∨
    ∃ between, passed = before ++ (b, fd) :: between ∧ after = between ++ (a, v) :: ahead := by
  rcases List.append_eq_append_iff.mp same with ⟨rest, front, back⟩ | ⟨rest, front, back⟩
  · cases rest with
    | nil =>
      obtain ⟨node, tail⟩ := List.cons.inj (back.trans (List.nil_append _))
      exact Or.inr (Or.inl ⟨(front.trans (List.append_nil _)).symm, node, tail⟩)
    | cons node rest =>
      obtain ⟨rfl, tail⟩ := List.cons.inj back
      exact Or.inr (Or.inr ⟨rest, front, tail⟩)
  · cases rest with
    | nil =>
      obtain ⟨node, tail⟩ := List.cons.inj (back.trans (List.nil_append _))
      exact Or.inr (Or.inl ⟨front.trans (List.append_nil _), node.symm, tail.symm⟩)
    | cons node rest =>
      obtain ⟨rfl, tail⟩ := List.cons.inj back
      exact Or.inl ⟨rest, front, tail⟩

/-- Taking out a node behind the one at the cursor. -/
theorem Split.remove_behind (split : Split (before ++ (b, fd) :: after) closed temp passed a v ahead)
    (behind : passed.length < before.length) : ∃ rest, Split (before ++ after) closed temp passed a v rest := by
  rcases marked_cases split.nodes with ⟨between, rfl, rfl⟩ | ⟨rfl, _, _⟩ | ⟨between, rfl, _⟩
  · exact ⟨between ++ after, by simp, split.temp, split.covered⟩
  · omega
  · simp only [List.length_append, List.length_cons] at behind
    omega

theorem Split.length (split : Split nodes closed temp passed a v ahead) :
    nodes.length = passed.length + ahead.length + 1 := by
  rw [split.nodes, List.length_append, List.length_cons]
  omega

theorem Split.position {r : ClientRegistry} (lists : Lists r nodes)
    (split : Split nodes closed temp passed a v ahead) : r.position temp = passed.length := by
  rw [split.temp]
  exact (split.nodes ▸ lists).position

/-- A node with another position stays. -/
theorem Lists.remove_other {r : ClientRegistry} (lists : Lists r (before ++ (b, fd) :: after))
    (member : (a, v) ∈ before ++ (b, fd) :: after) (apart : r.position (some a) ≠ before.length) :
    (a, v) ∈ before ++ after := by
  rcases List.mem_append.mp member with early | late
  · exact List.mem_append_left _ early
  · rcases List.mem_cons.mp late with same | late
    · obtain ⟨rfl, _⟩ := Prod.mk.inj same
      exact absurd lists.position apart
    · exact List.mem_append_right _ late

theorem length_remove (before after : List (Nat × Int)) (node : Nat × Int) :
    (before ++ node :: after).length = (before ++ after).length + 1 := by
  simp only [List.length_append, List.length_cons]
  omega

end Remove

/-! ### Steps of the loop -/

section Steps
variable {nodes passed ahead : List (Nat × Int)} {closed further : List Int} {temp : Option Nat} {a : Nat} {v : Int}

theorem Covered.append (covered : Covered closed nodes) : Covered (closed ++ further) nodes :=
  fun node member => List.mem_append_left _ (covered node member)

theorem Split.covered_next (split : Split nodes closed temp passed a v ahead) (done : v ∈ closed) :
    Covered closed (passed ++ [(a, v)]) := by
  intro node member
  rcases List.mem_append.mp member with early | here
  · exact split.covered node early
  · obtain rfl := List.mem_singleton.mp here
    exact done

theorem Tracks.split {cursor : Cursor} {i : Int} (tracks : Tracks nodes closed cursor)
    (inLoop : cursor = .testing i temp ∨ cursor = .closing i temp ∨ cursor = .advancing i temp) :
    ∃ passed a v ahead, Split nodes closed temp passed a v ahead ∧ i = passed.length := by
  rcases inLoop with rfl | rfl | rfl
  · exact tracks
  · exact tracks
  · obtain ⟨passed, a, v, ahead, split, index, _⟩ := tracks
    exact ⟨passed, a, v, ahead, split, index⟩

theorem Split.member (split : Split nodes closed temp passed a v ahead) : (a, v) ∈ nodes := by
  rw [split.nodes]
  exact List.mem_append_right _ List.mem_cons_self

theorem Lists.stored {r : ClientRegistry} (lists : Lists r nodes) (member : (a, v) ∈ nodes) :
    ∃ next, r.heap.lookup a = some ⟨v, next⟩ :=
  (lists.intact (List.ne_nil_of_mem member)).chain.stored member

theorem Lists.live {r : ClientRegistry} (lists : Lists r nodes) (member : (a, v) ∈ nodes) : a ∈ r.heap := by
  obtain ⟨next, stored⟩ := lists.stored member
  exact Finmap.mem_of_lookup_eq_some stored

theorem lists_close {r : ClientRegistry} (lists : Lists r nodes) (fd : Int) :
    Lists { r with closed := r.closed ++ [fd] } nodes := by
  rcases lists with intact | ⟨none, dangling⟩
  · exact Or.inl ⟨intact.unlocked, intact.counted, intact.chain⟩
  · exact Or.inr ⟨none, dangling.unlocked, dangling.empty, dangling.freed⟩

/-- The cursor moves on to the node that follows, unless it was at the last one. -/
theorem Split.advance {r : ClientRegistry} (lists : Lists r nodes) (split : Split nodes closed temp passed a v ahead)
    (done : v ∈ closed) : ∃ next, r.read temp = some ⟨v, next⟩ ∧
      ((nodes.length = passed.length + 1 ∧ Covered closed nodes) ∨
        Tracks nodes closed (.testing (passed.length + 1) next)) := by
  have chain := (lists.intact (List.ne_nil_of_mem split.member)).chain
  obtain ⟨next, stored, tail⟩ := (split.nodes ▸ chain).behind
  have whole : nodes = passed ++ [(a, v)] ++ ahead := by rw [split.nodes, List.append_assoc, List.singleton_append]
  refine ⟨next, split.temp ▸ read_some stored, ?_⟩
  cases ahead with
  | nil =>
    rw [List.append_nil] at whole
    exact Or.inl ⟨split.length, whole ▸ split.covered_next done⟩
  | cons node rest =>
    obtain ⟨b, w⟩ := node
    obtain ⟨head, _⟩ := tail.head
    refine Or.inr ⟨passed ++ [(a, v)], b, w, rest, ⟨whole, head, split.covered_next done⟩, ?_⟩
    rw [List.length_append]
    rfl

/-- A node is taken out while the cursor reads the one that it is at: the loop goes on as before,
or it was at the last node, which has moved down. -/
theorem Split.remove_reading {r : ClientRegistry} {before after passed ahead : List (Nat × Int)} {b a : Nat} {w v : Int}
    {closed : List Int} {temp : Option Nat} (lists : Lists r (before ++ (b, w) :: after))
    (split : Split (before ++ (b, w) :: after) closed temp passed a v ahead)
    (undisturbed : r.position temp < before.length ∨
      r.position temp ≠ before.length ∧ r.numOfClients ≤ (passed.length : Int) + 1) :
    (∃ rest, Split (before ++ after) closed temp passed a v rest) ∨
      temp = some a ∧ (a, v) ∈ before ++ after ∧ ((before ++ after).length : Int) ≤ passed.length + 1 ∧
        Covered (closed ++ [v]) (before ++ (b, w) :: after) := by
  have length := split.length
  have count := lists.count
  have shorter := length_remove before after (b, w)
  rcases undisturbed with behind | ⟨apart, last⟩
  · rw [split.position lists] at behind
    exact Or.inl (split.remove_behind behind)
  · have none : ahead = [] := List.length_eq_zero_iff.mp (by omega)
    have covered : Covered (closed ++ [v]) (before ++ (b, w) :: after) := by
      have next := Split.covered_next ⟨split.nodes, split.temp, split.covered.append⟩
        (List.mem_append_right closed (List.mem_singleton_self v))
      rw [split.nodes, none]
      exact next
    exact Or.inr ⟨split.temp, lists.remove_other split.member (split.temp ▸ apart), by omega, covered⟩

end Steps

/-! ### The invariant -/

namespace Traversal
variable {Thread : Type} [DecidableEq Thread] {malloc : Allocator Int} {fd : Thread → Int} {s t : Traversal Thread}
  {nodes : List (Nat × Int)} {thread : Thread}

def AllClosed (fd : Thread → Int) (watched : Finset Thread) (closed : List Int) : Prop :=
  ∀ thread ∈ watched, fd thread ∈ closed

/-- The nodes are those of the threads that are being served. -/
structure Serves (fd : Thread → Int) (r : ClientRegistry) (serving : Finset Thread) (nodes : List (Nat × Int)) :
    Prop where
  lists : Lists r nodes
  values : (↑(nodes.map Prod.snd) : Multiset Int) = serving.val.map fd

/-- Before the loop and in it: every node is visited in its turn. -/
structure Following (fd : Thread → Int) (s : Traversal Thread) (nodes : List (Nat × Int)) : Prop
    extends Serves fd s.registry s.serving nodes where
  watched : s.watched ⊆ s.serving
  tracks : Tracks nodes s.registry.closed s.cursor

/-- The index has reached the count: the loop ends at the next test. -/
def Ends (fd : Thread → Int) (watched : Finset Thread) (nodes : List (Nat × Int)) (closed : List Int) :
    Cursor → Prop
  | .testing i _ => nodes.length ≤ i ∧ AllClosed fd watched closed
  | .closing i temp => ∃ a v, temp = some a ∧ (a, v) ∈ nodes ∧ nodes.length ≤ i + 1 ∧
      AllClosed fd watched (closed ++ [v])
  | .advancing i temp => ∃ a v, temp = some a ∧ (a, v) ∈ nodes ∧ nodes.length ≤ i + 1 ∧ AllClosed fd watched closed
  | .notStarted | .left | .cleared | .finished => False

structure Finishing (fd : Thread → Int) (s : Traversal Thread) (nodes : List (Nat × Int)) : Prop
    extends Serves fd s.registry s.serving nodes where
  ends : Ends fd s.watched nodes s.registry.closed s.cursor

def Tracked (fd : Thread → Int) (s : Traversal Thread) : Prop :=
  (s.cursor.Past ∧ AllClosed fd s.watched s.registry.closed) ∨
    ∃ nodes, Following fd s nodes ∨ Finishing fd s nodes

section Invariant
omit [DecidableEq Thread]

theorem AllClosed.subset {watched fewer : Finset Thread} {closed : List Int} (all : AllClosed fd watched closed)
    (subset : fewer ⊆ watched) : AllClosed fd fewer closed :=
  fun thread member => all thread (subset member)

/-- When every node has been closed, so has the descriptor of every thread that is served. -/
theorem Serves.allClosed {r : ClientRegistry} {serving : Finset Thread} {closed : List Int}
    (serves : Serves fd r serving nodes) (covered : Covered closed nodes) : AllClosed fd serving closed := by
  intro thread member
  have value : fd thread ∈ (↑(nodes.map Prod.snd) : Multiset Int) := by
    rw [serves.values]
    exact Multiset.mem_map_of_mem fd member
  obtain ⟨node, present, same⟩ := List.mem_map.mp (Multiset.mem_coe.mp value)
  exact same ▸ covered node present

theorem Ends.node {watched : Finset Thread} {closed : List Int} {cursor : Cursor} {i : Int} {temp : Option Nat}
    (ends : Ends fd watched nodes closed cursor) (reading : cursor = .closing i temp ∨ cursor = .advancing i temp) :
    ∃ a v, temp = some a ∧ (a, v) ∈ nodes := by
  rcases reading with rfl | rfl
  · obtain ⟨a, v, pointed, member, _⟩ := ends
    exact ⟨a, v, pointed, member⟩
  · obtain ⟨a, v, pointed, member, _⟩ := ends
    exact ⟨a, v, pointed, member⟩

theorem Following.live (following : Following fd s nodes) {i : Int} {temp : Option Nat}
    (reading : s.cursor = .closing i temp ∨ s.cursor = .advancing i temp) :
    ∃ a, temp = some a ∧ a ∈ s.registry.heap := by
  obtain ⟨passed, a, v, ahead, split, _⟩ := following.tracks.split (Or.inr reading)
  exact ⟨a, split.temp, following.lists.live split.member⟩

theorem Finishing.live (finishing : Finishing fd s nodes) {i : Int} {temp : Option Nat}
    (reading : s.cursor = .closing i temp ∨ s.cursor = .advancing i temp) :
    ∃ a, temp = some a ∧ a ∈ s.registry.heap := by
  obtain ⟨a, v, pointed, member⟩ := finishing.ends.node reading
  exact ⟨a, pointed, finishing.lists.live member⟩

theorem Following.not_past (following : Following fd s nodes) : ¬ s.cursor.Past := by
  have tracks := following.tracks
  intro past
  cases place : s.cursor <;> rw [place] at past tracks
  all_goals first | exact past.elim | exact tracks.elim

theorem Finishing.not_past (finishing : Finishing fd s nodes) : ¬ s.cursor.Past := by
  have ends := finishing.ends
  intro past
  cases place : s.cursor <;> rw [place] at past ends
  all_goals first | exact past.elim | exact ends.elim

theorem Tracked.safe (tracked : Tracked fd s) : Safe fd s := by
  rcases tracked with ⟨past, closed⟩ | ⟨nodes, following | finishing⟩
  · refine ⟨fun i temp reading => ?_, fun _ => closed⟩
    rcases reading with here | here <;> rw [here] at past <;> exact past.elim
  · exact ⟨fun i temp => following.live, fun past => (following.not_past past).elim⟩
  · exact ⟨fun i temp => finishing.live, fun past => (finishing.not_past past).elim⟩

end Invariant

theorem Serves.register {r r' : ClientRegistry} {serving : Finset Thread} (serves : Serves fd r serving nodes)
    (fresh : thread ∉ serving) (ran : (cregRegister (fd thread)).run (exec malloc) r = some ((), r')) :
    ∃ a, Serves fd r' (insert thread serving) ((a, fd thread) :: nodes) := by
  obtain ⟨a, registry, ran', lists⟩ := lists_register malloc (fd thread) serves.lists
  obtain rfl : r' = registry := (Prod.mk.inj (Option.some.inj (ran.symm.trans ran'))).2
  refine ⟨a, lists, ?_⟩
  show ↑(fd thread :: nodes.map Prod.snd) = (insert thread serving).val.map fd
  rw [Finset.insert_val_of_notMem fresh, Multiset.map_cons, ← serves.values, Multiset.cons_coe]

theorem Serves.unregister {r r' : ClientRegistry} {serving : Finset Thread} (serves : Serves fd r serving nodes)
    (served : thread ∈ serving)
    (ran : (cregUnregister (fd thread) (r.heap.keys.card + 1)).run (exec malloc) r = some ((), r')) :
    ∃ before b after, nodes = before ++ (b, fd thread) :: after ∧ r.victim (fd thread) = before.length ∧
      Serves fd r' (serving.erase thread) (before ++ after) := by
  have values := serves.values
  have present : fd thread ∈ nodes.map Prod.snd := by
    rw [← Multiset.mem_coe, values]
    exact Multiset.mem_map_of_mem fd served
  obtain ⟨before, b, after, rfl, first⟩ := exists_first (fd thread) present
  obtain ⟨registry, ran', lists⟩ := lists_unregister malloc serves.lists first
  obtain rfl : r' = registry := (Prod.mk.inj (Option.some.inj (ran.symm.trans ran'))).2
  refine ⟨before, b, after, rfl, serves.lists.victim first, lists, ?_⟩
  have served' : thread ∈ serving.val := served
  rw [← Multiset.cons_erase served', Multiset.map_cons] at values
  refine (Multiset.cons_inj_right (fd thread)).mp (Eq.trans ?_ values)
  rw [Multiset.cons_coe, Multiset.coe_eq_coe]
  simpa using List.perm_middle.symm

omit [DecidableEq Thread] in
theorem Following.index_lt (following : Following fd s nodes) {i : Int} {temp : Option Nat}
    (inLoop : s.cursor = .testing i temp ∨ s.cursor = .closing i temp ∨ s.cursor = .advancing i temp) :
    i < s.registry.numOfClients := by
  obtain ⟨passed, a, v, ahead, split, rfl⟩ := following.tracks.split inLoop
  have length := split.length
  rw [following.lists.count]
  omega

/-! ### Registering -/

theorem Following.register (following : Following fd s nodes) (fresh : thread ∉ s.serving)
    (undisturbed : Undisturbed fd s (.register thread)) {registry : ClientRegistry}
    (ran : (cregRegister (fd thread)).run (exec malloc) s.registry = some ((), registry)) :
    Tracked fd { s with registry, serving := insert thread s.serving } := by
  obtain ⟨a, serves⟩ := following.toServes.register fresh ran
  have below := @following.index_lt
  refine Or.inr ⟨_, Or.inl ⟨serves, following.watched.trans (Finset.subset_insert thread s.serving), ?_⟩⟩
  have tracks := following.tracks
  -- In the loop the index is below the count, so no thread registers.
  simp only [Undisturbed] at undisturbed
  cases place : s.cursor with
  | notStarted => exact trivial
  | testing i temp =>
    rw [place] at undisturbed
    exact absurd (below (Or.inl place)) (Int.not_lt.mpr (Int.le_of_lt undisturbed))
  | closing i temp =>
    rw [place] at undisturbed
    exact absurd (below (Or.inr (Or.inl place))) (Int.not_lt.mpr undisturbed)
  | advancing i temp =>
    rw [place] at undisturbed
    exact absurd (below (Or.inr (Or.inr place))) (Int.not_lt.mpr undisturbed)
  | left | cleared | finished =>
    rw [place] at tracks
    exact tracks.elim

theorem Finishing.register (finishing : Finishing fd s nodes) (fresh : thread ∉ s.serving)
    (undisturbed : Undisturbed fd s (.register thread)) {registry : ClientRegistry}
    (ran : (cregRegister (fd thread)).run (exec malloc) s.registry = some ((), registry)) :
    Tracked fd { s with registry, serving := insert thread s.serving } := by
  obtain ⟨a, serves⟩ := finishing.toServes.register fresh ran
  refine Or.inr ⟨_, Or.inr ⟨serves, ?_⟩⟩
  have ends := finishing.ends
  have count := finishing.lists.count
  have longer : ((a, fd thread) :: nodes).length = nodes.length + 1 := List.length_cons
  simp only [Undisturbed] at undisturbed
  show Ends fd s.watched ((a, fd thread) :: nodes) registry.closed s.cursor
  rw [plain_closed (cregRegister_plain _) ran]
  cases place : s.cursor with
  | testing i temp =>
    rw [place] at ends undisturbed
    exact ⟨by omega, ends.2⟩
  | closing i temp =>
    rw [place] at ends undisturbed
    obtain ⟨b, v, pointed, member, _, all⟩ := ends
    exact ⟨b, v, pointed, List.mem_cons_of_mem _ member, by omega, all⟩
  | advancing i temp =>
    rw [place] at ends undisturbed
    obtain ⟨b, v, pointed, member, _, all⟩ := ends
    exact ⟨b, v, pointed, List.mem_cons_of_mem _ member, by omega, all⟩
  | notStarted | left | cleared | finished =>
    rw [place] at ends
    exact ends.elim

/-! ### Unregistering -/

theorem Following.unregister (following : Following fd s nodes) (served : thread ∈ s.serving)
    (undisturbed : Undisturbed fd s (.unregister thread)) {registry : ClientRegistry}
    (ran : (cregUnregister (fd thread) (s.registry.heap.keys.card + 1)).run (exec malloc) s.registry =
      some ((), registry)) :
    Tracked fd { s with registry, serving := s.serving.erase thread, watched := s.watched.erase thread } := by
  obtain ⟨before, b, after, rfl, victim, serves⟩ := following.toServes.unregister served ran
  have fewer : s.watched.erase thread ⊆ s.serving.erase thread := Finset.erase_subset_erase thread following.watched
  have closed := plain_closed (cregUnregister_plain _ _) ran
  have allClosed {closed} (covered : Covered closed (before ++ (b, fd thread) :: after)) :
      AllClosed fd (s.watched.erase thread) closed :=
    (following.toServes.allClosed covered).subset ((Finset.erase_subset thread s.watched).trans following.watched)
  have tracks := following.tracks
  have count := following.lists.count
  simp only [Undisturbed, victim] at undisturbed
  cases place : s.cursor with
  | notStarted => exact Or.inr ⟨_, Or.inl ⟨serves, fewer, trivial⟩⟩
  | testing i temp =>
    rw [place] at tracks undisturbed
    obtain ⟨passed, a, v, ahead, split, rfl⟩ := tracks
    have length := split.length
    dsimp only at undisturbed
    rw [split.position following.lists] at undisturbed
    rcases undisturbed with behind | ended | ⟨same, last⟩
    · obtain ⟨rest, split'⟩ := split.remove_behind behind
      exact Or.inr ⟨_, Or.inl ⟨serves, fewer, passed, a, v, rest, closed ▸ split', rfl⟩⟩
    · omega
    · obtain rfl : before = passed := List.append_inj_left split.nodes same.symm
      have none : after = [] := by
        simp only [List.length_append, List.length_cons] at length count
        exact List.length_eq_zero_iff.mp (by omega)
      have covered : Covered registry.closed (before ++ after) := by
        rw [none, List.append_nil, closed]
        exact split.covered
      refine Or.inr ⟨_, Or.inr ⟨serves, ?_, (serves.allClosed covered).subset fewer⟩⟩
      rw [none, List.append_nil]
  | closing i temp =>
    rw [place] at tracks undisturbed
    obtain ⟨passed, a, v, ahead, split, rfl⟩ := tracks
    rcases split.remove_reading following.lists undisturbed with ⟨rest, split'⟩ | ⟨pointed, member, last, covered⟩
    · exact Or.inr ⟨_, Or.inl ⟨serves, fewer, passed, a, v, rest, closed ▸ split', rfl⟩⟩
    · exact Or.inr ⟨_, Or.inr ⟨serves, a, v, pointed, member, last, closed ▸ allClosed covered⟩⟩
  | advancing i temp =>
    rw [place] at tracks undisturbed
    obtain ⟨passed, a, v, ahead, split, rfl, done⟩ := tracks
    rcases split.remove_reading following.lists undisturbed with ⟨rest, split'⟩ | ⟨pointed, member, last, covered⟩
    · exact Or.inr ⟨_, Or.inl ⟨serves, fewer, passed, a, v, rest, closed ▸ split', rfl, closed ▸ done⟩⟩
    · have all : AllClosed fd (s.watched.erase thread) s.registry.closed := by
        intro other member
        rcases List.mem_append.mp (allClosed covered other member) with early | here
        · exact early
        · exact List.mem_singleton.mp here ▸ done
      exact Or.inr ⟨_, Or.inr ⟨serves, a, v, pointed, member, last, closed ▸ all⟩⟩
  | left | cleared | finished =>
    rw [place] at tracks
    exact tracks.elim

theorem Finishing.unregister (finishing : Finishing fd s nodes) (served : thread ∈ s.serving)
    (undisturbed : Undisturbed fd s (.unregister thread)) {registry : ClientRegistry}
    (ran : (cregUnregister (fd thread) (s.registry.heap.keys.card + 1)).run (exec malloc) s.registry =
      some ((), registry)) :
    Tracked fd { s with registry, serving := s.serving.erase thread, watched := s.watched.erase thread } := by
  obtain ⟨before, b, after, rfl, victim, serves⟩ := finishing.toServes.unregister served ran
  have fewer := Finset.erase_subset thread s.watched
  refine Or.inr ⟨_, Or.inr ⟨serves, ?_⟩⟩
  have ends := finishing.ends
  have lists := finishing.lists
  have shorter := length_remove before after (b, fd thread)
  -- The node that the cursor is at stays: it is not the one taken out.
  have stays {a v i} (member : (a, v) ∈ before ++ (b, fd thread) :: after)
      (undisturbed : s.registry.position (some a) < before.length ∨
        s.registry.position (some a) ≠ before.length ∧ s.registry.numOfClients ≤ i) : (a, v) ∈ before ++ after :=
    lists.remove_other member (undisturbed.elim Nat.ne_of_lt And.left)
  simp only [Undisturbed, victim] at undisturbed
  show Ends fd (s.watched.erase thread) (before ++ after) registry.closed s.cursor
  rw [plain_closed (cregUnregister_plain _ _) ran]
  cases place : s.cursor with
  | testing i temp =>
    rw [place] at ends
    exact ⟨by have := ends.1; omega, ends.2.subset fewer⟩
  | closing i temp =>
    rw [place] at ends undisturbed
    obtain ⟨a, v, rfl, member, last, all⟩ := ends
    exact ⟨a, v, rfl, stays member undisturbed, by omega, all.subset fewer⟩
  | advancing i temp =>
    rw [place] at ends undisturbed
    obtain ⟨a, v, rfl, member, last, all⟩ := ends
    exact ⟨a, v, rfl, stays member undisturbed, by omega, all.subset fewer⟩
  | notStarted | left | cleared | finished =>
    rw [place] at ends
    exact ends.elim

/-! ### A step of the loop -/

section Loop
omit [DecidableEq Thread]
variable {cursor : Cursor} {registry : ClientRegistry}

theorem Following.traverse (following : Following fd s nodes)
    (stepped : MazeWar.traverse malloc (s.cursor, s.registry) = some (cursor, registry)) :
    Tracked fd { s with
      cursor, registry, watched := if s.cursor = .notStarted then s.serving else s.watched } := by
  obtain ⟨r, serving, watched, place⟩ := s
  obtain ⟨serves, subset, tracks⟩ := following
  simp only at stepped serves subset tracks ⊢
  cases place with
  | notStarted =>
    cases stepped
    rw [if_pos rfl]
    cases nodes with
    | nil => exact Or.inr ⟨[], Or.inr ⟨serves, Int.le_refl 0, serves.allClosed (by simp [Covered])⟩⟩
    | cons node rest =>
      obtain ⟨a, v⟩ := node
      obtain ⟨head, _⟩ := (serves.lists.intact (by simp)).chain.head
      have split : Split ((a, v) :: rest) r.closed r.registeredFds [] a v rest := ⟨rfl, head, by simp [Covered]⟩
      exact Or.inr ⟨_, Or.inl ⟨serves, Finset.Subset.refl _, [], a, v, rest, split, rfl⟩⟩
  | testing i temp =>
    rw [if_neg (by simp)]
    obtain ⟨passed, a, v, ahead, split, rfl⟩ := tracks
    have more : (passed.length : Int) < r.numOfClients := by
      rw [serves.lists.count, split.length]
      omega
    rw [traverse_testing, if_pos more] at stepped
    cases stepped
    exact Or.inr ⟨nodes, Or.inl ⟨serves, subset, passed, a, v, ahead, split, rfl⟩⟩
  | closing i temp =>
    rw [if_neg (by simp)]
    obtain ⟨passed, a, v, ahead, split, index⟩ := tracks
    obtain ⟨next, stored⟩ := serves.lists.stored split.member
    rw [traverse_closing (split.temp ▸ read_some stored)] at stepped
    cases stepped
    have split' : Split nodes (r.closed ++ [v]) temp passed a v ahead := ⟨split.nodes, split.temp, split.covered.append⟩
    exact Or.inr ⟨nodes, Or.inl ⟨⟨lists_close serves.lists v, serves.values⟩, subset, passed, a, v, ahead, split',
      index, List.mem_append_right _ (List.mem_singleton_self v)⟩⟩
  | advancing i temp =>
    rw [if_neg (by simp)]
    obtain ⟨passed, a, v, ahead, split, rfl, done⟩ := tracks
    obtain ⟨next, read, after⟩ := split.advance serves.lists done
    rw [traverse_advancing read] at stepped
    cases stepped
    rcases after with ⟨last, covered⟩ | tracks
    · exact Or.inr ⟨nodes, Or.inr ⟨serves, by rw [last]; rfl, (serves.allClosed covered).subset subset⟩⟩
    · exact Or.inr ⟨nodes, Or.inl ⟨serves, subset, tracks⟩⟩
  | left | cleared | finished => exact tracks.elim

theorem Finishing.traverse (finishing : Finishing fd s nodes)
    (stepped : MazeWar.traverse malloc (s.cursor, s.registry) = some (cursor, registry)) :
    Tracked fd { s with
      cursor, registry, watched := if s.cursor = .notStarted then s.serving else s.watched } := by
  obtain ⟨r, serving, watched, place⟩ := s
  obtain ⟨serves, ends⟩ := finishing
  simp only at stepped serves ends ⊢
  cases place with
  | testing i temp =>
    rw [if_neg (by simp)]
    have count := serves.lists.count
    have past : ¬ i < r.numOfClients := by have := ends.1; omega
    rw [traverse_testing, if_neg past] at stepped
    cases stepped
    exact Or.inl ⟨trivial, ends.2⟩
  | closing i temp =>
    rw [if_neg (by simp)]
    obtain ⟨a, v, rfl, member, last, all⟩ := ends
    obtain ⟨next, stored⟩ := serves.lists.stored member
    rw [traverse_closing (read_some stored)] at stepped
    cases stepped
    exact Or.inr ⟨nodes, Or.inr ⟨⟨lists_close serves.lists v, serves.values⟩, a, v, rfl, member, last, all⟩⟩
  | advancing i temp =>
    rw [if_neg (by simp)]
    obtain ⟨a, v, rfl, member, last, all⟩ := ends
    obtain ⟨next, stored⟩ := serves.lists.stored member
    rw [traverse_advancing (read_some stored)] at stepped
    cases stepped
    exact Or.inr ⟨nodes, Or.inr ⟨serves, last, all⟩⟩
  | notStarted | left | cleared | finished => exact ends.elim

theorem past_traverse (past : s.cursor.Past)
    (stepped : MazeWar.traverse malloc (s.cursor, s.registry) = some (cursor, registry)) :
    cursor.Past ∧ registry.closed = s.registry.closed ∧ s.cursor ≠ .notStarted := by
  obtain ⟨r, serving, watched, place⟩ := s
  cases place with
  | notStarted | testing i temp | closing i temp | advancing i temp => exact past.elim
  | left | cleared =>
    cases stepped
    exact ⟨trivial, rfl, by simp⟩
  | finished => cases stepped

end Loop

/-! ### Runs -/

omit [DecidableEq Thread] in
theorem start_tracked (heap : Heap Int) : Tracked fd (start heap) :=
  Or.inr ⟨[], Or.inl ⟨⟨Or.inl ⟨rfl, rfl, .nil⟩, rfl⟩, Finset.Subset.refl _, trivial⟩⟩

theorem step_tracked {action : TraversalAction Thread} (tracked : Tracked fd s) (undisturbed : Undisturbed fd s action)
    (stepped : step malloc fd s action = some t) : Tracked fd t := by
  cases action with
  | register thread =>
    obtain ⟨fresh, stepped⟩ := Option.ite_none_right_eq_some.mp stepped
    obtain ⟨⟨_, registry⟩, ran, rfl⟩ := Option.map_eq_some_iff.mp stepped
    rcases tracked with ⟨past, closed⟩ | ⟨nodes, following | finishing⟩
    · have same := plain_closed (cregRegister_plain _) ran
      exact Or.inl ⟨past, fun other member => same ▸ closed other member⟩
    · exact following.register fresh undisturbed ran
    · exact finishing.register fresh undisturbed ran
  | unregister thread =>
    obtain ⟨served, stepped⟩ := Option.ite_none_right_eq_some.mp stepped
    obtain ⟨⟨_, registry⟩, ran, rfl⟩ := Option.map_eq_some_iff.mp stepped
    rcases tracked with ⟨past, closed⟩ | ⟨nodes, following | finishing⟩
    · have same := plain_closed (cregUnregister_plain _ _) ran
      exact Or.inl ⟨past, fun other member => same ▸ closed other (Finset.mem_of_mem_erase member)⟩
    · exact following.unregister served undisturbed ran
    · exact finishing.unregister served undisturbed ran
  | traverse =>
    obtain ⟨⟨cursor, registry⟩, ran, rfl⟩ := Option.map_eq_some_iff.mp stepped
    rcases tracked with ⟨past, closed⟩ | ⟨nodes, following | finishing⟩
    · obtain ⟨later, same, started⟩ := past_traverse past ran
      rw [if_neg started]
      exact Or.inl ⟨later, fun other member => by rw [same]; exact closed other member⟩
    · exact following.traverse ran
    · exact finishing.traverse ran

end Traversal

/-- If no step of another thread disturbs the loop, then it reads live nodes only, and it closes
every descriptor that stays registered. -/
theorem shutdown_traversal_safe {Thread : Type} [DecidableEq Thread] (malloc : Allocator Int) (fd : Thread → Int)
    (heap : Heap Int) (actions : List (TraversalAction Thread)) (s : Traversal Thread)
    (undisturbed : Guarded (Traversal.step malloc fd) (Traversal.Undisturbed fd) (Traversal.start heap) actions)
    (ran : runs (Traversal.step malloc fd) (Traversal.start heap) actions = some s) : s.Safe fd := by
  have tracked : Traversal.Tracked fd s := runs_guarded_invariant
    (fun _ _ _ tracked allowed stepped => Traversal.step_tracked tracked allowed stepped)
    (Traversal.start_tracked heap) undisturbed ran
  exact tracked.safe

/-- A thread behind the cursor unregisters, and one at the last node once that has been closed. -/
theorem shutdown_traversal_safe_behind : ∃ s, runs (Traversal.step (Allocator.beyond Int) fun i : Fin 3 => i.val + 4)
    (Traversal.start ∅) [.register 0, .register 1, .register 2, .traverse, .traverse, .unregister 1, .traverse,
      .traverse, .traverse, .traverse, .unregister 2, .traverse, .traverse] = some s ∧
    s.registry.closed = [6, 4] ∧ s.cursor = .left ∧ s.Safe fun i => i.val + 4 := by
  have ended : (runs (Traversal.step (Allocator.beyond Int) fun i : Fin 3 => i.val + 4)
      (Traversal.start ∅) [.register 0, .register 1, .register 2, .traverse, .traverse, .unregister 1, .traverse,
        .traverse, .traverse, .traverse, .unregister 2, .traverse, .traverse]).map
          (fun s => (s.registry.closed, s.cursor)) = some ([6, 4], .left) := by decide
  obtain ⟨s, ran, same⟩ := Option.map_eq_some_iff.mp ended
  obtain ⟨closed, place⟩ := Prod.mk.inj same
  exact ⟨s, ran, closed, place, shutdown_traversal_safe _ _ ∅ _ s (by decide) ran⟩

/-- The only thread unregisters when its node is about to be read. -/
theorem shutdown_traversal_reads_freed :
    ¬ ∀ (Thread : Type) [DecidableEq Thread] (malloc : Allocator Int) (fd : Thread → Int) (heap : Heap Int)
      (actions : List (TraversalAction Thread)) (s : Traversal Thread),
      runs (Traversal.step malloc fd) (Traversal.start heap) actions = some s → s.Safe fd := by
  intro safe
  have freed : (runs (Traversal.step (Allocator.beyond Int) fun _ : Unit => 4) (Traversal.start ∅)
      [.register (), .traverse, .traverse, .unregister ()]).map
        (fun s => (s.cursor, decide (1 ∈ s.registry.heap))) = some (.closing 0 (some 1), false) := by decide
  obtain ⟨s, ran, same⟩ := Option.map_eq_some_iff.mp freed
  obtain ⟨place, gone⟩ := Prod.mk.inj same
  obtain ⟨a, pointed, live⟩ := (safe Unit _ _ ∅ _ s ran).live 0 (some 1) (Or.inl place)
  cases pointed
  exact of_decide_eq_false gone live

end MazeWar
