import MazeWar.Foundation.LinkedList
import MazeWar.Foundation.Program

/-!
# The client registry

`client_registry.c` as programs over its fields, its semaphores and the heap of its list
nodes. A `P` on a semaphore that is zero, an access to a block that is not live and a loop
that never ends have no result.
-/

namespace MazeWar
open Foundation

/-- `struct fd`: the node's value is `curr_fd`. -/
abbrev Fd := Node Int

inductive Semaphore where
  | mutex
  | mutexE
  deriving DecidableEq, Repr

inductive RegistryOp where
  | wait (semaphore : Semaphore)
  | post (semaphore : Semaphore)
  | getNumOfClients
  | setNumOfClients (n : Int)
  | getRegisteredFds
  | setRegisteredFds (fds : Option Nat)
  | mallocFd
  | free (fd : Option Nat)
  | getCurrFd (fd : Option Nat)
  | setCurrFd (fd : Option Nat) (value : Int)
  | getNext (fd : Option Nat)
  | setNext (fd : Option Nat) (next : Option Nat)
  | close (fd : Int)
  /-- A loop that never ends. -/
  | diverge

abbrev RegistryOp.Res : RegistryOp → Type
  | .getNumOfClients | .getCurrFd _ => Int
  | .getRegisteredFds | .getNext _ | .mallocFd => Option Nat
  | _ => Unit

abbrev RegistryProgram := Program RegistryOp RegistryOp.Res

def regCall (op : RegistryOp) : RegistryProgram op.Res := Program.perform op

/-- A registry, the heap that its nodes are in, and the descriptors it has closed. The count is an `int`,
which fewer than 2^31 clients do not take over its range. -/
structure ClientRegistry where
  numOfClients : Int
  registeredFds : Option Nat
  mutex : Nat
  mutexE : Nat
  heap : Heap Int
  closed : List Int

def cregInit (heap : Heap Int) : ClientRegistry where
  numOfClients := 0
  registeredFds := none
  mutex := 1
  mutexE := 1
  heap := heap
  closed := []

def cregRegister (fd : Int) : RegistryProgram Unit := do
  regCall (.wait .mutex)
  let theFd ← regCall .mallocFd
  regCall (.setCurrFd theFd fd)
  if (← regCall .getNumOfClients) = 0 then
    regCall (.setNext theFd none)
    regCall (.setRegisteredFds theFd)
  else
    regCall (.setNext theFd (← regCall .getRegisteredFds))
    regCall (.setRegisteredFds theFd)
  regCall (.setNumOfClients ((← regCall .getNumOfClients) + 1))
  regCall (.post .mutex)

/-- The search loop; `fuel` exceeds the number of live nodes. -/
def cregUnregisterLoop (fd lastIndex i : Int) : Nat → Option Nat → Option Nat → RegistryProgram Unit
  | _, none, _ => regCall (.post .mutex)
  | 0, some _, _ => regCall .diverge
  | fuel + 1, some tempFd, prevFd => do
    if (← regCall (.getCurrFd (some tempFd))) = fd then
      if some tempFd = (← regCall .getRegisteredFds) then
        regCall (.setRegisteredFds (← regCall (.getNext (some tempFd))))
      -- No round changes `i`.
      else if i = lastIndex - 1 then
        regCall (.setNext prevFd none)
      else
        regCall (.setNext prevFd (← regCall (.getNext (some tempFd))))
      regCall (.free (some tempFd))
      regCall (.setNumOfClients ((← regCall .getNumOfClients) - 1))
      regCall (.post .mutex)
    else
      cregUnregisterLoop fd lastIndex i fuel (← regCall (.getNext (some tempFd))) (some tempFd)

def cregUnregister (fd : Int) (fuel : Nat) : RegistryProgram Unit := do
  regCall (.wait .mutex)
  let lastIndex ← regCall .getNumOfClients
  if lastIndex = 1 then
    -- The descriptor is not compared, and the list still points at the block.
    regCall (.free (← regCall .getRegisteredFds))
    regCall (.setNumOfClients ((← regCall .getNumOfClients) - 1))
    regCall (.post .mutex)
  else
    let tempFd ← regCall .getRegisteredFds
    let prevFd ← regCall .getRegisteredFds
    cregUnregisterLoop fd lastIndex 0 fuel tempFd prevFd

def cregWaitForEmpty : RegistryProgram Unit := do
  if (← regCall .getNumOfClients) ≠ 0 then
    regCall (.wait .mutexE)
  else
    regCall (.post .mutexE)

def cregShutdownLoop : Nat → Int → Option Nat → RegistryProgram Unit
  | fuel, i, tempFd => do
    if i < (← regCall .getNumOfClients) then
      match fuel with
      | 0 => regCall .diverge
      | fuel + 1 =>
        regCall (.close (← regCall (.getCurrFd tempFd)))
        cregShutdownLoop fuel (i + 1) (← regCall (.getNext tempFd))

def cregShutdownAll (fuel : Nat) : RegistryProgram Unit := do
  cregShutdownLoop fuel 0 (← regCall .getRegisteredFds)
  regCall (.setRegisteredFds none)
  regCall (.setNumOfClients 0)

/-! ### Execution -/

namespace ClientRegistry

def update (fd : Option Nat) (change : Fd → Fd) (r : ClientRegistry) : Option ClientRegistry := do
  let address ← fd
  let node ← r.heap.lookup address
  return { r with heap := r.heap.insert address (change node) }

def read (fd : Option Nat) (r : ClientRegistry) : Option Fd := do
  r.heap.lookup (← fd)

def exec (malloc : Allocator Int) : Machine RegistryOp RegistryOp.Res ClientRegistry
  | .wait .mutex, r => if 0 < r.mutex then some ((), { r with mutex := r.mutex - 1 }) else none
  | .wait .mutexE, r => if 0 < r.mutexE then some ((), { r with mutexE := r.mutexE - 1 }) else none
  | .post .mutex, r => some ((), { r with mutex := r.mutex + 1 })
  | .post .mutexE, r => some ((), { r with mutexE := r.mutexE + 1 })
  | .getNumOfClients, r => some (r.numOfClients, r)
  | .setNumOfClients n, r => some ((), { r with numOfClients := n })
  | .getRegisteredFds, r => some (r.registeredFds, r)
  | .setRegisteredFds fds, r => some ((), { r with registeredFds := fds })
  | .mallocFd, r =>
    some (some (malloc.choose r.heap), { r with heap := r.heap.insert (malloc.choose r.heap) ⟨0, none⟩ })
  | .free none, r => some ((), r)
  | .free (some address), r =>
    if address ∈ r.heap then some ((), { r with heap := r.heap.erase address }) else none
  | .getCurrFd fd, r => (r.read fd).map fun node => (node.value, r)
  | .setCurrFd fd value, r => (r.update fd fun node => { node with value }).map fun r => ((), r)
  | .getNext fd, r => (r.read fd).map fun node => (node.next, r)
  | .setNext fd next, r => (r.update fd fun node => { node with next }).map fun r => ((), r)
  | .close fd, r => some ((), { r with closed := r.closed ++ [fd] })
  | .diverge, _ => none

end ClientRegistry

end MazeWar
