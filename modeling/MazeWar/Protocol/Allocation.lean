import MazeWar.Foundation.LinkedList
import MazeWar.Protocol.Stream

/-!
# Where a payload is put

`proto_recv_packet` with the blocks that it allocates. A pointer is an address here, not the bytes
that it refers to, and a receive is one on the bytes as long as no block is freed.
-/

namespace MazeWar
open Foundation

/-- The live blocks of the heap, with what they hold. -/
abbrev Blocks := Finmap fun _ : Nat => List UInt8

/-- What `malloc` does: it chooses the address of a block that is not live, and leaves some bytes in it. -/
structure Malloc where
  choose : Blocks → Nat
  fresh : ∀ blocks, choose blocks ∉ blocks
  junk : Nat → UInt8

def Malloc.beyond (junk : Nat → UInt8) : Malloc where
  choose blocks := blocks.keys.sup id + 1
  fresh := beyond_notMem
  junk := junk

inductive Pointer where
  | null
  | wild
  | block (address : Nat)
  deriving DecidableEq, Repr

inductive RecvOp where
  | sys (op : SysOp)
  | malloc (n : Nat)
  /-- The bytes that a `read` stores, from the start of the block on. -/
  | fill (address : Nat) (bytes : List UInt8)

abbrev RecvOp.Res : RecvOp → Type
  | .sys op => op.Res
  | .malloc _ => Nat
  | .fill _ _ => Unit

abbrev RecvProgram := Program RecvOp RecvOp.Res

def recvCall (op : RecvOp) : RecvProgram op.Res := Program.perform op

/-- `proto_recv_packet`, where `*datap` is a pointer. -/
def protoRecvPacketAt (fd : Int) (pkt : MzwPacket) (datap : Pointer) : RecvProgram (Int × MzwPacket × Pointer) := do
  let header ← recvCall (.sys (.read fd MzwPacket.sizeOf))
  let pkt := (pkt.overwrite header.stored).swapped
  if header.count ≠ MzwPacket.sizeOf then
    if (← recvCall (.sys .getErrno)) = eintr then
      recvCall (.sys (.setErrno 0))
      return (0, pkt, datap)
    return (-1, pkt, datap)
  if pkt.size ≠ 0 then
    let data ← recvCall (.malloc pkt.size.toNat)
    let payload ← recvCall (.sys (.read fd pkt.size.toNat))
    recvCall (.fill data payload.stored)
    recvCall (.sys (.poke pkt.size.toNat payload.count))
    if payload.count ≠ pkt.size.toNat then
      return (-1, pkt, datap)
    return (0, pkt, .block data)
  return (0, pkt, datap)

/-! ### The connection and the heap -/

structure Storage where
  conn : Conn
  blocks : Blocks

def storageMachine (malloc : Malloc) : Machine RecvOp RecvOp.Res Storage
  | .sys op, s => (connMachine op s.conn).map fun answer => (answer.1, { s with conn := answer.2 })
  | .malloc n, s => some (malloc.choose s.blocks,
      { s with blocks := s.blocks.insert (malloc.choose s.blocks) (memoryBytes malloc.junk n) })
  | .fill address bytes, s => (s.blocks.lookup address).map fun held =>
      ((), { s with blocks := s.blocks.insert address (bytes ++ held.drop bytes.length) })

/-! ### Live blocks -/

/-- The blocks that were live before are live, with the same bytes. -/
def Keeps (before after : Blocks) : Prop := ∀ address ∈ before, after.lookup address = before.lookup address

section
variable {before middle after : Blocks} {address : Nat}

theorem Keeps.refl (blocks : Blocks) : Keeps blocks blocks := fun _ _ => rfl

theorem Keeps.mem (keeps : Keeps before after) (live : address ∈ before) : address ∈ after := by
  rw [← Finmap.lookup_isSome, keeps address live, Finmap.lookup_isSome]
  exact live

theorem Keeps.trans (first : Keeps before middle) (second : Keeps middle after) : Keeps before after :=
  fun address live => (second address (first.mem live)).trans (first address live)

end

/-! ### A receive, on pointers and on bytes -/

/-- What is in `*datap` after a receive, as a pointer and as bytes: what was there before, or a new
block and what it holds. -/
inductive Leaves (before after : Blocks) (datap : Pointer) (payload : Payload) : Pointer → Payload → Prop
  | same : Leaves before after datap payload datap payload
  | fresh {address bytes} (unused : address ∉ before) (holds : after.lookup address = some bytes) :
    Leaves before after datap payload (.block address) (.buffer bytes)

/-- The blocks after one of `n` bytes has been allocated and the bytes of a `read` stored in it. -/
def received (malloc : Malloc) (n : Nat) (bytes : List UInt8) (blocks : Blocks) : Blocks :=
  (blocks.insert (malloc.choose blocks) (memoryBytes malloc.junk n)).insert (malloc.choose blocks)
    (bytes ++ (memoryBytes malloc.junk n).drop bytes.length)

section
variable {malloc : Malloc} {n : Nat} {bytes : List UInt8} {blocks : Blocks}

theorem received_keeps : Keeps blocks (received malloc n bytes blocks) := by
  intro address live
  have apart : address ≠ malloc.choose blocks := fun same => malloc.fresh blocks (same ▸ live)
  rw [received, Finmap.lookup_insert_of_ne _ apart, Finmap.lookup_insert_of_ne _ apart]

theorem received_new (whole : bytes.length = n) :
    (received malloc n bytes blocks).lookup (malloc.choose blocks) = some bytes := by
  rw [received, Finmap.lookup_insert, List.drop_of_length_le (by rw [length_memoryBytes, whole]), List.append_nil]

theorem ReadResult.stored_length {result : ReadResult} (count : result.count = n) : result.stored.length = n := by
  cases result with
  | failed => cases count
  | got bytes => exact Int.ofNat_inj.mp count

end

theorem protoRecvPacketAt_simulates (malloc : Malloc) {fd result : Int} {pkt header : MzwPacket} (datap : Pointer)
    {payload after : Payload} (s : Storage) {t : Conn}
    (ran : (protoRecvPacket fd pkt payload).run connMachine s.conn = some ((result, header, after), t)) :
    ∃ left blocks,
      (protoRecvPacketAt fd pkt datap).run (storageMachine malloc) s = some ((result, header, left), ⟨t, blocks⟩) ∧
      Leaves s.blocks blocks datap payload left after ∧ Keeps s.blocks blocks := by
  obtain ⟨conn, blocks⟩ := s
  cases first : conn.read MzwPacket.sizeOf with
  | mk head c =>
  simp only [protoRecvPacket, Program.perform_bind, Program.run_call, connMachine, Option.bind_some, first] at ran
  simp only [protoRecvPacketAt, recvCall, Program.perform_bind, Program.run_call, storageMachine, connMachine,
    Option.map_some, Option.bind_some, first]
  generalize (pkt.overwrite head.stored).swapped = pkt at ran ⊢
  by_cases whole : head.count = (MzwPacket.sizeOf : Int)
  · rw [if_neg (not_not.mpr whole)] at ran ⊢
    by_cases empty : pkt.size = 0
    · rw [if_neg (not_not.mpr empty)] at ran ⊢
      cases ran
      exact ⟨datap, blocks, rfl, .same, .refl blocks⟩
    · rw [if_pos empty] at ran ⊢
      cases second : c.read pkt.size.toNat with
      | mk body d =>
      simp only [Program.run_call, storageMachine, connMachine, Option.map_some, Option.bind_some, second,
        Finmap.lookup_insert] at ran ⊢
      by_cases complete : body.count = pkt.size.toNat
      · rw [if_neg (not_not.mpr complete)] at ran ⊢
        cases ran
        exact ⟨_, _, rfl, .fresh (malloc.fresh blocks) (received_new (ReadResult.stored_length complete)),
          received_keeps⟩
      · rw [if_pos complete] at ran ⊢
        cases ran
        exact ⟨datap, _, rfl, .same, received_keeps⟩
  · rw [if_pos whole] at ran ⊢
    simp only [Program.run_call, storageMachine, connMachine, Option.map_some, Option.bind_some] at ran ⊢
    by_cases interrupted : c.errno = eintr
    · rw [if_pos interrupted] at ran ⊢
      cases ran
      exact ⟨datap, blocks, rfl, .same, .refl blocks⟩
    · rw [if_neg interrupted] at ran ⊢
      cases ran
      exact ⟨datap, blocks, rfl, .same, .refl blocks⟩

/-! ### Streams -/

/-- The pointer refers to those bytes. -/
inductive Designates (blocks : Blocks) : Pointer → Payload → Prop
  | null : Designates blocks .null .null
  | wild : Designates blocks .wild .wild
  | block {address bytes} (holds : blocks.lookup address = some bytes) :
    Designates blocks (.block address) (.buffer bytes)

section
variable {before after : Blocks} {datap left : Pointer} {payload bytes : Payload}

theorem Designates.later (designates : Designates before datap payload) (keeps : Keeps before after) :
    Designates after datap payload := by
  cases designates with
  | null => exact .null
  | wild => exact .wild
  | block holds => exact .block ((keeps _ (Finmap.mem_of_lookup_eq_some holds)).trans holds)

theorem Leaves.designates (leaves : Leaves before after datap payload left bytes)
    (designates : Designates before datap payload) (keeps : Keeps before after) : Designates after left bytes := by
  cases leaves with
  | same => exact designates.later keeps
  | fresh _ holds => exact .block holds

end

structure ReceivedAt where
  result : Int
  header : MzwPacket
  datap : Pointer

def recvAllAt (fd : Int) : Nat → MzwPacket → Pointer → RecvProgram (List ReceivedAt)
  | 0, _, _ => pure []
  | n + 1, pkt, datap => do
    let (result, pkt, datap) ← protoRecvPacketAt fd pkt datap
    let later ← recvAllAt fd n pkt datap
    return ⟨result, pkt, datap⟩ :: later

/-- The two describe one receive, as the heap is now. -/
structure ReceivedAt.Shows (blocks : Blocks) (place : ReceivedAt) (received : Received) : Prop where
  result : place.result = received.result
  header : place.header = received.header
  datap : Designates blocks place.datap received.datap

/-- Repeated receives on pointers do what those on bytes do, and at the end every pointer that one of
them has left still refers to the bytes that it left. -/
theorem recvAllAt_simulates (malloc : Malloc) {fd : Int} {count : Nat} {pkt : MzwPacket} {datap : Pointer}
    {payload : Payload} {s : Storage} {received : List Received} {t : Conn}
    (designates : Designates s.blocks datap payload)
    (ran : (recvAll fd count pkt payload).run connMachine s.conn = some (received, t)) :
    ∃ places blocks, (recvAllAt fd count pkt datap).run (storageMachine malloc) s = some (places, ⟨t, blocks⟩) ∧
      List.Forall₂ (ReceivedAt.Shows blocks) places received ∧ Keeps s.blocks blocks := by
  induction count generalizing pkt datap payload s received t with
  | zero =>
    cases ran
    exact ⟨[], s.blocks, rfl, .nil, .refl s.blocks⟩
  | succ count ih =>
    rw [recvAll, Program.run_bind] at ran
    obtain ⟨⟨⟨result, header, after⟩, c⟩, first, ran⟩ := Option.bind_eq_some_iff.mp ran
    rw [Program.run_bind] at ran
    obtain ⟨⟨later, c'⟩, rest, ran⟩ := Option.bind_eq_some_iff.mp ran
    cases ran
    obtain ⟨left, middle, first', leaves, keeps⟩ := protoRecvPacketAt_simulates malloc datap s first
    have designates' : Designates middle left after := leaves.designates designates keeps
    obtain ⟨places, blocks, rest', shows_, keeps'⟩ := ih (s := ⟨c, middle⟩) designates' rest
    refine ⟨⟨result, header, left⟩ :: places, blocks, ?_, ?_, keeps.trans keeps'⟩
    · simp [recvAllAt, Program.run_bind, first', rest']
    · exact .cons ⟨rfl, rfl, designates'.later keeps'⟩ shows_

end MazeWar
