import MazeWar.Foundation.ByteOrder
import MazeWar.Foundation.Program

/-!
# The packet protocol

`protocol.c` as programs over `read`, `write` and `errno`, on a little-endian host
whose `MZW_PACKET` takes 16 bytes: two bytes of padding follow `size`.
-/

namespace MazeWar
open Foundation

inductive MzwPacketType where
  | noPkt
  | loginPkt | movePkt | turnPkt | firePkt | refreshPkt | sendPkt
  | readyPkt | inusePkt | clearPkt | showPkt | alertPkt | scorePkt | chatPkt
  deriving DecidableEq, Repr

def MzwPacketType.code (t : MzwPacketType) : UInt8 := UInt8.ofNat t.ctorIdx

structure MzwPacket where
  type : UInt8
  param1 : Int8
  param2 : Int8
  param3 : Int8
  size : UInt16
  padding : UInt8 × UInt8
  timestampSec : UInt32
  timestampNsec : UInt32
  deriving DecidableEq, Repr

def htons (x : UInt16) : UInt16 := UInt16.ofNat (byteSwap 2 x.toNat)
def htonl (x : UInt32) : UInt32 := UInt32.ofNat (byteSwap 4 x.toNat)

namespace MzwPacket

def sizeOf : Nat := 16

def bytes (pkt : MzwPacket) : List UInt8 :=
  [pkt.type, pkt.param1.toUInt8, pkt.param2.toUInt8, pkt.param3.toUInt8] ++
    littleEndian 2 pkt.size.toNat ++ [pkt.padding.1, pkt.padding.2] ++
    littleEndian 4 pkt.timestampSec.toNat ++ littleEndian 4 pkt.timestampNsec.toNat

def ofBytes (memory : List UInt8) : MzwPacket where
  type := memory.getD 0 0
  param1 := (memory.getD 1 0).toInt8
  param2 := (memory.getD 2 0).toInt8
  param3 := (memory.getD 3 0).toInt8
  size := UInt16.ofNat (fromLittleEndian ((memory.drop 4).take 2))
  padding := (memory.getD 6 0, memory.getD 7 0)
  timestampSec := UInt32.ofNat (fromLittleEndian ((memory.drop 8).take 4))
  timestampNsec := UInt32.ofNat (fromLittleEndian ((memory.drop 12).take 4))

/-- The packet after a `read` has stored these bytes from its start on. -/
def overwrite (pkt : MzwPacket) (stored : List UInt8) : MzwPacket :=
  ofBytes (stored ++ pkt.bytes.drop stored.length)

/-- The conversion of the three multi-byte fields that both directions perform in place; `ntohs` and
`ntohl` are `htons` and `htonl`. -/
def swapped (pkt : MzwPacket) : MzwPacket :=
  { pkt with
    size := htons pkt.size
    timestampSec := htonl pkt.timestampSec
    timestampNsec := htonl pkt.timestampNsec }

end MzwPacket

/-- A pointer to a payload. A received payload is written before `*datap` is set, and neither
changed nor freed afterwards, so its pointer is known by the bytes. `wild` is whatever value
`malloc` left in `*datap`. -/
inductive Payload where
  | null
  | wild
  | buffer (bytes : List UInt8)
  deriving DecidableEq, Repr

inductive ReadResult where
  | failed
  | got (bytes : List UInt8)

def ReadResult.count : ReadResult → Int
  | .failed => -1
  | .got bytes => bytes.length

def ReadResult.stored : ReadResult → List UInt8
  | .failed => []
  | .got bytes => bytes

inductive SysOp where
  | read (fd : Int) (n : Nat)
  | write (fd : Int) (bytes : List UInt8)
  | getErrno
  | setErrno (value : Int)
  /-- A store of one byte at an index of a block of `allocated` bytes. -/
  | poke (allocated : Nat) (index : Int)

abbrev SysOp.Res : SysOp → Type
  | .read _ _ => ReadResult
  | .write _ _ | .getErrno => Int
  | .setErrno _ | .poke _ _ => Unit

abbrev SysProgram := Program SysOp SysOp.Res

/-- A system call with its result. -/
abbrev SysCall := (op : SysOp) × op.Res

abbrev SysLog := List SysCall

def eintr : Int := 4

def memoryBytes (memory : Nat → UInt8) (n : Nat) : List UInt8 := (List.range n).map memory

/-- `data` is the memory that the pointer refers to, `none` for NULL. Returns the result and
the packet as it has been modified. -/
def protoSendPacket (fd : Int) (pkt : MzwPacket) (data : Option (Nat → UInt8)) :
    SysProgram (Int × MzwPacket) := do
  let tempSize := pkt.size
  let pkt := pkt.swapped
  let writeSize ← Program.perform (SysOp.write fd pkt.bytes)
  if writeSize ≠ MzwPacket.sizeOf then
    return (-1, pkt)
  match data with
  | some memory =>
    let payloadWriteSize ← Program.perform (SysOp.write fd (memoryBytes memory tempSize.toNat))
    if payloadWriteSize ≠ pkt.size.toNat then
      return (-1, pkt)
    return (0, pkt)
  | none => return (0, pkt)

/-- Returns the result, the packet and `*datap`. The header is converted even when the read
failed, and the terminator is stored one past the bytes received. -/
def protoRecvPacket (fd : Int) (pkt : MzwPacket) (datap : Payload) :
    SysProgram (Int × MzwPacket × Payload) := do
  let header ← Program.perform (SysOp.read fd MzwPacket.sizeOf)
  let pkt := (pkt.overwrite header.stored).swapped
  if header.count ≠ MzwPacket.sizeOf then
    if (← Program.perform SysOp.getErrno) = eintr then
      -- Success, although `pkt` holds no new packet.
      Program.perform (SysOp.setErrno 0)
      return (0, pkt, datap)
    return (-1, pkt, datap)
  if pkt.size ≠ 0 then
    let payload ← Program.perform (SysOp.read fd pkt.size.toNat)
    Program.perform (SysOp.poke pkt.size.toNat payload.count)
    if payload.count ≠ pkt.size.toNat then
      return (-1, pkt, datap)
    return (0, pkt, .buffer payload.stored)
  return (0, pkt, datap)

/-! ### The connection -/

inductive Transfer where
  | full
  /-- At most so many bytes, and at least one. -/
  | upTo (limit : Nat)
  | fails (errno : Int)
  deriving DecidableEq, Repr

def Transfer.bytes : Transfer → List UInt8 → List UInt8
  | .full, bytes => bytes
  | .upTo limit, bytes => bytes.take (max 1 limit)
  | .fails _, _ => []

/-- What the call leaves in `errno`, which only a call that fails changes. -/
def Transfer.errno : Transfer → Int → Int
  | .fails errno, _ => errno
  | _, before => before

/-- A connection: the bytes still to be read, the bytes written, what the next calls transfer
(everything, once the plan has run out), and `errno`. -/
structure Conn where
  incoming : List UInt8 := []
  reads : List Transfer := []
  outgoing : List UInt8 := []
  writes : List Transfer := []
  errno : Int := 0

namespace Conn

def read (c : Conn) (n : Nat) : ReadResult × Conn :=
  match c.reads.headD .full with
  | .fails errno => (.failed, { c with reads := c.reads.tail, errno })
  | transfer =>
    let got := transfer.bytes (c.incoming.take n)
    (.got got, { c with reads := c.reads.tail, incoming := c.incoming.drop got.length })

def write (c : Conn) (bytes : List UInt8) : Int × Conn :=
  match c.writes.headD .full with
  | .fails errno => (-1, { c with writes := c.writes.tail, errno })
  | transfer =>
    let sent := transfer.bytes bytes
    (sent.length, { c with writes := c.writes.tail, outgoing := c.outgoing ++ sent })

end Conn

/-- The calls on a connection. A store has no effect on it, and a store behind the end of a block,
for which the language gives no meaning, is passed over here. -/
def connMachine : Machine SysOp SysOp.Res Conn
  | .read _ n, c => some (c.read n)
  | .write _ bytes, c => some (c.write bytes)
  | .getErrno, c => some (c.errno, c)
  | .setErrno value, c => some ((), { c with errno := value })
  | .poke _ _, c => some ((), c)

/-- The operation is no store, or one that there is room for, given the size of the block and the index. -/
def SysOp.Fits (room : Nat → Int → Prop) : SysOp → Prop
  | .poke allocated index => room allocated index
  | _ => True

instance (room : Nat → Int → Prop) [∀ allocated index, Decidable (room allocated index)] :
    DecidablePred (SysOp.Fits room) := fun op => by
  cases op <;> unfold SysOp.Fits <;> infer_instance

/-- The connection, where a store that there is no room for is not executed. -/
def storeMachine (room : Nat → Int → Prop) [∀ allocated index, Decidable (room allocated index)] :
    Machine SysOp SysOp.Res Conn := Program.restrict (SysOp.Fits room) connMachine

def InBlock (allocated : Nat) (index : Int) : Prop := 0 ≤ index ∧ index < allocated

instance (allocated : Nat) (index : Int) : Decidable (InBlock allocated index) := inferInstanceAs (Decidable (_ ∧ _))

/-- Only the bytes that `malloc` was asked for are there to be stored to. -/
def blockMachine : Machine SysOp SysOp.Res Conn := storeMachine InBlock

end MazeWar
