import MazeWar.Protocol.Model

/-!
# The service thread

`server.c`. The functions that the thread calls are the operations of its program; what
they return is not decided here.
-/

namespace MazeWar
open Foundation

abbrev PlayerPtr := Option Nat

inductive Block where
  | arg | pkt | datap | reply
  | player (pointer : PlayerPtr)
  deriving DecidableEq, Repr

inductive ServiceOp where
  | free (block : Block)
  | cregRegister (fd : Int)
  | cregUnregister (fd : Int)
  | close (fd : Int)
  /-- `Malloc`, which leaves the contents of the block as they are. -/
  | mallocPacket
  | mallocDatap
  | mallocPlayer
  | protoRecvPacket (fd : Int) (pkt : MzwPacket) (datap : Payload)
  /-- The data that is passed is `datap`, the address of the cell that holds the payload pointer. -/
  | protoSendPacket (fd : Int) (pkt : MzwPacket)
  | playerLogin (fd : Int) (avatar : UInt8) (name : Payload)
  | playerLogout (player : PlayerPtr)
  | playerReset (player : PlayerPtr)
  | playerCheckForLaserHit (player : PlayerPtr)
  | playerMove (player : PlayerPtr) (dir : Int)
  | playerRotate (player : PlayerPtr) (dir : Int)
  | playerFireLaser (player : PlayerPtr)
  | playerInvalidateView (player : PlayerPtr)
  | playerUpdateView (player : PlayerPtr)
  | playerSendChat (player : PlayerPtr) (msg : Payload) (len : Nat)
  | showMaze
  deriving DecidableEq, Repr

abbrev ServiceOp.Res : ServiceOp → Type
  | .mallocPacket => MzwPacket
  | .mallocDatap => Payload
  | .mallocPlayer | .playerLogin _ _ _ => PlayerPtr
  | .protoRecvPacket _ _ _ => Int × MzwPacket × Payload
  | .protoSendPacket _ _ | .close _ | .playerMove _ _ => Int
  | _ => Unit

abbrev ServiceProgram := Program ServiceOp ServiceOp.Res

abbrev call (op : ServiceOp) : ServiceProgram op.Res := Program.perform op

/-- The local variables, with the memory that `pkt` and `datap` refer to. -/
structure ServiceState where
  pkt : MzwPacket
  datap : Payload
  logedIn : Int
  newPlayer : PlayerPtr

def serviceLogin (fd : Int) (st : ServiceState) : ServiceProgram ServiceState := do
  let newPlayer ← call (.playerLogin fd st.pkt.param1.toUInt8 st.datap)
  if newPlayer ≠ none then
    let readyPacket : MzwPacket ← call .mallocPacket
    let readyPacket := { readyPacket with type := MzwPacketType.readyPkt.code }
    if (← call (.protoSendPacket fd readyPacket)) ≠ -1 then
      call (.playerReset newPlayer)
    call (.free .reply)
    -- Logged in whether or not READY could be sent.
    return { st with newPlayer, logedIn := 0 }
  else
    let inusePacket : MzwPacket ← call .mallocPacket
    let inusePacket := { inusePacket with type := MzwPacketType.inusePkt.code }
    let _ ← call (.protoSendPacket fd inusePacket)
    call (.free .reply)
    return { st with newPlayer }

def serviceDispatch (fd : Int) (st : ServiceState) : ServiceProgram ServiceState := do
  if st.pkt.type = MzwPacketType.loginPkt.code ∧ st.logedIn = -1 then
    serviceLogin fd st
  else if st.pkt.type = MzwPacketType.movePkt.code ∧ st.logedIn = 0 then
    let _ ← call (.playerMove st.newPlayer st.pkt.param1.toInt)
    return st
  else if st.pkt.type = MzwPacketType.turnPkt.code ∧ st.logedIn = 0 then
    call (.playerRotate st.newPlayer st.pkt.param1.toInt)
    return st
  else if st.pkt.type = MzwPacketType.firePkt.code ∧ st.logedIn = 0 then
    call (.playerFireLaser st.newPlayer)
    return st
  else if st.pkt.type = MzwPacketType.refreshPkt.code ∧ st.logedIn = 0 then
    call (.playerInvalidateView st.newPlayer)
    call (.playerUpdateView st.newPlayer)
    return st
  else if st.pkt.type = MzwPacketType.sendPkt.code ∧ st.logedIn = 0 then
    call (.playerSendChat st.newPlayer st.datap st.pkt.size.toNat)
    return st
  else
    return st

/-- One round of the loop; `none` when it breaks. -/
def serviceRound (fd : Int) (st : ServiceState) : ServiceProgram (Option ServiceState) := do
  if st.logedIn ≠ -1 then
    call (.playerCheckForLaserHit st.newPlayer)
  let (result, pkt, datap) ← call (.protoRecvPacket fd st.pkt st.datap)
  if result ≠ 0 then
    if st.logedIn = 0 then
      call (.playerLogout st.newPlayer)
    else
      call (.free (.player st.newPlayer))
    return none
  let st ← serviceDispatch fd { st with pkt, datap }
  call .showMaze
  return some st

/-- What a round does with the answer of its receive. -/
def serviceAnswer (fd : Int) (st : ServiceState) (answer : Int × MzwPacket × Payload) :
    ServiceProgram (Option ServiceState) :=
  if answer.1 ≠ 0 then
    if st.logedIn = 0 then do
      call (.playerLogout st.newPlayer)
      return none
    else do
      call (.free (.player st.newPlayer))
      return none
  else do
    let st ← serviceDispatch fd { st with pkt := answer.2.1, datap := answer.2.2 }
    call .showMaze
    return some st

theorem serviceRound_eq (fd : Int) (st : ServiceState) :
    serviceRound fd st =
      if st.logedIn ≠ -1 then do
        call (.playerCheckForLaserHit st.newPlayer)
        call (.protoRecvPacket fd st.pkt st.datap) >>= serviceAnswer fd st
      else call (.protoRecvPacket fd st.pkt st.datap) >>= serviceAnswer fd st := rfl

/-- The loop, for so many rounds; `false` when it has not ended by then. -/
def serviceLoop (fd : Int) : Nat → ServiceState → ServiceProgram Bool
  | 0, _ => return false
  | fuel + 1, st => do
    match ← serviceRound fd st with
    | none => return true
    | some st => serviceLoop fd fuel st

def mzwClientService (fd : Int) (fuel : Nat) : ServiceProgram Bool := do
  call (.free .arg)
  call (.cregRegister fd)
  let pkt ← call .mallocPacket
  let datap ← call .mallocDatap
  let newPlayer ← call .mallocPlayer
  if ← serviceLoop fd fuel { pkt, datap, logedIn := -1, newPlayer } then
    call (.cregUnregister fd)
    let _ ← call (.close fd)
    call (.free .pkt)
    call (.free .datap)
    return true
  return false

end MazeWar
