import MazeWar.Protocol.Allocation

/-!
# What a receive leaves to the next

The service thread passes one header and one `*datap` to every receive. A packet overwrites the
header whole, and `*datap` only if it has a payload.
-/

namespace MazeWar
open Foundation
variable {fd : Int} {packet : WirePacket}

/-- What a receive finds: the contents of `*pkt` and `*datap`, the connection with `errno`, and the heap. -/
structure Prior where
  pkt : MzwPacket
  datap : Pointer
  storage : Storage
  malloc : Malloc

namespace Prior

def receive (prior : Prior) (fd : Int) : Option ((Int × MzwPacket × Pointer) × Storage) :=
  (protoRecvPacketAt fd prior.pkt prior.datap).run (storageMachine prior.malloc) prior.storage

/-- The packet is next on the stream, and the reads return as much as they are asked for. -/
def Ready (prior : Prior) (packet : WirePacket) : Prop :=
  ∃ rest, prior.storage.conn.incoming = packet.bytes ++ rest ∧ WholeTransfers packet.asked prior.storage.conn.reads

end Prior

/-- The pointer is NULL for a packet without a payload, and otherwise refers to a fresh copy of it. -/
def WirePacket.DesignatedBy (packet : WirePacket) (before after : Blocks) (datap : Pointer) : Prop :=
  if packet.header.size = 0 then datap = .null
  else ∃ address, datap = .block address ∧ address ∉ before ∧ after.lookup address = some packet.payload

/-- The two receives leave the same result and the same header, and designate the payload of the packet. -/
def SameReceive (fd : Int) (packet : WirePacket) (first second : Prior) : Prop :=
  ∃ result header left left' t t', first.receive fd = some ((result, header, left), t) ∧
    second.receive fd = some ((result, header, left'), t') ∧
    packet.DesignatedBy first.storage.blocks t.blocks left ∧
    packet.DesignatedBy second.storage.blocks t'.blocks left'

/-- A receive leaves a pointer to a fresh copy of the payload, or `*datap` as it was. -/
theorem Prior.Ready.receive {prior : Prior} (ready : prior.Ready packet) (fd : Int) :
    ∃ left t, prior.receive fd = some ((0, packet.header, left), t) ∧
      (packet.header.size = 0 → left = prior.datap) ∧
      (packet.header.size ≠ 0 → packet.DesignatedBy prior.storage.blocks t.blocks left) := by
  obtain ⟨rest, incoming, whole⟩ := ready
  have ran := protoRecvPacket_whole fd packet prior.pkt .null incoming whole
  obtain ⟨left, blocks, ran, leaves, _⟩ := protoRecvPacketAt_simulates prior.malloc prior.datap prior.storage ran
  refine ⟨left, _, ran, fun empty => ?_, fun sized => ?_⟩
  · rw [WirePacket.datap, if_pos empty] at leaves
    cases leaves
    rfl
  · rw [WirePacket.datap, if_neg sized] at leaves
    rw [WirePacket.DesignatedBy, if_neg sized]
    cases leaves with
    | fresh unused holds => exact ⟨_, rfl, unused, holds⟩

/-- A receive is independent of what it finds exactly if the packet has a payload or `*datap` is NULL
already. -/
theorem sameReceive_iff {first second : Prior} (ready : first.Ready packet) (ready' : second.Ready packet) :
    SameReceive fd packet first second ↔
      packet.header.size ≠ 0 ∨ (first.datap = .null ∧ second.datap = .null) := by
  obtain ⟨left, t, ran, kept, copied⟩ := ready.receive fd
  obtain ⟨left', t', ran', kept', copied'⟩ := ready'.receive fd
  constructor
  · rintro ⟨result, header, _, _, _, _, received, received', designated, designated'⟩
    by_cases empty : packet.header.size = 0
    · right
      cases ran.symm.trans received
      cases ran'.symm.trans received'
      rw [WirePacket.DesignatedBy, if_pos empty] at designated designated'
      rw [← kept empty, ← kept' empty]
      exact ⟨designated, designated'⟩
    · exact .inl empty
  · intro condition
    refine ⟨0, packet.header, left, left', t, t', ran, ran', ?_⟩
    by_cases empty : packet.header.size = 0
    · obtain ⟨null, null'⟩ := condition.resolve_left (not_not.mpr empty)
      rw [WirePacket.DesignatedBy, if_pos empty, WirePacket.DesignatedBy, if_pos empty, kept empty, kept' empty]
      exact ⟨null, null'⟩
    · exact ⟨copied empty, copied' empty⟩

/-! ### Early and late on a connection -/

/-- Nothing has been received yet. -/
def atFirst (packet : WirePacket) : Prior where
  pkt := blankPacket
  datap := .null
  storage := ⟨{ incoming := packet.bytes }, ∅⟩
  malloc := .beyond fun _ => 0

/-- A message of one byte has been received, and a read interrupted. -/
def afterMessage (packet : WirePacket) : Prior where
  pkt := { blankPacket with type := MzwPacketType.sendPkt.code, size := 1 }
  datap := .block 1
  storage := ⟨{ incoming := packet.bytes, errno := eintr }, Finmap.singleton 1 [120]⟩
  malloc := .beyond fun _ => 0

theorem ready_atFirst (packet : WirePacket) : (atFirst packet).Ready packet :=
  ⟨[], (List.append_nil _).symm, wholeTransfers_nil _⟩

theorem ready_afterMessage (packet : WirePacket) : (afterMessage packet).Ready packet :=
  ⟨[], (List.append_nil _).symm, wholeTransfers_nil _⟩

def nextMessage : Message where
  header := { blankPacket with type := MzwPacketType.sendPkt.code, size := 1 }
  data := some fun _ => 121
  sized := by
    intro absent
    cases absent

theorem sameReceive_iff_message :
    SameReceive 4 nextMessage.onWire (atFirst nextMessage.onWire) (afterMessage nextMessage.onWire) := by
  apply (sameReceive_iff (ready_atFirst _) (ready_afterMessage _)).mpr
  rw [Message.onWire_header]
  decide

/-- After a message, a packet without a payload leaves the message in `*datap`. -/
theorem sameReceive_stale : ¬ SameReceive 4 (.request .firePkt 0) (atFirst (.request .firePkt 0))
    (afterMessage (.request .firePkt 0)) := by
  rintro ⟨_, _, _, _, _, _, _, received, _, designated⟩
  obtain ⟨left, t, ran, kept, _⟩ := (ready_afterMessage (.request .firePkt 0)).receive 4
  have empty : (WirePacket.request .firePkt 0).header.size = 0 := by decide
  cases ran.symm.trans received
  rw [WirePacket.DesignatedBy, if_pos empty, kept empty] at designated
  cases designated

end MazeWar
