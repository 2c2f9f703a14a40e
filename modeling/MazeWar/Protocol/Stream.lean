import MazeWar.Protocol.Wire

/-!
# Streams of packets

Packets passed one after another to `proto_send_packet`, and a stream consumed by
repeated calls of `proto_recv_packet` on one header buffer and one `*datap`.
-/

namespace MazeWar
open Foundation

def sendAll (fd : Int) : List Message → SysProgram Unit
  | [] => pure ()
  | message :: rest => do
    let _ ← protoSendPacket fd message.header message.data
    sendAll fd rest

structure Received where
  result : Int
  header : MzwPacket
  datap : Payload
  deriving DecidableEq, Repr

def recvAll (fd : Int) : Nat → MzwPacket → Payload → SysProgram (List Received)
  | 0, _, _ => pure []
  | n + 1, pkt, datap => do
    let (result, pkt, datap) ← protoRecvPacket fd pkt datap
    let later ← recvAll fd n pkt datap
    return ⟨result, pkt, datap⟩ :: later

theorem recvAll_succ {fd : Int} {count : Nat} {pkt header : MzwPacket} {datap left : Payload} {result : Int}
    {c d t : Conn} {later : List Received}
    (first : (protoRecvPacket fd pkt datap).run connMachine c = some ((result, header, left), d))
    (rest : (recvAll fd count header left).run connMachine d = some (later, t)) :
    (recvAll fd (count + 1) pkt datap).run connMachine c = some (⟨result, header, left⟩ :: later, t) := by
  simp [recvAll, Program.run_bind, first, rest]

/-- The receives of complete packets, each of which leaves its `*datap` to the next. -/
def receives : List WirePacket → Payload → List Received
  | [], _ => []
  | packet :: packets, datap =>
    ⟨0, packet.header, packet.datap datap⟩ :: receives packets (packet.datap datap)

theorem sendAll_whole (fd : Int) (messages : List Message) {c : Conn} (unlimited : c.writes = []) :
    (sendAll fd messages).run connMachine c =
      some ((), { c with outgoing := c.outgoing ++ (messages.map Message.onWire).flatMap WirePacket.bytes }) := by
  induction messages generalizing c with
  | nil => simp [sendAll]
  | cons message rest ih =>
    have sent := protoSendPacket_whole fd message (c := c) (unlimited ▸ wholeTransfers_nil _)
    simp [sendAll, Program.run_bind, sent, unlimited, ih]

theorem recvAll_whole (fd : Int) (packets : List WirePacket) (pkt : MzwPacket) (datap : Payload) {c : Conn}
    {rest : List UInt8} (incoming : c.incoming = packets.flatMap WirePacket.bytes ++ rest)
    (whole : WholeTransfers (packets.flatMap WirePacket.asked) c.reads) :
    (recvAll fd packets.length pkt datap).run connMachine c =
      some (receives packets datap,
        { c with reads := c.reads.drop (packets.flatMap WirePacket.asked).length, incoming := rest }) := by
  induction packets generalizing c pkt datap with
  | nil =>
    obtain rfl : c.incoming = rest := by simpa using incoming
    simp [recvAll, receives]
  | cons packet packets ih =>
    rw [List.flatMap_cons, List.append_assoc] at incoming
    rw [List.flatMap_cons, wholeTransfers_append] at whole
    have first := protoRecvPacket_whole fd packet pkt datap incoming whole.1
    have later := ih packet.header (packet.datap datap)
      (c := { c with reads := c.reads.drop packet.asked.length, incoming := packets.flatMap WirePacket.bytes ++ rest })
      rfl whole.2
    simpa [receives] using recvAll_succ first later

/-! ### Stores behind a block -/

section Stores
variable (room : Nat → Int → Prop)

/-- There is room for the terminator of a payload of this size. -/
def Terminable (size : UInt16) : Prop := size ≠ 0 → room size.toNat size.toNat

theorem WirePacket.made_fits (packet : WirePacket) (fd : Int) :
    (∀ op ∈ packet.made fd, op.Fits room) ↔ Terminable room packet.header.size := by
  by_cases empty : packet.header.size = 0 <;> simp [WirePacket.made, Terminable, empty, SysOp.Fits]

/-- The terminator of a payload is all that a receive stores. -/
theorem recvAll_fits (fd : Int) (packets : List WirePacket) (pkt : MzwPacket) (datap : Payload) {c : Conn}
    {rest : List UInt8} (incoming : c.incoming = packets.flatMap WirePacket.bytes ++ rest)
    (whole : WholeTransfers (packets.flatMap WirePacket.asked) c.reads) :
    (∀ op ∈ (recvAll fd packets.length pkt datap).trace connMachine c, op.Fits room) ↔
      ∀ packet ∈ packets, Terminable room packet.header.size := by
  induction packets generalizing c pkt datap with
  | nil => simp [recvAll]
  | cons packet packets ih =>
    rw [List.flatMap_cons, List.append_assoc] at incoming
    rw [List.flatMap_cons, wholeTransfers_append] at whole
    have first := protoRecvPacket_whole fd packet pkt datap incoming whole.1
    have made := protoRecvPacket_trace fd packet pkt datap incoming whole.1
    let left : Conn :=
      { c with reads := c.reads.drop packet.asked.length, incoming := packets.flatMap WirePacket.bytes ++ rest }
    have later := recvAll_whole fd packets packet.header (packet.datap datap) (c := left) rfl whole.2
    have every := ih packet.header (packet.datap datap) (c := left) rfl whole.2
    have traced : (recvAll fd (packet :: packets).length pkt datap).trace connMachine c =
        (protoRecvPacket fd pkt datap).trace connMachine c ++
          (recvAll fd packets.length packet.header (packet.datap datap)).trace connMachine left := by
      rw [List.length_cons, recvAll, Program.trace_bind first]
      refine congrArg _ ?_
      rw [Program.trace_bind later]
      exact List.append_nil _
    rw [traced, made, List.forall_mem_append, packet.made_fits, every, List.forall_mem_cons]

theorem protoSendPacket_fits (fd : Int) (pkt : MzwPacket) (data : Option (Nat → UInt8)) :
    (protoSendPacket fd pkt data).Calls (SysOp.Fits room) := by
  refine ⟨trivial, fun header => ?_⟩
  dsimp only [Program.bind]
  split
  · trivial
  · cases data with
    | none => trivial
    | some memory =>
      refine ⟨trivial, fun payload => ?_⟩
      dsimp only [Program.bind]
      split <;> trivial

theorem sendAll_fits (fd : Int) (messages : List Message) : (sendAll fd messages).Calls (SysOp.Fits room) := by
  induction messages with
  | nil => trivial
  | cons message rest ih => exact (protoSendPacket_fits room fd message.header message.data).bind fun _ => ih

theorem terminable_inBlock {size : UInt16} : Terminable InBlock size ↔ size = 0 := by
  simp [Terminable, InBlock]

end Stores

/-! ### The round trip -/

def Message.Yields (message : Message) (received : Received) : Prop :=
  received.result = 0 ∧ received.header = message.header ∧
    (message.header.size ≠ 0 → received.datap = .buffer message.payload)

/-- The pointer refers to the payload received, where there is one. -/
def Received.Carried (received : Received) (data : Option (Nat → UInt8)) : Prop :=
  received.header.size ≠ 0 → ∃ memory, data = some memory ∧
    received.datap = .buffer (memoryBytes memory received.header.size.toNat)

def WirePacket.ResentAs (packet : WirePacket) (resent : List UInt8) : Prop :=
  resent.length = packet.bytes.length ∧ ∀ i, i ≠ 6 → i ≠ 7 → resent[i]? = packet.bytes[i]?

theorem yields_onWire (message : Message) (datap : Payload) :
    message.Yields ⟨0, message.onWire.header, message.onWire.datap datap⟩ := by
  refine ⟨rfl, message.onWire_header, fun sized => ?_⟩
  rw [WirePacket.datap, message.onWire_header, if_neg sized]
  rfl

theorem yields_receives (messages : List Message) (datap : Payload) :
    List.Forall₂ Message.Yields messages (receives (messages.map Message.onWire) datap) := by
  induction messages generalizing datap with
  | nil => exact .nil
  | cons message rest ih => exact .cons (yields_onWire message datap) (ih _)

theorem length_onWire (messages : List Message) :
    ((messages.map Message.onWire).flatMap WirePacket.bytes).length =
      (messages.map fun message => MzwPacket.sizeOf + message.header.size.toNat).sum := by
  simp [List.length_flatMap, WirePacket.length_bytes, Function.comp_def]

section Machines
variable (exec : Machine SysOp SysOp.Res Conn) (fd errno : Int) (pkt : MzwPacket) (datap : Payload)

/-- What was sent is what is received, packet by packet and byte by byte. -/
def RoundTrip (messages : List Message) : Prop :=
  ∃ stream, (sendAll fd messages).run exec { errno } = some ((), { outgoing := stream, errno }) ∧
    ∀ count ≤ messages.length, ∃ received left,
      (recvAll fd count pkt datap).run exec { incoming := stream, errno } =
        some (received, { incoming := left, errno }) ∧
      List.Forall₂ Message.Yields (messages.take count) received ∧
      stream.length = ((messages.take count).map fun message =>
        MzwPacket.sizeOf + message.header.size.toNat).sum + left.length ∧
      (count = messages.length → left = [])

/-- Sending a received packet again, with any bytes in its padding. -/
def WirePacket.Resends (packet : WirePacket) (received : Received) : Prop :=
  ∀ padding data, received.Carried data → ∃ answer resent,
    (protoSendPacket fd { received.header with padding } data).run exec { errno } =
      some (answer, { outgoing := resent, errno }) ∧ packet.ResentAs resent

/-- What was received is what is sent again, but for the padding. -/
def SentAgain (packets : List WirePacket) : Prop :=
  ∃ received, (recvAll fd packets.length pkt datap).run exec
      { incoming := packets.flatMap WirePacket.bytes, errno } = some (received, { errno }) ∧
    List.Forall₂ (WirePacket.Resends exec fd errno) packets received

end Machines

theorem resends_received (fd errno : Int) (packet : WirePacket) (before : Payload) :
    packet.Resends connMachine fd errno ⟨0, packet.header, packet.datap before⟩ := by
  intro padding data carried
  have sized : data = none → packet.header.size = 0 := by
    intro absent
    by_contra nonempty
    obtain ⟨memory, given, _⟩ := carried nonempty
    simp [absent] at given
  let message : Message := ⟨{ packet.header with padding }, data, sized⟩
  have payload : message.payload = packet.payload := by
    by_cases empty : packet.header.size = 0
    · rw [packet.payload_nil empty]
      cases given : data with
      | none => simp [message, Message.payload, given]
      | some memory => simp [message, Message.payload, given, empty, memoryBytes]
    · obtain ⟨memory, given, received⟩ := carried empty
      rw [WirePacket.datap, if_neg empty] at received
      injection received with received
      simp only [message, Message.payload, given]
      exact received.symm
  have head : message.onWire.head = ({ packet.header.swapped with padding } : MzwPacket).bytes := rfl
  have bytes : message.onWire.bytes = ((packet.bytes.set 6 padding.1).set 7 padding.2) := by
    rw [WirePacket.bytes, head, MzwPacket.bytes_set_padding, packet.head_eq, WirePacket.bytes]
    simp [packet.headLength, MzwPacket.sizeOf, Message.onWire, payload]
  refine ⟨_, _, protoSendPacket_whole fd message (wholeTransfers_nil _), ?_⟩
  rw [List.nil_append, bytes]
  refine ⟨by simp, fun i before after => ?_⟩
  rw [List.getElem?_set_ne (Ne.symm after), List.getElem?_set_ne (Ne.symm before)]

theorem resends_receives (fd errno : Int) (packets : List WirePacket) (datap : Payload) :
    List.Forall₂ (WirePacket.Resends connMachine fd errno) packets (receives packets datap) := by
  induction packets generalizing datap with
  | nil => exact .nil
  | cons packet packets ih => exact .cons (resends_received fd errno packet datap) (ih _)

section RoundTrips
variable (fd errno : Int) (pkt : MzwPacket) (datap : Payload)

theorem onWire_split (messages : List Message) (count : Nat) :
    (messages.map Message.onWire).flatMap WirePacket.bytes =
      ((messages.take count).map Message.onWire).flatMap WirePacket.bytes ++
        ((messages.drop count).map Message.onWire).flatMap WirePacket.bytes := by
  rw [← List.flatMap_append, ← List.map_append, List.take_append_drop]

section Take
variable (messages : List Message) {count : Nat} (inside : count ≤ messages.length)
include inside

theorem recvAll_take :
    (recvAll fd count pkt datap).run connMachine
        { incoming := (messages.map Message.onWire).flatMap WirePacket.bytes, errno } =
      some (receives ((messages.take count).map Message.onWire) datap,
        { incoming := ((messages.drop count).map Message.onWire).flatMap WirePacket.bytes, errno }) := by
  have ran := recvAll_whole fd ((messages.take count).map Message.onWire) pkt datap
    (c := { incoming := (messages.map Message.onWire).flatMap WirePacket.bytes, errno }) (onWire_split messages count)
    (wholeTransfers_nil _)
  rw [List.length_map, List.length_take_of_le inside] at ran
  simpa using ran

theorem recvAll_take_fits (room : Nat → Int → Prop) :
    (∀ op ∈ (recvAll fd count pkt datap).trace connMachine
        { incoming := (messages.map Message.onWire).flatMap WirePacket.bytes, errno }, op.Fits room) ↔
      ∀ message ∈ messages.take count, Terminable room message.header.size := by
  have within := recvAll_fits room fd ((messages.take count).map Message.onWire) pkt datap
    (c := { incoming := (messages.map Message.onWire).flatMap WirePacket.bytes, errno }) (onWire_split messages count)
    (wholeTransfers_nil _)
  rw [List.length_map, List.length_take_of_le inside] at within
  simpa only [List.forall_mem_map, Message.onWire_header] using within

end Take

theorem roundTrip (messages : List Message) : RoundTrip connMachine fd errno pkt datap messages := by
  refine ⟨_, sendAll_whole fd messages rfl, fun count inside => ?_⟩
  refine ⟨_, _, recvAll_take fd errno pkt datap messages inside, yields_receives _ datap, ?_, fun all => by simp [all]⟩
  rw [List.nil_append, ← length_onWire, ← List.length_append, ← List.flatMap_append, ← List.map_append,
    List.take_append_drop]

theorem sentAgain (packets : List WirePacket) : SentAgain connMachine fd errno pkt datap packets := by
  have ran := recvAll_whole fd packets pkt datap
    (c := { incoming := packets.flatMap WirePacket.bytes, errno }) (List.append_nil _).symm (wholeTransfers_nil _)
  rw [List.drop_nil] at ran
  exact ⟨_, ran, resends_receives fd errno packets datap⟩

section Room
variable (room : Nat → Int → Prop) [∀ allocated index, Decidable (room allocated index)]

theorem roundTrip_iff (messages : List Message) : RoundTrip (storeMachine room) fd errno pkt datap messages ↔
    ∀ message ∈ messages, Terminable room message.header.size := by
  have sends : ∀ c, (sendAll fd messages).run (storeMachine room) c = (sendAll fd messages).run connMachine c :=
    (sendAll_fits room fd messages).run_restrict connMachine
  have whole := sendAll_whole fd messages (c := { errno }) rfl
  rw [List.nil_append] at whole
  constructor
  · rintro ⟨stream, sent, received⟩
    obtain ⟨taken, left, ran, _⟩ := received messages.length le_rfl
    rw [sends, whole] at sent
    cases sent
    have within := recvAll_take_fits fd errno pkt datap messages le_rfl room
    rw [List.take_length] at within
    exact within.mp (Program.run_restrict.mp ran).2
  · intro terminable
    obtain ⟨stream, sent, received⟩ := roundTrip fd errno pkt datap messages
    refine ⟨stream, (sends _).trans sent, fun count inside => ?_⟩
    obtain ⟨taken, left, ran, yielded⟩ := received count inside
    rw [whole] at sent
    cases sent
    have within := (recvAll_take_fits fd errno pkt datap messages inside room).mpr
      fun message present => terminable message (List.mem_of_mem_take present)
    exact ⟨taken, left, Program.run_restrict.mpr ⟨ran, within⟩, yielded⟩

theorem sentAgain_iff (packets : List WirePacket) : SentAgain (storeMachine room) fd errno pkt datap packets ↔
    ∀ packet ∈ packets, Terminable room packet.header.size := by
  have within := recvAll_fits room fd packets pkt datap
    (c := { incoming := packets.flatMap WirePacket.bytes, errno }) (List.append_nil _).symm (wholeTransfers_nil _)
  rw [← within]
  constructor
  · rintro ⟨received, ran, _⟩
    exact (Program.run_restrict.mp ran).2
  · intro every
    obtain ⟨received, ran, resent⟩ := sentAgain fd errno pkt datap packets
    refine ⟨received, Program.run_restrict.mpr ⟨ran, every⟩, resent.imp fun packet taken resends => ?_⟩
    intro padding data carried
    obtain ⟨answer, bytes, sent, same⟩ := resends padding data carried
    have calls := protoSendPacket_fits room fd { taken.header with padding } data
    exact ⟨answer, bytes, (calls.run_restrict connMachine _).trans sent, same⟩

end Room

/-- A stream is received as it was sent, and what was received is sent again as it was, exactly when no
packet has a payload: the terminator of a payload is stored behind its block. That store aside, both hold
of every stream. -/
theorem stream_round_trip_iff :
    (∀ messages : List Message, RoundTrip blockMachine fd errno pkt datap messages ↔
      ∀ message ∈ messages, message.header.size = 0) ∧
    (∀ packets : List WirePacket, SentAgain blockMachine fd errno pkt datap packets ↔
      ∀ packet ∈ packets, packet.header.size = 0) ∧
    (∀ messages, RoundTrip connMachine fd errno pkt datap messages) ∧
    ∀ packets, SentAgain connMachine fd errno pkt datap packets := by
  refine ⟨fun messages => ?_, fun packets => ?_, roundTrip fd errno pkt datap, sentAgain fd errno pkt datap⟩
  · rw [blockMachine, roundTrip_iff]
    exact forall₂_congr fun message _ => terminable_inBlock
  · rw [blockMachine, sentAgain_iff]
    exact forall₂_congr fun packet _ => terminable_inBlock

end RoundTrips

/-- A SEND of 65528 bytes. -/
def longMessage : Message where
  header := { blankPacket with type := MzwPacketType.sendPkt.code, size := 65528 }
  data := some fun _ => 120
  sized := nofun

theorem long_messages_overrun : ¬ RoundTrip blockMachine 3 0 blankPacket .null [longMessage, longMessage, longMessage] := by
  intro received
  have terminable := (roundTrip_iff _ _ _ _ InBlock _).mp received longMessage List.mem_cons_self
  exact absurd (terminable_inBlock.mp terminable) (by decide)

end MazeWar
