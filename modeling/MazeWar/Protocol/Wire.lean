import MazeWar.Protocol.Model

/-!
# The wire format

What `proto_send_packet` writes and `proto_recv_packet` reads, when calls transfer what
they are asked to, and that each undoes the other over whole streams.
-/

namespace MazeWar
open Foundation

theorem htons_htons (x : UInt16) : htons (htons x) = x := by
  have small : byteSwap 2 x.toNat < 2 ^ 16 := byteSwap_lt 2 x.toNat
  have word : x.toNat < 256 ^ 2 := x.toNat_lt
  rw [htons, htons, UInt16.toNat_ofNat', Nat.mod_eq_of_lt small, byteSwap_byteSwap, Nat.mod_eq_of_lt word,
    UInt16.ofNat_toNat]

theorem htonl_htonl (x : UInt32) : htonl (htonl x) = x := by
  have small : byteSwap 4 x.toNat < 2 ^ 32 := byteSwap_lt 4 x.toNat
  have word : x.toNat < 256 ^ 4 := x.toNat_lt
  rw [htonl, htonl, UInt32.toNat_ofNat', Nat.mod_eq_of_lt small, byteSwap_byteSwap, Nat.mod_eq_of_lt word,
    UInt32.ofNat_toNat]

@[simp] theorem length_memoryBytes (memory : Nat → UInt8) (n : Nat) : (memoryBytes memory n).length = n := by
  simp [memoryBytes]

namespace MzwPacket
variable (pkt : MzwPacket)

@[simp] theorem swapped_swapped : pkt.swapped.swapped = pkt := by
  simp only [swapped, htons_htons, htonl_htonl]

@[simp] theorem length_bytes : pkt.bytes.length = sizeOf := by
  simp [bytes, sizeOf]

theorem ofBytes_bytes : ofBytes pkt.bytes = pkt := by
  obtain ⟨type, p, q, r, size, padding, sec, nsec⟩ := pkt
  obtain ⟨s₀, s₁, sizeShape⟩ := littleEndian_two size.toNat
  obtain ⟨a₀, a₁, a₂, a₃, secShape⟩ := littleEndian_four sec.toNat
  obtain ⟨b₀, b₁, b₂, b₃, nsecShape⟩ := littleEndian_four nsec.toNat
  have sizeBack := uint16_of_littleEndian size
  have secBack := uint32_of_littleEndian sec
  have nsecBack := uint32_of_littleEndian nsec
  rw [sizeShape] at sizeBack
  rw [secShape] at secBack
  rw [nsecShape] at nsecBack
  simp [ofBytes, bytes, sizeShape, secShape, nsecShape, sizeBack, secBack, nsecBack]

theorem bytes_ofBytes {memory : List UInt8} (whole : memory.length = sizeOf) :
    (ofBytes memory).bytes = memory := by
  match memory, whole with
  | [t, p, q, r, s₀, s₁, x, y, a₀, a₁, a₂, a₃, b₀, b₁, b₂, b₃], _ =>
    have size := littleEndian_of_uint16 (show [s₀, s₁].length = 2 from rfl)
    have sec := littleEndian_of_uint32 (show [a₀, a₁, a₂, a₃].length = 4 from rfl)
    have nsec := littleEndian_of_uint32 (show [b₀, b₁, b₂, b₃].length = 4 from rfl)
    simp only [ofBytes, bytes, List.drop_succ_cons, List.drop_zero, List.take_succ_cons, List.take_zero,
      List.take_nil, size, sec, nsec]
    simp

theorem overwrite_nil : pkt.overwrite [] = pkt := by
  simp [overwrite, ofBytes_bytes]

theorem overwrite_whole {stored : List UInt8} (whole : stored.length = sizeOf) :
    pkt.overwrite stored = ofBytes stored := by
  rw [overwrite, List.drop_of_length_le (by rw [length_bytes, whole]), List.append_nil]

theorem bytes_set_padding (padding : UInt8 × UInt8) :
    ({ pkt with padding } : MzwPacket).bytes = (pkt.bytes.set 6 padding.1).set 7 padding.2 := by
  obtain ⟨s₀, s₁, sizeShape⟩ := littleEndian_two pkt.size.toNat
  simp [bytes, sizeShape]

end MzwPacket

/-! ### Packets on the wire -/

def blankPacket : MzwPacket := ⟨0, 0, 0, 0, 0, (0, 0), 0, 0⟩

/-- The bytes of one complete packet: a header in network byte order and the payload whose
length that header gives. -/
structure WirePacket where
  head : List UInt8
  payload : List UInt8
  headLength : head.length = MzwPacket.sizeOf
  payloadLength : payload.length = (MzwPacket.ofBytes head).swapped.size.toNat

namespace WirePacket
variable (packet : WirePacket)

def header : MzwPacket := (MzwPacket.ofBytes packet.head).swapped

def bytes : List UInt8 := packet.head ++ packet.payload

def datap (before : Payload) : Payload :=
  if packet.header.size = 0 then before else .buffer packet.payload

/-- The lengths that the `read` calls of one receive ask for. -/
def asked : List Nat :=
  MzwPacket.sizeOf :: if packet.header.size = 0 then [] else [packet.header.size.toNat]

theorem length_bytes : packet.bytes.length = MzwPacket.sizeOf + packet.header.size.toNat := by
  simp [bytes, header, packet.headLength, packet.payloadLength]

theorem payload_nil (empty : packet.header.size = 0) : packet.payload = [] := by
  apply List.eq_nil_of_length_eq_zero
  rw [packet.payloadLength]
  exact congrArg UInt16.toNat empty

theorem head_eq : packet.header.swapped.bytes = packet.head := by
  rw [header, MzwPacket.swapped_swapped, MzwPacket.bytes_ofBytes packet.headLength]

def request (type : MzwPacketType) (param1 : UInt8) : WirePacket where
  head := type.code :: param1 :: List.replicate 14 0
  payload := []
  headLength := rfl
  payloadLength := by
    change 0 = (htons (UInt16.ofNat (fromLittleEndian [0, 0]))).toNat
    decide

/-- A request with a payload of one letter. -/
def lettered (type : MzwPacketType) (param1 letter : UInt8) : WirePacket where
  head := type.code :: param1 :: 0 :: 0 :: 0 :: 1 :: List.replicate 10 0
  payload := [letter]
  headLength := rfl
  payloadLength := by
    change 1 = (htons (UInt16.ofNat (fromLittleEndian [0, 1]))).toNat
    decide

end WirePacket

/-- What a caller of `proto_send_packet` passes: no data only without a payload. -/
structure Message where
  header : MzwPacket
  data : Option (Nat → UInt8)
  sized : data = none → header.size = 0

namespace Message
variable (message : Message)

def payload : List UInt8 :=
  match message.data with
  | none => []
  | some memory => memoryBytes memory message.header.size.toNat

def onWire : WirePacket where
  head := message.header.swapped.bytes
  payload := message.payload
  headLength := MzwPacket.length_bytes _
  payloadLength := by
    rw [MzwPacket.ofBytes_bytes, MzwPacket.swapped_swapped, payload]
    cases given : message.data with
    | none => simp [message.sized given]
    | some memory => simp

@[simp] theorem onWire_header : message.onWire.header = message.header := by
  rw [WirePacket.header, onWire, MzwPacket.ofBytes_bytes, MzwPacket.swapped_swapped]

end Message

/-! ### Calls that transfer what they are asked to -/

def Transfer.count : Transfer → Nat → Nat
  | .full, n => n
  | .upTo limit, n => min (max 1 limit) n
  | .fails _, _ => 0

theorem Transfer.bytes_eq_take (transfer : Transfer) (bytes : List UInt8) :
    transfer.bytes bytes = bytes.take (transfer.count bytes.length) := by
  cases transfer with
  | full => exact List.take_length.symm
  | upTo limit => simp [Transfer.bytes, Transfer.count, List.take_eq_take_iff]
  | fails errno => rfl

theorem Transfer.count_le (transfer : Transfer) (n : Nat) : transfer.count n ≤ n := by
  cases transfer with
  | full => exact le_refl n
  | upTo limit => exact min_le_right _ _
  | fails errno => exact Nat.zero_le n

theorem Transfer.length_bytes (transfer : Transfer) (bytes : List UInt8) :
    (transfer.bytes bytes).length = transfer.count bytes.length := by
  rw [transfer.bytes_eq_take, List.length_take_of_le (transfer.count_le _)]

def Transfer.Whole : Transfer → Nat → Prop
  | .full, _ => True
  | .upTo limit, n => n ≤ max 1 limit
  | .fails _, _ => False

instance (transfer : Transfer) (n : Nat) : Decidable (transfer.Whole n) := by
  cases transfer <;> unfold Transfer.Whole <;> infer_instance

def WholeTransfers : List Nat → List Transfer → Prop
  | [], _ => True
  | n :: asked, plan => (plan.headD .full).Whole n ∧ WholeTransfers asked plan.tail

def decidableWholeTransfers : (asked : List Nat) → (plan : List Transfer) → Decidable (WholeTransfers asked plan)
  | [], _ => inferInstanceAs (Decidable True)
  | _ :: asked, plan =>
    have := decidableWholeTransfers asked plan.tail
    inferInstanceAs (Decidable (_ ∧ _))

instance (asked : List Nat) (plan : List Transfer) : Decidable (WholeTransfers asked plan) :=
  decidableWholeTransfers asked plan

theorem Transfer.Whole.bytes {transfer : Transfer} {bytes : List UInt8} (whole : transfer.Whole bytes.length) :
    transfer.bytes bytes = bytes := by
  cases transfer with
  | full => rfl
  | upTo limit => exact List.take_of_length_le whole
  | fails errno => exact whole.elim

theorem wholeTransfers_append (first second : List Nat) (plan : List Transfer) :
    WholeTransfers (first ++ second) plan ↔
      WholeTransfers first plan ∧ WholeTransfers second (plan.drop first.length) := by
  induction first generalizing plan with
  | nil => simp [WholeTransfers]
  | cons n first ih => simp [WholeTransfers, ih, and_assoc]

theorem wholeTransfers_nil (asked : List Nat) : WholeTransfers asked [] := by
  induction asked with
  | nil => trivial
  | cons n asked ih => exact ⟨trivial, ih⟩

def Transfer.Succeeds : Transfer → Prop
  | .fails _ => False
  | _ => True

instance (transfer : Transfer) : Decidable transfer.Succeeds := by
  cases transfer <;> unfold Transfer.Succeeds <;> infer_instance

theorem Transfer.Whole.succeeds {transfer : Transfer} {n : Nat} (whole : transfer.Whole n) : transfer.Succeeds := by
  cases transfer with
  | full | upTo limit => trivial
  | fails errno => exact whole

theorem Conn.read_succeeds {c : Conn} (n : Nat) (succeeds : (c.reads.headD .full).Succeeds) :
    c.read n = (.got ((c.reads.headD .full).bytes (c.incoming.take n)),
      { c with
        reads := c.reads.tail
        incoming := c.incoming.drop ((c.reads.headD .full).bytes (c.incoming.take n)).length }) := by
  unfold Conn.read
  cases next : c.reads.headD .full with
  | fails errno =>
    rw [next] at succeeds
    exact succeeds.elim
  | full => rfl
  | upTo limit => rfl

theorem Conn.read_whole {c : Conn} {n : Nat} {bytes rest : List UInt8} (incoming : c.incoming = bytes ++ rest)
    (length : bytes.length = n) (whole : (c.reads.headD .full).Whole n) :
    c.read n = (.got bytes, { c with reads := c.reads.tail, incoming := rest }) := by
  subst length
  have taken : c.incoming.take bytes.length = bytes := by rw [incoming, List.take_left]
  have dropped : c.incoming.drop bytes.length = rest := by rw [incoming, List.drop_left]
  rw [c.read_succeeds _ whole.succeeds, taken, whole.bytes, dropped]

theorem Conn.read_drained {c : Conn} (n : Nat) (drained : c.incoming = [])
    (succeeds : (c.reads.headD .full).Succeeds) : c.read n = (.got [], { c with reads := c.reads.tail }) := by
  have nothing : (c.reads.headD .full).bytes [] = [] := by
    cases c.reads.headD .full <;> simp [Transfer.bytes]
  rw [c.read_succeeds _ succeeds, drained, List.take_nil, nothing, List.drop_nil, ← drained]

theorem Conn.write_whole {c : Conn} {bytes : List UInt8} (whole : (c.writes.headD .full).Whole bytes.length) :
    c.write bytes = ((bytes.length : Int), { c with writes := c.writes.tail, outgoing := c.outgoing ++ bytes }) := by
  have kept := whole.bytes
  unfold Conn.write
  cases next : c.writes.headD .full with
  | fails errno =>
    rw [next] at whole
    exact whole.elim
  | full => rfl
  | upTo limit => rw [next] at kept; simp [kept]

/-- The result is judged by the size that has been converted in place. -/
def Message.sendResult (message : Message) : Int :=
  if message.data.isSome ∧ message.header.size ≠ htons message.header.size then -1 else 0

def Message.asked (message : Message) : List Nat :=
  MzwPacket.sizeOf :: if message.data.isSome then [message.header.size.toNat] else []

theorem protoSendPacket_whole (fd : Int) (message : Message) {c : Conn}
    (whole : WholeTransfers message.asked c.writes) :
    (protoSendPacket fd message.header message.data).run connMachine c =
      some ((message.sendResult, message.header.swapped),
        { c with writes := c.writes.drop message.asked.length, outgoing := c.outgoing ++ message.onWire.bytes }) := by
  obtain ⟨header, data, sized⟩ := message
  have headLength : header.swapped.bytes.length = MzwPacket.sizeOf := MzwPacket.length_bytes _
  have headWhole : (c.writes.headD .full).Whole header.swapped.bytes.length := headLength ▸ whole.1
  have headWrite := Conn.write_whole headWhole
  cases data with
  | none =>
    simp [protoSendPacket, Program.run_call, connMachine, headWrite, headLength, Message.sendResult, Message.asked,
      Message.onWire, Message.payload, WirePacket.bytes]
  | some memory =>
    have length := length_memoryBytes memory header.size.toNat
    have bodyWhole : (c.writes.tail.headD .full).Whole (memoryBytes memory header.size.toNat).length := by
      rw [length]; exact whole.2.1
    have bodyWrite := Conn.write_whole
      (c := { c with writes := c.writes.tail, outgoing := c.outgoing ++ header.swapped.bytes }) bodyWhole
    have sizes : ((header.size.toNat : Int) = header.swapped.size.toNat) ↔ header.size = htons header.size := by
      rw [Nat.cast_inj, UInt16.toNat_inj]; rfl
    have twice : c.writes.tail.tail = c.writes.drop 2 := by rw [← List.drop_one, List.drop_tail]
    simp only [protoSendPacket, Program.perform_bind, Program.run_call, connMachine, headWrite, headLength,
      bodyWrite, length, Option.bind_some, sizes, ne_eq, not_true_eq_false, if_false, Message.sendResult,
      Message.asked, Message.onWire, Message.payload, WirePacket.bytes, Option.isSome_some, true_and, if_true,
      List.length_cons, List.length_nil, twice, List.append_assoc]
    split <;> rfl

/-! ### Any transfers -/

/-- A receive that does not get a whole header judges by `errno` whether it was interrupted. -/
theorem protoRecvPacket_without_header (fd : Int) (pkt : MzwPacket) (datap : Payload) {c d : Conn}
    {header : ReadResult} (read : c.read MzwPacket.sizeOf = (header, d))
    (short : header.count ≠ (MzwPacket.sizeOf : Int)) :
    (protoRecvPacket fd pkt datap).run connMachine c =
      some (if d.errno = eintr then ((0, (pkt.overwrite header.stored).swapped, datap), { d with errno := 0 })
        else ((-1, (pkt.overwrite header.stored).swapped, datap), d)) := by
  simp only [protoRecvPacket, Program.perform_bind, Program.run_call, connMachine, read, Option.bind_some, ne_eq,
    short, not_false_eq_true, if_true]
  by_cases interrupted : d.errno = eintr
  · simp [interrupted, Program.run_call, connMachine]
  · simp [interrupted]

theorem Conn.write_state (c : Conn) (bytes : List UInt8) :
    (c.write bytes).2 =
      { c with
        writes := c.writes.tail
        outgoing := c.outgoing ++ (c.writes.headD .full).bytes bytes
        errno := (c.writes.headD .full).errno c.errno } := by
  unfold Conn.write
  cases c.writes.headD .full with
  | full => rfl
  | upTo limit => rfl
  | fails errno => simp [Transfer.bytes, Transfer.errno]

theorem Conn.write_count {c : Conn} {bytes : List UInt8} {n : Nat} (some : 0 < n) :
    (c.write bytes).1 = (n : Int) ↔ ((c.writes.headD .full).bytes bytes).length = n := by
  unfold Conn.write
  cases c.writes.headD .full with
  | full => exact Nat.cast_inj
  | upTo limit => exact Nat.cast_inj
  | fails errno =>
    simp only [Transfer.bytes, List.length_nil]
    omega

/-- The bytes that a send with a data pointer writes, as its calls transfer them. -/
def sentBytes (plan : List Transfer) (pkt : MzwPacket) (memory : Nat → UInt8) : List UInt8 :=
  let head := (plan.headD .full).bytes pkt.swapped.bytes
  if head.length = MzwPacket.sizeOf then
    head ++ (plan.tail.headD .full).bytes (memoryBytes memory pkt.size.toNat)
  else head

def sentCalls (plan : List Transfer) : Nat :=
  if (plan.headD .full).count MzwPacket.sizeOf = MzwPacket.sizeOf then 2 else 1

def sentErrno (plan : List Transfer) (errno : Int) : Int :=
  if (plan.headD .full).count MzwPacket.sizeOf = MzwPacket.sizeOf then
    (plan.tail.headD .full).errno ((plan.headD .full).errno errno)
  else (plan.headD .full).errno errno

theorem protoSendPacket_data (fd : Int) (pkt : MzwPacket) (memory : Nat → UInt8) (c : Conn) :
    ∃ result, (protoSendPacket fd pkt (some memory)).run connMachine c = some ((result, pkt.swapped),
      { c with
        writes := c.writes.drop (sentCalls c.writes)
        outgoing := c.outgoing ++ sentBytes c.writes pkt memory
        errno := sentErrno c.writes c.errno }) := by
  have count : (c.write pkt.swapped.bytes).1 = (MzwPacket.sizeOf : Int) ↔
      ((c.writes.headD .full).bytes pkt.swapped.bytes).length = MzwPacket.sizeOf := Conn.write_count (by decide)
  have length : ((c.writes.headD .full).bytes pkt.swapped.bytes).length =
      (c.writes.headD .full).count MzwPacket.sizeOf := by rw [Transfer.length_bytes, MzwPacket.length_bytes]
  unfold protoSendPacket sentBytes sentCalls sentErrno
  simp only [Program.perform_bind, Program.run_call, connMachine, Option.bind_some]
  rw [length] at count ⊢
  by_cases whole : (c.writes.headD .full).count MzwPacket.sizeOf = MzwPacket.sizeOf
  · have first := count.mpr whole
    have twice : c.writes.tail.tail = c.writes.drop 2 := by rw [← List.drop_one, List.drop_tail]
    simp only [first, ne_eq, not_true_eq_false, if_false, Program.run_call, connMachine, Option.bind_some, whole,
      if_true, Conn.write_state, twice, List.append_assoc]
    split
    · exact ⟨-1, rfl⟩
    · exact ⟨0, rfl⟩
  · have short : (c.write pkt.swapped.bytes).1 ≠ (MzwPacket.sizeOf : Int) := fun equal => whole (count.mp equal)
    rw [if_pos short, if_neg whole, if_neg whole, if_neg whole, Conn.write_state]
    exact ⟨-1, by simp⟩

theorem Conn.write_alike {c d : Conn} (same : c.writes = d.writes) (bytes : List UInt8) :
    (c.write bytes).1 = (d.write bytes).1 ∧ (c.write bytes).2.writes = (d.write bytes).2.writes := by
  refine ⟨?_, by rw [Conn.write_state, Conn.write_state, same]⟩
  unfold Conn.write
  rw [same]
  cases d.writes.headD .full <;> rfl

/-- What a send returns is decided by the packet, its data and the plan of the connection. -/
theorem protoSendPacket_result (fd fd' : Int) (pkt : MzwPacket) (data : Option (Nat → UInt8)) {c d : Conn}
    (same : c.writes = d.writes) :
    ((protoSendPacket fd pkt data).run connMachine c).map (fun answer => answer.1) =
      ((protoSendPacket fd' pkt data).run connMachine d).map fun answer => answer.1 := by
  obtain ⟨first, left⟩ := Conn.write_alike same pkt.swapped.bytes
  unfold protoSendPacket
  simp only [Program.perform_bind, Program.run_call, connMachine, Option.bind_some, first]
  by_cases whole : (d.write pkt.swapped.bytes).1 = (MzwPacket.sizeOf : Int)
  · cases data with
    | none => simp [whole]
    | some memory =>
      obtain ⟨second, _⟩ := Conn.write_alike left (memoryBytes memory pkt.size.toNat)
      simp only [whole, ne_eq, not_true_eq_false, if_false, Program.run_call, connMachine, Option.bind_some, second]
      split <;> rfl
  · simp [whole]

/-- The calls of a receive that gets a whole packet. -/
def WirePacket.made (packet : WirePacket) (fd : Int) : List SysOp :=
  .read fd MzwPacket.sizeOf ::
    if packet.header.size = 0 then []
    else [.read fd packet.header.size.toNat, .poke packet.header.size.toNat packet.header.size.toNat]

section Whole
variable (fd : Int) (packet : WirePacket) (pkt : MzwPacket) (datap : Payload) {c : Conn} {rest : List UInt8}
  (incoming : c.incoming = packet.bytes ++ rest) (whole : WholeTransfers packet.asked c.reads)
include incoming whole

theorem protoRecvPacket_makes :
    (protoRecvPacket fd pkt datap).run connMachine c =
        some ((0, packet.header, packet.datap datap),
          { c with reads := c.reads.drop packet.asked.length, incoming := rest }) ∧
      (protoRecvPacket fd pkt datap).trace connMachine c = packet.made fd := by
  have split : c.incoming = packet.head ++ (packet.payload ++ rest) := by
    rw [incoming, WirePacket.bytes, List.append_assoc]
  have headRead := Conn.read_whole split packet.headLength whole.1
  have header : (pkt.overwrite packet.head).swapped = packet.header := by
    rw [MzwPacket.overwrite_whole pkt packet.headLength, WirePacket.header]
  by_cases empty : packet.header.size = 0
  · simp [protoRecvPacket, Program.run_call, Program.trace, connMachine, headRead, ReadResult.stored,
      ReadResult.count, header, packet.headLength, empty, packet.payload_nil empty, WirePacket.asked,
      WirePacket.datap, WirePacket.made]
  · have bodyWhole : (c.reads.tail.headD .full).Whole packet.header.size.toNat := by
      have tailWhole := whole.2
      rw [if_neg empty] at tailWhole
      exact tailWhole.1
    have bodyRead := Conn.read_whole (c := { c with reads := c.reads.tail, incoming := packet.payload ++ rest })
      rfl packet.payloadLength bodyWhole
    have size : (MzwPacket.ofBytes packet.head).swapped.size.toNat = packet.header.size.toNat := rfl
    have twice : c.reads.tail.tail = c.reads.drop 2 := by rw [← List.drop_one, List.drop_tail]
    rw [size] at bodyRead
    simp [protoRecvPacket, Program.run_call, Program.trace, connMachine, headRead, bodyRead, ReadResult.stored,
      ReadResult.count, header, packet.headLength, packet.payloadLength, size, empty, WirePacket.asked,
      WirePacket.datap, WirePacket.made, twice]

theorem protoRecvPacket_whole :
    (protoRecvPacket fd pkt datap).run connMachine c =
      some ((0, packet.header, packet.datap datap),
        { c with reads := c.reads.drop packet.asked.length, incoming := rest }) :=
  (protoRecvPacket_makes fd packet pkt datap incoming whole).1

theorem protoRecvPacket_trace : (protoRecvPacket fd pkt datap).trace connMachine c = packet.made fd :=
  (protoRecvPacket_makes fd packet pkt datap incoming whole).2

end Whole

end MazeWar
