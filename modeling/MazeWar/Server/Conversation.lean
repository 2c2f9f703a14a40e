import MazeWar.Protocol.Stream
import MazeWar.Server.Deletion
import MazeWar.Server.Replies

/-!
# A client and its thread

What a client passes to `proto_send_packet` is carried out by the thread, and what the thread
answers to logins is what the client gets from `proto_recv_packet`, although the size of a reply
is never assigned, among the packets that the functions of the players send to it.
-/

namespace MazeWar
open Foundation

/-! ### What the thread makes of messages -/

namespace Standing

end Standing

def taken (messages : List Message) : List (Option WirePacket) := messages.map fun message => some message.onWire

/-- A reply as a message: whatever size was left in its header, so many bytes follow it. -/
def Outbox.message (outbox : Outbox) (code : UInt8) : Message where
  header := outbox.header code
  data := some (outbox.memory 0)
  sized := by rintro ⟨⟩

def Outbox.messages : Outbox → List UInt8 → List Message
  | _, [] => []
  | outbox, code :: codes => outbox.message code :: outbox.next.messages codes

def Message.bytes (message : Message) : List UInt8 := message.onWire.bytes

theorem sentBytes_message (pkt : MzwPacket) (memory : Nat → UInt8) (sized) :
    sentBytes [] pkt memory = Message.bytes ⟨pkt, some memory, sized⟩ := by
  simp [sentBytes, Transfer.bytes, Message.bytes, Message.onWire, WirePacket.bytes, Message.payload]

def IsReply (message : Message) : Prop :=
  message.header.type = MzwPacketType.readyPkt.code ∨ message.header.type = MzwPacketType.inusePkt.code

instance : DecidablePred IsReply := fun _ => inferInstanceAs (Decidable (_ ∨ _))

/-- A packet that the operation sends is READY or INUSE. -/
def ServiceOp.Replies : ServiceOp → Prop
  | .protoSendPacket _ pkt => pkt.type = MzwPacketType.readyPkt.code ∨ pkt.type = MzwPacketType.inusePkt.code
  | _ => True

/-- The thread's world, with what the players' functions, called by this thread or by others, send to its
client: after each operation of the thread the next of the lists `said`. `sent` is everything that has been
sent to the client. -/
structure Host where
  world : World
  said : List (List Message)
  sent : List Message

namespace Host

def own (h : Host) : ServiceOp → List Message
  | .protoSendPacket _ pkt => [⟨pkt, some (h.world.memory 0), nofun⟩]
  | _ => []

def after (h : Host) (op : ServiceOp) (w : World) : Host where
  world :=
    { w with
      conn := { w.conn with outgoing := w.conn.outgoing ++ (h.said.headD []).flatMap Message.bytes } }
  said := h.said.tail
  sent := h.sent ++ (h.own op ++ h.said.headD [])

def exec : Machine ServiceOp ServiceOp.Res Host := fun op h =>
  (World.exec op h.world).map fun answer => (answer.1, h.after op answer.2)

def start (inbox : Inbox) (logins : List PlayerPtr) (outbox : Outbox) (said : List (List Message)) : Host :=
  ⟨.start inbox logins outbox, said, []⟩

end Host

/-! ### The thread does not notice -/

/-- The operation does not write. -/
def SysOp.Reads : SysOp → Prop
  | .write _ _ => False
  | _ => True

theorem protoRecvPacket_reads (fd : Int) (pkt : MzwPacket) (datap : Payload) :
    (protoRecvPacket fd pkt datap).Calls SysOp.Reads := by
  refine ⟨trivial, fun header => ?_⟩
  dsimp only [Program.bind]
  split
  · refine ⟨trivial, fun errno => ?_⟩
    dsimp only [Program.bind]
    split
    · exact ⟨trivial, fun _ => trivial⟩
    · trivial
  · split
    · refine ⟨trivial, fun payload => ⟨trivial, fun _ => ?_⟩⟩
      dsimp only [Program.bind]
      split <;> trivial
    · trivial

theorem connMachine_kept {op : SysOp} {result : op.Res} {c d : Conn} (reads : op.Reads)
    (executed : connMachine op c = some (result, d)) : d.outgoing = c.outgoing ∧ d.writes = c.writes := by
  cases op with
  | read fd n =>
    obtain rfl : (c.read n).2 = d := congrArg Prod.snd (Option.some.inj executed)
    unfold Conn.read
    split <;> exact ⟨rfl, rfl⟩
  | write fd bytes => exact reads.elim
  | getErrno | setErrno value | poke allocated index =>
    cases executed
    exact ⟨rfl, rfl⟩

namespace Host

/-- What has been written to the client is what was sent to it: the replies, and what the players'
functions had to say, of which all but `said` has been sent. -/
structure Told (all : List Message) (h : Host) : Prop where
  unlimited : h.world.conn.writes = []
  written : h.world.conn.outgoing = h.sent.flatMap Message.bytes
  replied : (h.sent.filter (IsReply ·)).map Message.bytes = h.world.replies
  rest : h.sent.filter (¬ IsReply ·) ++ h.said.flatten = all
  quiet : ∀ message ∈ h.said.flatten, ¬ IsReply message

theorem headD_append_tail {α : Type} (lists : List (List α)) : lists.headD [] ++ lists.tail.flatten = lists.flatten := by
  cases lists <;> rfl

theorem Told.speak {all : List Message} {h : Host} (told : h.Told all) {op : ServiceOp} {w : World}
    (unlimited : w.conn.writes = []) (written : w.conn.outgoing = h.world.conn.outgoing ++ (h.own op).flatMap Message.bytes)
    (replied : w.replies = h.world.replies ++ (h.own op).map Message.bytes) (own : ∀ message ∈ h.own op, IsReply message) :
    (h.after op w).Told all := by
  have heard : ∀ message ∈ h.said.headD [], ¬ IsReply message := fun message present =>
    told.quiet message (headD_append_tail h.said ▸ List.mem_append_left _ present)
  have others : ∀ message ∈ h.said.tail.flatten, ¬ IsReply message := fun message present =>
    told.quiet message (headD_append_tail h.said ▸ List.mem_append_right _ present)
  have answers : (h.own op).filter (IsReply ·) = h.own op ∧ (h.own op).filter (¬ IsReply ·) = [] :=
    ⟨List.filter_eq_self.mpr fun m present => decide_eq_true (own m present),
      List.filter_eq_nil_iff.mpr fun m present => by simpa using own m present⟩
  have chatter : (h.said.headD []).filter (IsReply ·) = [] ∧
      (h.said.headD []).filter (¬ IsReply ·) = h.said.headD [] :=
    ⟨List.filter_eq_nil_iff.mpr fun m present => by simpa using heard m present,
      List.filter_eq_self.mpr fun m present => decide_eq_true (heard m present)⟩
  have replies : (h.after op w).sent.filter (IsReply ·) = h.sent.filter (IsReply ·) ++ h.own op := by
    rw [after, List.filter_append, List.filter_append, answers.1, chatter.1, List.append_nil]
  have rest : (h.after op w).sent.filter (¬ IsReply ·) = h.sent.filter (¬ IsReply ·) ++ h.said.headD [] := by
    rw [after, List.filter_append, List.filter_append, answers.2, chatter.2, List.nil_append]
  refine ⟨unlimited, ?_, ?_, ?_, others⟩
  · simp [after, written, told.written]
  · rw [replies, List.map_append, told.replied]
    exact replied.symm
  · rw [rest, List.append_assoc]
    exact (congrArg _ (headD_append_tail h.said)).trans told.rest

theorem Told.step {all : List Message} {h t : Host} {op : ServiceOp} {result : op.Res} (told : h.Told all)
    (replies : op.Replies) (executed : exec op h = some (result, t)) : t.Told all := by
  obtain ⟨⟨answer, w⟩, ran, same⟩ := Option.map_eq_some_iff.mp executed
  cases same
  cases op with
  | protoSendPacket fd pkt =>
    obtain ⟨⟨answer, d⟩, sends, same⟩ := Option.map_eq_some_iff.mp ran
    cases same
    obtain ⟨sent, data⟩ := protoSendPacket_data fd pkt (h.world.memory 0) h.world.conn
    rw [data, told.unlimited, sentBytes_message pkt (h.world.memory 0) nofun] at sends
    cases sends
    refine told.speak rfl ?_ ?_ fun message present => ?_
    · simp [own]
    · simp [own]
    · obtain rfl := List.mem_singleton.mp present
      exact replies
  | protoRecvPacket fd pkt datap =>
    obtain ⟨⟨answer, d⟩, receives, same⟩ := Option.map_eq_some_iff.mp ran
    cases same
    obtain ⟨outgoing, writes⟩ : d.outgoing = h.world.conn.outgoing ∧ d.writes = h.world.conn.writes :=
      (protoRecvPacket_reads fd pkt datap).keeps
        (I := fun c => c.outgoing = h.world.conn.outgoing ∧ c.writes = h.world.conn.writes)
        (fun _ _ _ _ reads executed here => by
          obtain ⟨outgoing, writes⟩ := connMachine_kept reads executed
          exact ⟨outgoing.trans here.1, writes.trans here.2⟩) receives ⟨rfl, rfl⟩
    exact told.speak (writes.trans told.unlimited) (by simp [own, outgoing]) (by simp [own]) nofun
  | _ =>
    cases ran
    exact told.speak told.unlimited (List.append_nil _).symm (List.append_nil _).symm nofun

end Host

/-! ### Both ends -/

def Message.plain (type : MzwPacketType) (param1 : Int8) : Message where
  header := ⟨type.code, param1, 0, 0, 0, (0, 0), 0, 0⟩
  data := none
  sized _ := rfl

/-- A message with a payload of one letter. -/
def Message.lettered (type : MzwPacketType) (param1 : Int8) (letter : UInt8) : Message where
  header := ⟨type.code, param1, 0, 0, 1, (0, 0), 0, 0⟩
  data := some fun _ => letter
  sized := nofun

end MazeWar
