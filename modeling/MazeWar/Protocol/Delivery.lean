import MazeWar.Protocol.Stream

/-!
# How a stream is delivered

The reads of a receive take what one `read` call gives them. A stream is received as it
was sent exactly when no call gives less than it was asked for.
-/

namespace MazeWar
open Foundation

def reception (fd : Int) (stream : List UInt8) (plan : List Transfer) (errno : Int) (count : Nat)
    (pkt : MzwPacket) (datap : Payload) : Option (List Received) :=
  ((recvAll fd count pkt datap).run connMachine { incoming := stream, reads := plan, errno }).map Prod.fst

def SameReception (fd : Int) (packets : List WirePacket) (errno : Int) (pkt : MzwPacket) (datap : Payload)
    (first second : List Transfer) : Prop :=
  ∀ count, reception fd (packets.flatMap WirePacket.bytes) first errno count pkt datap =
    reception fd (packets.flatMap WirePacket.bytes) second errno count pkt datap

/-- No call of the delivery that reads the packets gives less than it was asked for. -/
def NoShortRead (packets : List WirePacket) (plan : List Transfer) : Prop :=
  WholeTransfers (packets.flatMap WirePacket.asked) plan

/-! ### Deliveries without a short read -/

def receptions : List WirePacket → Nat → MzwPacket → Payload → List Received
  | _, 0, _, _ => []
  | [], n + 1, pkt, datap => ⟨-1, pkt.swapped, datap⟩ :: receptions [] n pkt.swapped datap
  | packet :: packets, n + 1, _, datap =>
    ⟨0, packet.header, packet.datap datap⟩ :: receptions packets n packet.header (packet.datap datap)

theorem next_succeeds {plan : List Transfer} (steady : ∀ transfer ∈ plan, transfer.Succeeds) :
    (plan.headD .full).Succeeds := by
  rcases plan with _ | ⟨next, later⟩
  · trivial
  · exact steady next List.mem_cons_self

theorem protoRecvPacket_drained (fd : Int) (pkt : MzwPacket) (datap : Payload) {c : Conn} (drained : c.incoming = [])
    (steady : ∀ transfer ∈ c.reads, transfer.Succeeds) (quiet : c.errno ≠ eintr) :
    (protoRecvPacket fd pkt datap).run connMachine c =
      some ((-1, pkt.swapped, datap), { c with reads := c.reads.tail }) := by
  have received := protoRecvPacket_without_header fd pkt datap (Conn.read_drained _ drained (next_succeeds steady)) (by decide)
  rw [received, if_neg quiet, ReadResult.stored, MzwPacket.overwrite_nil]

theorem recvAll_receptions (fd : Int) (packets : List WirePacket) (count : Nat) (pkt : MzwPacket) (datap : Payload)
    {c : Conn} (incoming : c.incoming = packets.flatMap WirePacket.bytes) (steady : ∀ transfer ∈ c.reads, transfer.Succeeds)
    (quiet : c.errno ≠ eintr) (whole : NoShortRead packets c.reads) :
    ∃ t, (recvAll fd count pkt datap).run connMachine c = some (receptions packets count pkt datap, t) := by
  induction count generalizing packets pkt datap c with
  | zero => exact ⟨c, by simp [recvAll, receptions]⟩
  | succ count ih =>
    cases packets with
    | nil =>
      have ended := protoRecvPacket_drained fd pkt datap incoming steady quiet
      obtain ⟨t, later⟩ := ih [] pkt.swapped datap (c := { c with reads := c.reads.tail }) incoming
        (fun transfer planned => steady transfer (List.mem_of_mem_tail planned)) quiet trivial
      exact ⟨t, recvAll_succ ended later⟩
    | cons packet packets =>
      rw [NoShortRead, List.flatMap_cons, wholeTransfers_append] at whole
      have first := protoRecvPacket_whole fd packet pkt datap incoming whole.1
      obtain ⟨t, later⟩ := ih packets packet.header (packet.datap datap)
        (c := { c with reads := c.reads.drop packet.asked.length, incoming := packets.flatMap WirePacket.bytes })
        rfl (fun transfer planned => steady transfer (List.mem_of_mem_drop planned)) quiet whole.2
      exact ⟨t, recvAll_succ first later⟩

theorem receptions_succeed (packets : List WirePacket) (pkt : MzwPacket) (datap : Payload) :
    ∀ received ∈ receptions packets packets.length pkt datap, received.result = 0 := by
  induction packets generalizing pkt datap with
  | nil => simp [receptions]
  | cons packet packets ih => simpa [receptions] using ih packet.header (packet.datap datap)

/-! ### Deliveries with a short read -/

theorem Conn.read_short {c : Conn} {n : Nat} {bytes rest : List UInt8} (incoming : c.incoming = bytes ++ rest)
    (length : bytes.length = n) (steady : ∀ transfer ∈ c.reads, transfer.Succeeds) (short : ¬ (c.reads.headD .full).Whole n) :
    ∃ got left, got.length < n ∧ c.read n = (.got got, { c with reads := c.reads.tail, incoming := left }) := by
  subst length
  have taken : c.incoming.take bytes.length = bytes := by rw [incoming, List.take_left]
  refine ⟨_, _, ?_, c.read_succeeds _ (next_succeeds steady)⟩
  rw [taken]
  cases next : c.reads.headD .full with
  | full => rw [next] at short; exact (short trivial).elim
  | fails errno =>
    have succeeds := next_succeeds steady
    rw [next] at succeeds
    exact succeeds.elim
  | upTo limit =>
    rw [next] at short
    have beyond : ¬ bytes.length ≤ max 1 limit := short
    rw [Transfer.bytes, List.length_take]
    omega

theorem protoRecvPacket_short (fd : Int) (packet : WirePacket) (pkt : MzwPacket) (datap : Payload) {c : Conn}
    {rest : List UInt8} (incoming : c.incoming = packet.bytes ++ rest) (steady : ∀ transfer ∈ c.reads, transfer.Succeeds)
    (quiet : c.errno ≠ eintr) (short : ¬ WholeTransfers packet.asked c.reads) :
    ∃ header left t, (protoRecvPacket fd pkt datap).run connMachine c = some ((-1, header, left), t) := by
  have split : c.incoming = packet.head ++ (packet.payload ++ rest) := by
    rw [incoming, WirePacket.bytes, List.append_assoc]
  by_cases head : (c.reads.headD .full).Whole MzwPacket.sizeOf
  · have headRead := Conn.read_whole split packet.headLength head
    have header : (pkt.overwrite packet.head).swapped = packet.header := by
      rw [MzwPacket.overwrite_whole pkt packet.headLength, WirePacket.header]
    have nonempty : packet.header.size ≠ 0 := by
      intro empty
      exact short (by rw [WirePacket.asked, if_pos empty]; exact ⟨head, trivial⟩)
    have body : ¬ (c.reads.tail.headD .full).Whole packet.header.size.toNat := by
      intro whole
      exact short (by rw [WirePacket.asked, if_neg nonempty]; exact ⟨head, whole, trivial⟩)
    have remaining : ({ c with reads := c.reads.tail, incoming := packet.payload ++ rest } : Conn).incoming =
        packet.payload ++ rest := rfl
    obtain ⟨got, left, less, bodyRead⟩ := Conn.read_short remaining packet.payloadLength
      (fun transfer planned => steady transfer (List.mem_of_mem_tail planned)) body
    have fewer : (got.length : Int) ≠ packet.header.size.toNat := by rw [WirePacket.header]; omega
    have size : (MzwPacket.ofBytes packet.head).swapped.size.toNat = packet.header.size.toNat := rfl
    rw [size] at bodyRead
    exact ⟨packet.header, datap, { c with reads := c.reads.tail.tail, incoming := left }, by
      simp [protoRecvPacket, Program.run_call, connMachine, headRead, bodyRead, ReadResult.stored, ReadResult.count,
        header, packet.headLength, nonempty, fewer]⟩
  · obtain ⟨got, left, less, read⟩ := Conn.read_short split packet.headLength steady head
    have fewer : (got.length : Int) ≠ MzwPacket.sizeOf := by omega
    have received := protoRecvPacket_without_header fd pkt datap read fewer
    rw [if_neg quiet] at received
    exact ⟨_, _, _, received⟩

theorem recvAll_returns (fd : Int) (count : Nat) (pkt : MzwPacket) (datap : Payload) (c : Conn) :
    ∃ received t, (recvAll fd count pkt datap).run connMachine c = some (received, t) := by
  have total : ∀ op s, (connMachine op s).isSome := by rintro (_ | _ | _ | _ | _) s <;> rfl
  simpa [Option.isSome_iff_exists] using Program.run_isSome connMachine total (recvAll fd count pkt datap) c

theorem recvAll_short (fd : Int) (packets : List WirePacket) (pkt : MzwPacket) (datap : Payload) {c : Conn}
    (incoming : c.incoming = packets.flatMap WirePacket.bytes) (steady : ∀ transfer ∈ c.reads, transfer.Succeeds)
    (quiet : c.errno ≠ eintr) (short : ¬ NoShortRead packets c.reads) :
    ∃ received t, (recvAll fd packets.length pkt datap).run connMachine c = some (received, t) ∧
      ∃ failed ∈ received, failed.result = -1 := by
  induction packets generalizing pkt datap c with
  | nil => exact (short trivial).elim
  | cons packet packets ih =>
    by_cases whole : WholeTransfers packet.asked c.reads
    · have first := protoRecvPacket_whole fd packet pkt datap incoming whole
      rw [NoShortRead, List.flatMap_cons, wholeTransfers_append, not_and] at short
      obtain ⟨received, t, later, failed, present, result⟩ := ih packet.header (packet.datap datap)
        (c := { c with reads := c.reads.drop packet.asked.length, incoming := packets.flatMap WirePacket.bytes })
        rfl (fun transfer planned => steady transfer (List.mem_of_mem_drop planned)) quiet (short whole)
      exact ⟨_, t, recvAll_succ first later, failed, List.mem_cons_of_mem _ present, result⟩
    -- The rest is received out of step; one failure is enough.
    · obtain ⟨header, left, d, first⟩ := protoRecvPacket_short fd packet pkt datap incoming steady quiet whole
      obtain ⟨received, t, later⟩ := recvAll_returns fd packets.length header left d
      exact ⟨_, t, recvAll_succ first later, _, List.mem_cons_self, rfl⟩

/-! ### When the delivery does not matter -/

section Deliveries
variable (fd : Int) (packets : List WirePacket) (errno : Int) (pkt : MzwPacket) (datap : Payload)
  {first second : List Transfer} (steady : ∀ transfer ∈ first, transfer.Succeeds)
  (steady' : ∀ transfer ∈ second, transfer.Succeeds)
  (quiet : errno ≠ eintr)
include steady quiet

theorem reception_whole (whole : NoShortRead packets first) (count : Nat) :
    reception fd (packets.flatMap WirePacket.bytes) first errno count pkt datap =
      some (receptions packets count pkt datap) := by
  obtain ⟨t, ran⟩ := recvAll_receptions fd packets count pkt datap
    (c := { incoming := packets.flatMap WirePacket.bytes, reads := first, errno }) rfl steady quiet whole
  rw [reception, ran, Option.map_some]

include steady'

theorem sameReception_differs (whole : NoShortRead packets first) (short : ¬ NoShortRead packets second) :
    ¬ SameReception fd packets errno pkt datap first second := by
  intro same
  have agreed := same packets.length
  obtain ⟨received, t, ran, failed, present, result⟩ := recvAll_short fd packets pkt datap
    (c := { incoming := packets.flatMap WirePacket.bytes, reads := second, errno }) rfl steady' quiet short
  rw [reception_whole fd packets errno pkt datap steady quiet whole, reception, ran, Option.map_some,
    Option.some_inj] at agreed
  have succeeded := receptions_succeed packets pkt datap failed (agreed ▸ present)
  omega

/-- Two deliveries without a short read are received alike. Two deliveries of which one makes
short reads and the other makes none never are. -/
theorem sameReception_of_noShortRead :
    (NoShortRead packets first ∧ NoShortRead packets second →
      SameReception fd packets errno pkt datap first second) ∧
    (SameReception fd packets errno pkt datap first second →
      (NoShortRead packets first ↔ NoShortRead packets second)) := by
  refine ⟨?_, fun same => ⟨fun whole => ?_, fun whole => ?_⟩⟩
  · rintro ⟨whole, whole'⟩ count
    rw [reception_whole fd packets errno pkt datap steady quiet whole,
      reception_whole fd packets errno pkt datap steady' quiet whole']
  · by_contra short
    exact sameReception_differs fd packets errno pkt datap steady steady' quiet whole short same
  · by_contra short
    exact sameReception_differs fd packets errno pkt datap steady' steady quiet whole short
      fun count => (same count).symm

end Deliveries

/-! ### Segments -/

def refreshRequest : WirePacket := .request .refreshPkt 0

/-- A SEND with its letter and a REFRESH, in the pieces that the reads ask for. -/
theorem sameReception_of_noShortRead_request :
    SameReception 3 [.lettered .sendPkt 0 104, refreshRequest] 0 blankPacket .null [] [.upTo 16, .upTo 1, .full] :=
  (sameReception_of_noShortRead 3 [.lettered .sendPkt 0 104, refreshRequest] 0 blankPacket .null (by decide)
    (by decide) (by decide)).1 ⟨wholeTransfers_nil _, by unfold NoShortRead; decide⟩

theorem reception_of_split_header :
    ¬ SameReception 3 [refreshRequest] 0 blankPacket .null [] [.upTo 8] := by
  intro same
  exact absurd (same 1) (by decide)

end MazeWar
