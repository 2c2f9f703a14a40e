import MazeWar.Protocol.Wire

/-!
# The payload buffer

What `proto_recv_packet` and its second `read` store into the block that it allocates. The block
has `size` bytes and the terminator comes after those received, so it has room only when some
of them are missing.
-/

namespace MazeWar
open Foundation
variable {fd : Int} {pkt : MzwPacket} {datap : Payload} {outcome : Int × MzwPacket × Payload} {log : SysLog}

/-- A store of one byte into a block. -/
structure BlockStore where
  allocated : Nat
  index : Int

def BlockStore.Inside (store : BlockStore) : Prop := 0 ≤ store.index ∧ store.index < store.allocated

/-- The stores of a receive into the payload buffer: the bytes that the `read` returns, from the
start of the block on, then the terminator. -/
def payloadStores : SysLog → List BlockStore
  | [_, ⟨.read _ _, payload⟩, ⟨.poke allocated index, _⟩] =>
    (List.range payload.stored.length).map (fun i => ⟨allocated, i⟩) ++ [⟨allocated, index⟩]
  | _ => []

/-- The calls of a receive that reads a payload. -/
def payloadCalls (fd : Int) (size : Nat) (header payload : ReadResult) : SysLog :=
  [⟨.read fd MzwPacket.sizeOf, header⟩, ⟨.read fd size, payload⟩, ⟨.poke size payload.count, ()⟩]

def IsRead (call : SysCall) : Prop := ∃ fd n, call.1 = .read fd n

/-- The calls of a receive after its first: none of them reads, or a `read` of the payload is followed
by the store of the terminator. -/
theorem protoRecvPacket_emits (emits : (protoRecvPacket fd pkt datap).Emits log outcome) :
    (∃ header rest, log = ⟨.read fd MzwPacket.sizeOf, header⟩ :: rest ∧ ∀ call ∈ rest, ¬ IsRead call) ∨
    ∃ header payload, log = payloadCalls fd (pkt.overwrite header.stored).swapped.size.toNat header payload := by
  simp only [protoRecvPacket, Program.perform_bind, Program.emits_call] at emits
  obtain ⟨header, rest, rfl, emits⟩ := emits
  split at emits
  · simp only [Program.emits_call] at emits
    obtain ⟨errno, rest, rfl, emits⟩ := emits
    split at emits
    · simp only [Program.emits_call] at emits
      obtain ⟨_, rest, rfl, rfl, -⟩ := emits
      exact .inl ⟨header, _, rfl, by simp [IsRead]⟩
    · obtain ⟨rfl, -⟩ := emits
      exact .inl ⟨header, _, rfl, by simp [IsRead]⟩
  · split at emits
    · simp only [Program.emits_call] at emits
      obtain ⟨payload, rest, rfl, _, rest, rfl, emits⟩ := emits
      refine .inr ⟨header, payload, ?_⟩
      split at emits
      · obtain ⟨rfl, -⟩ := emits
        rfl
      · obtain ⟨rfl, -⟩ := emits
        rfl
    · obtain ⟨rfl, -⟩ := emits
      exact .inl ⟨header, [], rfl, by simp⟩

theorem payloadStores_nil {first : SysCall} {rest : SysLog} (reads : ∀ call ∈ rest, ¬ IsRead call) :
    payloadStores (first :: rest) = [] := by
  unfold payloadStores
  split
  · rename_i same
    obtain ⟨-, rfl⟩ := List.cons.inj same
    exact (reads _ List.mem_cons_self ⟨_, _, rfl⟩).elim
  · rfl

theorem payloadStores_inside {size : Nat} {header payload : ReadResult} :
    (∀ store ∈ payloadStores (payloadCalls fd size header payload), store.Inside) ↔
      0 ≤ payload.count ∧ payload.count < size := by
  constructor
  · intro inside
    exact inside ⟨size, payload.count⟩ (List.mem_append_right _ List.mem_cons_self)
  · rintro ⟨succeeded, short⟩ store member
    rcases List.mem_append.mp member with received | terminator
    · obtain ⟨i, bound, rfl⟩ := List.mem_map.mp received
      have bound := List.mem_range.mp bound
      cases payload with
      | failed => exact absurd bound (Nat.not_lt_zero i)
      | got bytes => exact ⟨Int.natCast_nonneg i, (Int.ofNat_lt.mpr bound).trans short⟩
    · obtain rfl := List.mem_singleton.mp terminator
      exact ⟨succeeded, short⟩

/-- The stores of a receive are inside the payload buffer exactly when it reads no payload, or that
`read` succeeds with fewer bytes than it was asked for. -/
theorem payloadStores_inside_iff (emits : (protoRecvPacket fd pkt datap).Emits log outcome) :
    (∀ store ∈ payloadStores log, store.Inside) ↔
      ∀ first asked rest, ∀ payload : ReadResult, log = first :: ⟨.read fd asked, payload⟩ :: rest →
        0 ≤ payload.count ∧ payload.count < asked := by
  rcases protoRecvPacket_emits emits with ⟨header, rest, rfl, reads⟩ | ⟨header, payload, rfl⟩
  · rw [payloadStores_nil reads]
    refine iff_of_true (by simp) fun first asked later payload same => ?_
    obtain ⟨-, rfl⟩ := List.cons.inj same
    exact (reads _ List.mem_cons_self ⟨_, _, rfl⟩).elim
  · rw [payloadStores_inside]
    constructor
    · intro inside first asked rest other same
      have second := (List.cons.inj (List.cons.inj same).2).1
      obtain ⟨rfl, rfl⟩ : _ = asked ∧ payload = other := by simpa using second
      exact inside
    · exact fun condition => condition _ _ _ payload rfl

/-! ### A chat message -/

theorem protoRecvPacket_emits_payload (fd : Int) (pkt : MzwPacket) (datap : Payload) {header : ReadResult}
    (payload : ReadResult) (whole : header.count = MzwPacket.sizeOf)
    (nonempty : (pkt.overwrite header.stored).swapped.size ≠ 0) : ∃ outcome, (protoRecvPacket fd pkt datap).Emits
      (payloadCalls fd (pkt.overwrite header.stored).swapped.size.toNat header payload) outcome := by
  simp only [protoRecvPacket, Program.perform_bind, Program.emits_call]
  by_cases complete : payload.count = (pkt.overwrite header.stored).swapped.size.toNat
  · refine ⟨(0, (pkt.overwrite header.stored).swapped, .buffer payload.stored), header, _, rfl, ?_⟩
    rw [if_neg (not_not.mpr whole), if_pos nonempty]
    refine ⟨payload, _, rfl, (), [], rfl, ?_⟩
    rw [if_neg (not_not.mpr complete)]
    exact ⟨rfl, rfl⟩
  · refine ⟨(-1, (pkt.overwrite header.stored).swapped, datap), header, _, rfl, ?_⟩
    rw [if_neg (not_not.mpr whole), if_pos nonempty]
    refine ⟨payload, _, rfl, (), [], rfl, ?_⟩
    rw [if_pos complete]
    exact ⟨rfl, rfl⟩

def chatHeader (size : UInt8) : List UInt8 :=
  [MzwPacketType.sendPkt.code, 0, 0, 0, 0, size, 0, 0, 0, 0, 0, 0, 0, 0, 0, 0]

theorem payloadStores_inside_iff_short :
    (payloadStores (payloadCalls 4 2 (.got (chatHeader 2)) (.got [120]))).length = 2 ∧
      ∀ store ∈ payloadStores (payloadCalls 4 2 (.got (chatHeader 2)) (.got [120])), store.Inside := by
  obtain ⟨outcome, emits⟩ : ∃ outcome, (protoRecvPacket 4 blankPacket .null).Emits
      (payloadCalls 4 2 (.got (chatHeader 2)) (.got [120])) outcome :=
    protoRecvPacket_emits_payload 4 blankPacket .null (.got [120]) rfl (by decide)
  refine ⟨rfl, (payloadStores_inside_iff emits).mpr fun first asked rest payload same => ?_⟩
  have second := (List.cons.inj (List.cons.inj same).2).1
  obtain ⟨rfl, rfl⟩ : 2 = asked ∧ ReadResult.got [120] = payload := by simpa using second
  decide

/-- The terminator of a message of one byte, received whole, is stored after the end of the buffer. -/
theorem payloadStores_beyond :
    (∃ outcome, (protoRecvPacket 4 blankPacket .null).Emits
      (payloadCalls 4 1 (.got (chatHeader 1)) (.got [120])) outcome) ∧
    ¬ ∀ store ∈ payloadStores (payloadCalls 4 1 (.got (chatHeader 1)) (.got [120])), store.Inside := by
  constructor
  · exact protoRecvPacket_emits_payload 4 blankPacket .null (.got [120]) rfl (by decide)
  · rw [payloadStores_inside]
    decide

end MazeWar
