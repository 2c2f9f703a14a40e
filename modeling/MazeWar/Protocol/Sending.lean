import MazeWar.Protocol.Wire

/-!
# What a send reports

`proto_send_packet` compares the result of the payload's write with `pkt->size`, which it has
converted to network byte order by then. Whatever its writes return, what it reports is right
exactly when that makes no difference.
-/

namespace MazeWar
open Foundation
variable {fd : Int} {pkt after : MzwPacket} {data : Option (Nat → UInt8)} {memory : Nat → UInt8} {result : Int}

/-- The write of the header, with its result. -/
def headerWrite (fd : Int) (pkt : MzwPacket) (n : Int) : SysCall := ⟨.write fd pkt.swapped.bytes, n⟩

def payloadWrite (fd : Int) (pkt : MzwPacket) (memory : Nat → UInt8) (n : Int) : SysCall :=
  ⟨.write fd (memoryBytes memory pkt.size.toNat), n⟩

/-- The bytes of the header and of the payload, if there is one, have all been written. -/
def Sent (fd : Int) (pkt : MzwPacket) (data : Option (Nat → UInt8)) (log : SysLog) : Prop :=
  log = headerWrite fd pkt MzwPacket.sizeOf :: data.toList.map fun memory => payloadWrite fd pkt memory pkt.size.toNat

theorem headerWrite_inj {n n' : Int} : headerWrite fd pkt n = headerWrite fd pkt n' ↔ n = n' := by
  simp [headerWrite]

theorem payloadWrite_inj {n n' : Int} : payloadWrite fd pkt memory n = payloadWrite fd pkt memory n' ↔ n = n' := by
  simp [payloadWrite]

/-- The calls that a send makes, and what it returns. -/
theorem protoSendPacket_emits {log : SysLog} (emits : (protoSendPacket fd pkt data).Emits log (result, after)) :
    (∃ n : Int, n ≠ MzwPacket.sizeOf ∧ log = [headerWrite fd pkt n] ∧ result = -1) ∨
    (data = none ∧ log = [headerWrite fd pkt MzwPacket.sizeOf] ∧ result = 0) ∨
    ∃ memory, ∃ n : Int, data = some memory ∧
      log = [headerWrite fd pkt MzwPacket.sizeOf, payloadWrite fd pkt memory n] ∧
      result = if n = (htons pkt.size).toNat then 0 else -1 := by
  simp only [protoSendPacket, Program.perform_bind, Program.emits_call] at emits
  obtain ⟨first, rest, rfl, emits⟩ := emits
  split at emits
  · rename_i short
    obtain ⟨rfl, outcome⟩ := emits
    exact .inl ⟨first, short, rfl, (congrArg Prod.fst outcome).symm⟩
  · rename_i whole
    obtain rfl := not_not.mp whole
    cases data with
    | none =>
      obtain ⟨rfl, outcome⟩ := emits
      exact .inr (.inl ⟨rfl, rfl, (congrArg Prod.fst outcome).symm⟩)
    | some memory =>
      simp only [Program.emits_call] at emits
      obtain ⟨second, rest, rfl, emits⟩ := emits
      refine .inr (.inr ⟨memory, second, rfl, ?_⟩)
      split at emits
      · rename_i other
        obtain ⟨rfl, outcome⟩ := emits
        exact ⟨rfl, (congrArg Prod.fst outcome).symm.trans (if_neg other).symm⟩
      · rename_i same
        obtain ⟨rfl, outcome⟩ := emits
        exact ⟨rfl, (congrArg Prod.fst outcome).symm.trans (if_pos (not_not.mp same)).symm⟩

theorem protoSendPacket_emits_payload (n : Int) : (protoSendPacket fd pkt (some memory)).Emits
    [headerWrite fd pkt MzwPacket.sizeOf, payloadWrite fd pkt memory n]
    (if n = (htons pkt.size).toNat then 0 else -1, pkt.swapped) := by
  simp only [protoSendPacket, Program.perform_bind, Program.emits_call]
  refine ⟨(MzwPacket.sizeOf : Int), _, rfl, ?_⟩
  rw [if_neg (not_not.mpr rfl)]
  refine ⟨n, [], rfl, ?_⟩
  have converted : pkt.swapped.size = htons pkt.size := rfl
  beta_reduce
  rw [converted]
  by_cases same : n = (htons pkt.size).toNat
  · rw [if_neg (not_not.mpr same), if_pos same]
    exact ⟨rfl, rfl⟩
  · rw [if_pos same, if_neg same]
    exact ⟨rfl, rfl⟩

theorem sent_payload {n : Int} : Sent fd pkt (some memory)
    [headerWrite fd pkt MzwPacket.sizeOf, payloadWrite fd pkt memory n] ↔ n = pkt.size.toNat := by
  simp [Sent, payloadWrite_inj]

theorem not_sent_short {n : Int} (short : n ≠ MzwPacket.sizeOf) : ¬ Sent fd pkt data [headerWrite fd pkt n] :=
  fun sent => short (headerWrite_inj.mp (List.cons.inj sent).1)

/-- What a send reports is right exactly when it makes no second write, or the two bytes of
`size` are equal, or that write returns neither `size` nor `size` with its bytes exchanged. -/
theorem protoSendPacket_reports_iff {log : SysLog} (emits : (protoSendPacket fd pkt data).Emits log (result, after)) :
    (result = 0 ↔ Sent fd pkt data log) ↔
      ∀ head bytes, ∀ n : Int, log = [head, ⟨.write fd bytes, n⟩] →
        htons pkt.size = pkt.size ∨ (n ≠ pkt.size.toNat ∧ n ≠ (htons pkt.size).toNat) := by
  rcases protoSendPacket_emits emits with ⟨n, short, rfl, rfl⟩ | ⟨rfl, rfl, rfl⟩ | ⟨memory, n, rfl, rfl, rfl⟩
  · have unsent : ¬ Sent fd pkt data [headerWrite fd pkt n] := not_sent_short short
    simp [unsent]
  · simp [Sent]
  · rw [sent_payload]
    have reported : (if n = (htons pkt.size).toNat then (0 : Int) else -1) = 0 ↔ n = (htons pkt.size).toNat := by
      split <;> simp_all
    rw [reported]
    constructor
    · intro right head bytes m same
      have second := (List.cons.inj (List.cons.inj same).2).1
      obtain ⟨-, rfl⟩ : memoryBytes memory pkt.size.toNat = bytes ∧ n = m := by simpa [payloadWrite] using second
      by_cases alike : htons pkt.size = pkt.size
      · exact .inl alike
      · have apart : (htons pkt.size).toNat ≠ pkt.size.toNat := fun eq => alike (UInt16.toNat_inj.mp eq)
        exact .inr (by omega)
    · intro condition
      rcases condition (headerWrite fd pkt MzwPacket.sizeOf) _ n rfl with alike | ⟨other, other'⟩
      · rw [alike]
      · exact iff_of_false other' other

/-! ### A chat message -/

def chatPacket (size : UInt16) : MzwPacket := ⟨MzwPacketType.chatPkt.code, 0, 0, 0, size, (0, 0), 0, 0⟩

theorem protoSendPacket_reports_iff_chat :
    Sent 4 (chatPacket 0x0101) (some fun _ => 120)
      [headerWrite 4 (chatPacket 0x0101) 16, payloadWrite 4 (chatPacket 0x0101) (fun _ => 120) 0x0101] := by
  have emits : (protoSendPacket 4 (chatPacket 0x0101) (some fun _ => 120)).Emits
      [headerWrite 4 (chatPacket 0x0101) 16, payloadWrite 4 (chatPacket 0x0101) (fun _ => 120) 0x0101]
      (0, (chatPacket 0x0101).swapped) := protoSendPacket_emits_payload 0x0101
  exact (protoSendPacket_reports_iff emits).mpr (fun _ _ _ _ => .inl (by decide)) |>.mp rfl

/-- A message of one byte, written whole, is reported as a failure. -/
theorem protoSendPacket_denies : ∃ after,
    (protoSendPacket 4 (chatPacket 1) (some fun _ => 120)).Emits
      [headerWrite 4 (chatPacket 1) 16, payloadWrite 4 (chatPacket 1) (fun _ => 120) 1] (-1, after) ∧
    Sent 4 (chatPacket 1) (some fun _ => 120)
      [headerWrite 4 (chatPacket 1) 16, payloadWrite 4 (chatPacket 1) (fun _ => 120) 1] :=
  ⟨_, protoSendPacket_emits_payload 1, rfl⟩

end MazeWar
