import Mathlib.Data.List.ReduceOption
import MazeWar.Server.World

/-!
# Interrupted receives

`proto_recv_packet` reports success when its read is interrupted, and at the end of the
connection while `errno` is still EINTR. The thread then dispatches the header that its
buffer holds from before.
-/

namespace MazeWar
open Foundation

def requestsOf (log : List Entry) : List ServiceOp :=
  log.filterMap fun
    | .request op => some op
    | _ => none

/-- No receive without a header is followed by a request before the next receive. -/
def Silent : List Entry → Prop
  | .missed :: .request _ :: _ => False
  | _ :: rest => Silent rest
  | [] => True

def Standing.Honours (standing : Standing) : Prop :=
  match standing.player with
  | none => standing.pkt.type = MzwPacketType.loginPkt.code
  | some _ => standing.pkt.isAction

/-- Whenever a receive finds no header, the one left in the buffer is not honoured. -/
def LeftUnhonoured : Standing → List (Option WirePacket) → Prop
  | _, [] => True
  | standing, some packet :: rest => LeftUnhonoured (standing.take (some packet)).dispatched rest
  | standing, none :: rest => ¬ standing.Honours ∧ LeftUnhonoured (standing.take none) rest

theorem requests_nil_iff (player : PlayerPtr) (pkt : MzwPacket) (datap : Payload) :
    requests player pkt datap = [] ↔ ¬ pkt.isAction := by
  unfold requests MzwPacket.isAction
  split_ifs with move turn fire refresh chat <;> simp [*]

namespace Standing
variable (fd : Int) (standing : Standing)

theorem requests_nil_iff : standing.requests fd = [] ↔ ¬ standing.Honours := by
  obtain ⟨player, logins, pkt, datap⟩ := standing
  cases player with
  | none => simp [requests, honoured, Honours]
  | some player => exact MazeWar.requests_nil_iff (some player) pkt datap

theorem honours_take_none : (standing.take none).Honours ↔ standing.Honours := Iff.rfl

theorem dispatched_unhonoured (unhonoured : ¬ standing.Honours) : standing.dispatched = standing := by
  obtain ⟨player, logins, pkt, datap⟩ := standing
  have asks : ¬ AsksLogin player pkt := by
    rintro ⟨rfl, login⟩
    exact unhonoured login
  simp [dispatched, playerAfter, asks]

end Standing

/-! ### Silence -/

theorem silent_requests (ops : List ServiceOp) (log : List Entry) :
    Silent (ops.map .request ++ log) ↔ Silent log := by
  induction ops with
  | nil => rfl
  | cons op ops ih => exact ih

theorem silent_missed (fd : Int) (standing : Standing) (takings : List (Option WirePacket)) (ops : List ServiceOp) :
    Silent (.missed :: (ops.map .request ++ served fd standing takings)) ↔
      ops = [] ∧ Silent (served fd standing takings) := by
  cases ops with
  | nil =>
    rcases takings with _ | ⟨_ | packet, rest⟩ <;> simp [served, Silent, entry]
  | cons op ops => simp [Silent]

theorem silent_served_iff (fd : Int) (standing : Standing) (takings : List (Option WirePacket)) :
    Silent (served fd standing takings) ↔ LeftUnhonoured standing takings := by
  induction takings generalizing standing with
  | nil => simp [served, Silent, LeftUnhonoured]
  | cons taken rest ih =>
    cases taken with
    | some packet => exact (silent_requests _ _).trans (ih _)
    | none =>
      rw [served, LeftUnhonoured, entry, List.cons_append, silent_missed, Standing.requests_nil_iff,
        Standing.honours_take_none, ih]
      refine and_congr_right fun unhonoured => ?_
      rw [(standing.take none).dispatched_unhonoured unhonoured]

/-! ### The requests -/

theorem requestsOf_append (first second : List Entry) :
    requestsOf (first ++ second) = requestsOf first ++ requestsOf second :=
  List.filterMap_append ..

theorem requestsOf_requests (ops : List ServiceOp) : requestsOf (ops.map .request) = ops := by
  simp [requestsOf, List.filterMap_map]

theorem requestsOf_served_cons (fd : Int) (standing : Standing) (taken : Option WirePacket)
    (rest : List (Option WirePacket)) :
    requestsOf (served fd standing (taken :: rest)) =
      (standing.take taken).requests fd ++ requestsOf (served fd (standing.take taken).dispatched rest) := by
  have skipped : ∀ log, requestsOf (entry taken :: log) = requestsOf log := fun log => by cases taken <;> rfl
  rw [served, List.cons_append, skipped, requestsOf_append, requestsOf_requests]

theorem requestsOf_served {fd : Int} {standing undisturbed : Standing} {takings : List (Option WirePacket)}
    (alike : standing.Alike undisturbed) (unhonoured : LeftUnhonoured standing takings) :
    requestsOf (served fd standing takings) = requestsOf (served fd undisturbed (takings.reduceOption.map some)) := by
  induction takings generalizing standing undisturbed with
  | nil => rfl
  | cons taken rest ih =>
    cases taken with
    | some packet =>
      rw [List.reduceOption_cons_of_some, List.map_cons, requestsOf_served_cons, requestsOf_served_cons,
        ← alike.take packet]
      exact congrArg _ (ih ⟨rfl, rfl, rfl⟩ unhonoured)
    | none =>
      obtain ⟨idle, later⟩ := unhonoured
      rw [List.reduceOption_cons_of_none, requestsOf_served_cons, ((standing.take none).requests_nil_iff fd).mpr idle,
        List.nil_append, (standing.take none).dispatched_unhonoured idle]
      exact ih alike later

/-- The requests are those of the packets alone, and none follows a receive without a packet,
exactly if no such receive leaves a header that is honoured. -/
theorem requests_exactly_once_iff (fd : Int) {disturbed undisturbed : Inbox} {takings : List (Option WirePacket)}
    {fuel : Nat} (logins : List PlayerPtr) (outbox : Outbox) (gives : Gives disturbed takings)
    (gives' : Gives undisturbed (takings.reduceOption.map some)) (enough : takings.length < fuel) :
    ∃ t u, (mzwClientService fd fuel).run World.exec (.start disturbed logins outbox) = some (true, t) ∧
      (mzwClientService fd fuel).run World.exec (.start undisturbed logins outbox) = some (true, u) ∧
      ((Silent t.log ∧ requestsOf t.log = requestsOf u.log) ↔ LeftUnhonoured (.start logins outbox) takings) := by
  have fewer : (takings.reduceOption.map some).length ≤ takings.length := by
    rw [List.length_map]
    exact List.reduceOption_length_le takings
  obtain ⟨t, ran, log, _⟩ := mzwClientService_world fd fuel logins outbox gives enough
  obtain ⟨u, ran', log', _⟩ := mzwClientService_world fd fuel logins outbox gives' (fewer.trans_lt enough)
  refine ⟨t, u, ran, ran', ?_⟩
  rw [log, log', silent_served_iff]
  exact and_iff_left_of_imp fun unhonoured => requestsOf_served ⟨rfl, rfl, rfl⟩ unhonoured

/-! ### A laser hit before a MOVE and after it -/

/-- A LOGIN as "a" with the avatar A. -/
def loginRequest : WirePacket := .lettered .loginPkt 65 97
def moveRequest : WirePacket := .request .movePkt 1

def zeroed : Outbox where
  writes := []
  fresh := fun _ => ⟨0, 0, 0, 0, 0, (0, 0), 0, 0⟩
  memory := fun _ _ => 0

/-- LOGIN and MOVE, and the next read that is interrupted: the one after both, or the one between them. -/
def hitInbox (plan : List Transfer) : Inbox := ⟨loginRequest.bytes ++ (moveRequest.bytes ++ []), plan, []⟩

def hitAfter : Inbox := hitInbox [.full, .full, .full, .fails eintr]
def hitBetween : Inbox := hitInbox [.full, .full, .fails eintr]

theorem hitAfter_gives : Gives hitAfter [some loginRequest, some moveRequest, none] :=
  .next (.packet (by decide)) (.next (.packet (by decide)) (.next .interrupted (.closed (by decide) (by decide))))

theorem hitBetween_gives : Gives hitBetween [some loginRequest, none, some moveRequest] :=
  .next (.packet (by decide)) (.next .interrupted
    (.next (.packet (wholeTransfers_nil _)) (.closed (by decide) (by decide))))

theorem calmInbox_gives : Gives (hitInbox []) [some loginRequest, some moveRequest] :=
  .next (.packet (wholeTransfers_nil _)) (.next (.packet (wholeTransfers_nil _)) (.closed (by decide) (by decide)))

/-- A LOGIN that has been carried out is not honoured again. -/
theorem requests_exactly_once_iff_hit :
    ∃ t u, (mzwClientService 4 4).run World.exec (.start hitBetween [some 2] zeroed) = some (true, t) ∧
      (mzwClientService 4 4).run World.exec (.start (hitInbox []) [some 2] zeroed) = some (true, u) ∧
      Silent t.log ∧ requestsOf t.log = requestsOf u.log := by
  obtain ⟨t, u, ran, ran', once⟩ :=
    requests_exactly_once_iff 4 [some 2] zeroed hitBetween_gives calmInbox_gives (show 3 < 4 by decide)
  have idle : LeftUnhonoured (.start [some 2] zeroed) [some loginRequest, none, some moveRequest] :=
    ⟨(by unfold MzwPacket.isAction; decide : ¬ loginRequest.header.isAction), trivial⟩
  obtain ⟨silent, same⟩ := once.mpr idle
  exact ⟨t, u, ran, ran', silent, same⟩

theorem move_dispatched_twice :
    Gives hitAfter [some loginRequest, some moveRequest, none] ∧
    Gives (hitInbox []) [some loginRequest, some moveRequest] ∧
    ((mzwClientService 4 4).run World.exec (.start hitAfter [some 2] zeroed)).map (fun ran => requestsOf ran.2.log) =
      some [.playerLogin 4 65 (.buffer [97]), .playerMove (some 2) 1, .playerMove (some 2) 1] ∧
    ((mzwClientService 4 4).run World.exec (.start (hitInbox []) [some 2] zeroed)).map
        (fun ran => requestsOf ran.2.log) =
      some [.playerLogin 4 65 (.buffer [97]), .playerMove (some 2) 1] :=
  ⟨hitAfter_gives, calmInbox_gives, by decide⟩

end MazeWar
