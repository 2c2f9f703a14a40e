import MazeWar.Server.Interrupts

/-!
# Deleting a packet that is not honoured

`proto_recv_packet` leaves `*datap` as it is when a packet has no payload, and no branch of the
loop resets it. A packet that is ignored can so lend its payload to a later LOGIN as the name.
-/

namespace MazeWar
open Foundation

/-! ### Calls on players -/

/-- The string that the pointer refers to. -/
def Payload.text : Payload → Payload
  | .buffer bytes => .buffer (bytes.takeWhile (· ≠ 0))
  | .null => .null
  | .wild => .wild

/-- So many bytes from the pointer on. -/
def Payload.first (len : Nat) : Payload → Payload
  | .buffer bytes => .buffer (bytes.take len)
  | .null => if len = 0 then .buffer [] else .null
  | .wild => if len = 0 then .buffer [] else .wild

/-- A call on a player, with the memory that it reads in place of its pointers. -/
def ServiceOp.playerCall : ServiceOp → Option ServiceOp
  | .playerLogin fd avatar name => some (.playerLogin fd avatar name.text)
  | .playerLogout player => some (.playerLogout player)
  | .playerReset player => some (.playerReset player)
  | .playerMove player dir => some (.playerMove player dir)
  | .playerRotate player dir => some (.playerRotate player dir)
  | .playerFireLaser player => some (.playerFireLaser player)
  | .playerInvalidateView player => some (.playerInvalidateView player)
  | .playerUpdateView player => some (.playerUpdateView player)
  | .playerSendChat player msg len => some (.playerSendChat player (msg.first len) len)
  | _ => none

def playerCalls (ops : List ServiceOp) : List ServiceOp := ops.filterMap ServiceOp.playerCall

theorem playerCalls_append (first second : List ServiceOp) :
    playerCalls (first ++ second) = playerCalls first ++ playerCalls second :=
  List.filterMap_append ..

@[simp] theorem Payload.first_zero (msg : Payload) : msg.first 0 = .buffer [] := by
  cases msg <;> rfl

namespace Outbox

/-- What `proto_send_packet` returns for the next reply. -/
def sent (outbox : Outbox) (code : UInt8) : Int :=
  (((protoSendPacket 0 (outbox.header code) (some (outbox.memory 0))).run connMachine
    { writes := outbox.writes }).map fun answer => answer.1.1).getD 0

/-- The player is placed in the maze only after a READY that could be sent. -/
def placing (outbox : Outbox) (login : PlayerPtr) : List ServiceOp :=
  if login ≠ none ∧ outbox.sent (replyCode login) ≠ -1 then [.playerReset login] else []

end Outbox

/-! ### The calls of the thread -/

theorem World.send_result (fd : Int) (pkt : MzwPacket) (w : World) :
    (w.send fd pkt).map (fun answer => answer.1) =
      ((protoSendPacket 0 pkt (some (w.memory 0))).run connMachine { writes := w.conn.writes }).map
        fun answer => answer.1.1 := by
  have alike := protoSendPacket_result fd 0 pkt (some (w.memory 0)) (c := w.conn) (d := { writes := w.conn.writes }) rfl
  have returned := congrArg (Option.map Prod.fst) alike
  rw [Option.map_map, Option.map_map] at returned
  rw [send, Option.map_map]
  exact returned

theorem World.send_sent (fd : Int) (code : UInt8) (w : World) :
    ({ w with fresh := fun n => w.fresh (n + 1) }).send fd { w.fresh 0 with type := code } =
      some (w.outbox.sent code, w.replied code) := by
  obtain ⟨result, replied⟩ := w.send_replied fd code
  have returned := World.send_result fd { w.fresh 0 with type := code } { w with fresh := fun n => w.fresh (n + 1) }
  rw [replied] at returned
  have known : w.outbox.sent code = result := congrArg (fun answer => Option.getD answer 0) returned.symm
  rw [replied, known]

theorem serviceLogin_trace (fd : Int) (st : ServiceState) (w : World) :
    playerCalls ((serviceLogin fd st).trace World.exec w) =
      .playerLogin fd st.pkt.param1.toUInt8 st.datap.text :: w.outbox.placing (w.logins.headD none) := by
  let asked : World := { w.note (.playerLogin fd st.pkt.param1.toUInt8 st.datap) with logins := w.logins.tail }
  have sent (code : UInt8) : World.exec (.protoSendPacket fd { asked.fresh 0 with type := code })
      { asked with fresh := fun n => asked.fresh (n + 1) } = some (asked.outbox.sent code, asked.replied code) :=
    asked.send_sent fd code
  unfold serviceLogin
  rw [Program.perform_bind, Program.trace_call (t := asked) rfl]
  cases login : w.logins.headD none with
  | none =>
    rw [if_neg (by simp), Program.perform_bind, Program.trace_call rfl, Program.perform_bind,
      Program.trace_call (sent _)]
    rfl
  | some player =>
    rw [if_pos (by simp), Program.perform_bind, Program.trace_call rfl, Program.perform_bind,
      Program.trace_call (sent _)]
    by_cases failed : asked.outbox.sent MzwPacketType.readyPkt.code = -1
    · have unplaced : w.outbox.placing (some player) = [] := if_neg fun placed => placed.2 failed
      rw [if_neg (not_not.mpr failed), unplaced]
      rfl
    · have placed : w.outbox.placing (some player) = [.playerReset (some player)] := if_pos ⟨by simp, failed⟩
      rw [if_pos failed, placed]
      rfl

namespace Standing

/-- The calls that the packet is answered with. -/
def answer (fd : Int) (outbox : Outbox) (standing : Standing) : List ServiceOp :=
  playerCalls (standing.requests fd) ++
    if AsksLogin standing.player standing.pkt then outbox.placing (standing.logins.headD none) else []

def outboxAfter (outbox : Outbox) (standing : Standing) : Outbox :=
  if AsksLogin standing.player standing.pkt then outbox.next else outbox

end Standing

theorem asksLogin_some (player : Nat) (pkt : MzwPacket) : ¬ AsksLogin (some player) pkt := by
  rintro ⟨absent, _⟩
  cases absent

theorem serviceDispatch_trace (fd : Int) {st : ServiceState} {player : PlayerPtr} (w : World)
    (serves : st.Serves player) :
    playerCalls ((serviceDispatch fd st).trace World.exec w) =
      Standing.answer fd w.outbox ⟨player, w.logins, st.pkt, st.datap⟩ := by
  cases player with
  | none =>
    have outside : st.logedIn = -1 := serves
    unfold serviceDispatch Standing.answer Standing.requests honoured
    simp only [outside, show ((-1 : Int) = 0) = False by decide, and_false, and_true, if_false]
    by_cases login : st.pkt.type = MzwPacketType.loginPkt.code
    · have asks : AsksLogin none st.pkt := ⟨rfl, login⟩
      rw [if_pos login, if_pos login, if_pos asks]
      exact serviceLogin_trace fd st w
    · have asks : ¬ AsksLogin none st.pkt := fun asks => login asks.2
      rw [if_neg login, if_neg login, if_neg asks]
      rfl
  | some player =>
    obtain ⟨inside, same⟩ := serves
    rw [Standing.answer, Standing.requests, if_neg (asksLogin_some player st.pkt), List.append_nil, honoured, ← same]
    unfold serviceDispatch requests
    simp only [inside, show ((0 : Int) = -1) = False by decide, and_false, and_true, if_false]
    split_ifs <;> rfl

theorem serviceRound_trace {fd : Int} {st : ServiceState} {player : PlayerPtr} {w t : World} {pkt : MzwPacket}
    {datap : Payload} (serves : st.Serves player) (received : w.receive fd st.pkt st.datap = some ((0, pkt, datap), t)) :
    playerCalls ((serviceRound fd st).trace World.exec w) = Standing.answer fd t.outbox ⟨player, t.logins, pkt, datap⟩ := by
  have dispatching : ({ st with pkt, datap } : ServiceState).Serves player := by
    cases player <;> exact serves
  obtain ⟨next, ran, _⟩ := serviceDispatch_world fd t dispatching
  have body : playerCalls ((do
      let st ← serviceDispatch fd { st with pkt, datap }
      call .showMaze
      return some st : ServiceProgram (Option ServiceState)).trace World.exec t) =
        Standing.answer fd t.outbox ⟨player, t.logins, pkt, datap⟩ := by
    rw [Program.trace_bind ran, playerCalls_append, serviceDispatch_trace fd t dispatching]
    exact List.append_nil _
  have executed : World.exec (.protoRecvPacket fd st.pkt st.datap) w = some ((0, pkt, datap), t) := received
  unfold serviceRound
  cases player with
  | none =>
    have outside : st.logedIn = -1 := serves
    rw [if_neg (not_not.mpr outside)]
    beta_reduce
    rw [Program.perform_bind, Program.trace_call executed]
    exact body
  | some player =>
    have inside : st.logedIn ≠ -1 := by rw [serves.1]; decide
    rw [if_pos inside, Program.perform_bind, Program.trace_call rfl, Program.perform_bind, Program.trace_call executed]
    exact body

def logout (player : PlayerPtr) : List ServiceOp := if player = none then [] else [.playerLogout player]

theorem serviceRound_trace_closed {fd : Int} {st : ServiceState} {player : PlayerPtr} {w t : World}
    {left : MzwPacket × Payload} (serves : st.Serves player)
    (received : w.receive fd st.pkt st.datap = some ((-1, left), t)) :
    playerCalls ((serviceRound fd st).trace World.exec w) = logout player := by
  have executed : World.exec (.protoRecvPacket fd st.pkt st.datap) w = some ((-1, left), t) := received
  obtain ⟨held, pointer, logedIn, newPlayer⟩ := st
  unfold serviceRound
  cases player with
  | none =>
    obtain rfl : logedIn = -1 := serves
    rw [if_neg (by simp)]
    beta_reduce
    rw [Program.perform_bind, Program.trace_call executed]
    rfl
  | some player =>
    obtain ⟨rfl, rfl⟩ : logedIn = 0 ∧ newPlayer = some player := serves
    rw [if_pos (by simp), Program.perform_bind, Program.trace_call rfl, Program.perform_bind,
      Program.trace_call executed]
    rfl

/-- The calls on players in a session, the logout at its end included. -/
def answers (fd : Int) : Standing → Outbox → List WirePacket → List ServiceOp
  | standing, _, [] => logout standing.player
  | standing, outbox, packet :: rest =>
    (standing.take (some packet)).answer fd outbox ++
      answers fd (standing.take (some packet)).dispatched ((standing.take (some packet)).outboxAfter outbox) rest

theorem World.dispatched_outbox (fd : Int) (standing : Standing) (w : World) :
    (w.dispatched fd standing.player standing.pkt standing.datap).outbox = standing.outboxAfter w.outbox := by
  unfold dispatched Standing.outboxAfter
  split <;> rfl

theorem serviceLoop_trace_last {fd : Int} {fuel : Nat} {st : ServiceState} {player : PlayerPtr} {w t : World}
    {left : MzwPacket × Payload} (serves : st.Serves player)
    (received : w.receive fd st.pkt st.datap = some ((-1, left), t)) :
    playerCalls ((serviceLoop fd (fuel + 1) st).trace World.exec w) = logout player := by
  rw [serviceLoop, Program.trace_bind (serviceRound_closed serves received), playerCalls_append,
    serviceRound_trace_closed serves received]
  exact List.append_nil _

theorem serviceLoop_trace {fd : Int} {fuel : Nat} {st : ServiceState} {standing : Standing} {w : World}
    {packets : List WirePacket} (gives : Gives w.inbox (packets.map some)) (enough : packets.length < fuel)
    (serves : st.Serves standing.player) (pkt : st.pkt = standing.pkt) (datap : st.datap = standing.datap)
    (logins : w.logins = standing.logins) :
    playerCalls ((serviceLoop fd fuel st).trace World.exec w) = answers fd standing w.outbox packets := by
  induction packets generalizing fuel st standing w with
  | nil =>
    obtain ⟨fuel, rfl⟩ : ∃ n, fuel = n + 1 := ⟨fuel - 1, by omega⟩
    generalize before : w.inbox = inbox at gives
    cases gives with
    | closed succeeds other =>
      obtain ⟨t, received, _⟩ := World.receive_closed fd st.pkt st.datap before succeeds other
      exact serviceLoop_trace_last serves received
    | broken other =>
      obtain ⟨t, received, _⟩ := World.receive_broken fd st.pkt st.datap before other
      exact serviceLoop_trace_last serves received
  | cons packet rest ih =>
    obtain ⟨fuel, rfl⟩ : ∃ n, fuel = n + 1 := ⟨fuel - 1, by simp at enough; omega⟩
    rw [List.map_cons] at gives
    generalize before : w.inbox = inbox at gives
    cases gives with
    | next takes gives =>
      obtain ⟨t, received, inbox, outbox, kept, _⟩ := World.receive_takes fd standing (before ▸ takes)
      rw [← pkt, ← datap] at received
      obtain ⟨next, ran, serving, header, payload⟩ := serviceRound_world serves received
      have round := serviceRound_trace serves received
      let taker := standing.take (some packet)
      have known : t.logins = taker.logins := kept.trans logins
      rw [known] at serving round
      rw [outbox] at round
      have gives' : Gives (t.dispatched fd taker.player taker.pkt taker.datap).inbox (rest.map some) := by
        rw [t.dispatched_inbox fd taker, inbox]
        exact gives
      have later := @ih fuel next taker.dispatched _ gives' (by simpa using enough) serving header payload
        (t.dispatched_logins fd taker known)
      rw [t.dispatched_outbox fd taker, outbox] at later
      rw [serviceLoop, Program.trace_bind ran, playerCalls_append, round]
      exact congrArg _ later

theorem mzwClientService_trace (fd : Int) {fuel : Nat} {inbox : Inbox} {packets : List WirePacket}
    (logins : List PlayerPtr) (outbox : Outbox) (gives : Gives inbox (packets.map some))
    (enough : packets.length < fuel) :
    playerCalls ((mzwClientService fd fuel).trace World.exec (.start inbox logins outbox)) =
      answers fd (.start logins outbox) outbox.start packets := by
  let allocated : World := { World.start inbox logins outbox with fresh := fun n => outbox.fresh (n + 1) }
  have here : Gives allocated.inbox (packets.map some) := gives
  have serves : ServiceState.Serves ⟨outbox.fresh 0, .wild, -1, some 0⟩ (Standing.start logins outbox).player := rfl
  have looped := @serviceLoop_trace fd fuel _ _ _ _ here enough serves rfl rfl rfl
  obtain ⟨t, ran, _⟩ := @serviceLoop_world fd fuel _ _ _ _ _ here rfl (by simpa using enough) serves rfl rfl rfl
  unfold mzwClientService
  rw [Program.perform_bind, Program.trace_call rfl, Program.perform_bind, Program.trace_call rfl,
    Program.perform_bind, Program.trace_call rfl, Program.perform_bind, Program.trace_call rfl,
    Program.perform_bind, Program.trace_call rfl]
  show playerCalls (_ :: _ :: _ :: _ :: _ :: Program.trace World.exec
    (serviceLoop fd fuel ⟨outbox.fresh 0, .wild, -1, some 0⟩ >>= _) allocated) = _
  rw [Program.trace_bind ran]
  refine Eq.trans ?_ looped
  exact (playerCalls_append _ _).trans (List.append_nil _)

/-! ### Standings that a deletion leaves apart -/

theorem playerCalls_requests {pkt : MzwPacket} (empty : pkt.size = 0) (player : PlayerPtr) (datap datap' : Payload) :
    playerCalls (requests player pkt datap) = playerCalls (requests player pkt datap') := by
  unfold requests
  split_ifs <;> simp [playerCalls, ServiceOp.playerCall, empty]

/-- The standings differ at most in a payload that is not the name of a login to come, and in
the buffer, which the next packet overwrites. -/
structure Standing.Parallel (first second : Standing) : Prop where
  player : first.player = second.player
  logins : first.logins = second.logins
  name : first.player = none → first.datap.text = second.datap.text

namespace Standing
variable {first second : Standing} {packet : WirePacket}

theorem take_sized (player : first.player = second.player) (logins : first.logins = second.logins)
    (sized : packet.header.size ≠ 0) : first.take (some packet) = second.take (some packet) := by
  simp [take, WirePacket.datap, sized, player, logins]

theorem Parallel.take (parallel : first.Parallel second) (packet : WirePacket) :
    (first.take (some packet)).Parallel (second.take (some packet)) := by
  refine ⟨parallel.player, parallel.logins, fun waiting => ?_⟩
  show (packet.datap first.datap).text = (packet.datap second.datap).text
  unfold WirePacket.datap
  split
  · exact parallel.name waiting
  · rfl

theorem Parallel.answer (parallel : first.Parallel second) (fd : Int) (outbox : Outbox) (packet : WirePacket) :
    (first.take (some packet)).answer fd outbox = (second.take (some packet)).answer fd outbox := by
  by_cases empty : packet.header.size = 0
  · obtain ⟨player, logins, pkt, datap⟩ := first
    obtain ⟨player', logins', pkt', datap'⟩ := second
    obtain ⟨rfl, rfl, name⟩ := parallel
    have kept (before : Payload) : packet.datap before = before := if_pos empty
    unfold Standing.answer Standing.requests
    simp only [Standing.take, kept]
    refine congrArg (· ++ _) ?_
    cases player with
    | none =>
      unfold honoured
      dsimp only
      split
      · simp [playerCalls, ServiceOp.playerCall, name rfl]
      · rfl
    | some player => exact playerCalls_requests empty (some player) datap datap'
  · rw [take_sized parallel.player parallel.logins empty]

theorem Parallel.dispatched (parallel : first.Parallel second) (pkt : first.pkt = second.pkt) :
    first.dispatched.Parallel second.dispatched := by
  obtain ⟨player, logins, _, datap⟩ := first
  obtain ⟨player', logins', _, datap'⟩ := second
  obtain ⟨rfl, rfl, name⟩ := parallel
  cases pkt
  refine ⟨rfl, rfl, fun waiting => name ?_⟩
  cases player with
  | none => rfl
  | some player =>
    simp [Standing.dispatched, playerAfter, asksLogin_some] at waiting

end Standing

theorem answers_parallel (fd : Int) {first second : Standing} (parallel : first.Parallel second) (outbox : Outbox)
    (packets : List WirePacket) : answers fd first outbox packets = answers fd second outbox packets := by
  induction packets generalizing first second outbox with
  | nil => exact congrArg logout parallel.player
  | cons packet rest ih =>
    have spent : (first.take (some packet)).outboxAfter outbox = (second.take (some packet)).outboxAfter outbox := by
      unfold Standing.outboxAfter Standing.take
      rw [parallel.player]
    rw [answers, answers, parallel.answer fd outbox packet, spent]
    exact congrArg _ (ih ((parallel.take packet).dispatched rfl) _)

/-- A LOGIN without a payload comes before any packet with one. -/
def BorrowsName : List WirePacket → Prop
  | [] => False
  | packet :: rest =>
    packet.header.size = 0 ∧ (packet.header.type = MzwPacketType.loginPkt.code ∨ BorrowsName rest)

namespace Standing

theorem answer_unhonoured (fd : Int) (outbox : Outbox) (standing : Standing) (unhonoured : ¬ standing.Honours) :
    standing.answer fd outbox = [] ∧ standing.outboxAfter outbox = outbox := by
  have asks : ¬ AsksLogin standing.player standing.pkt := by
    obtain ⟨player, logins, pkt, datap⟩ := standing
    rintro ⟨rfl, login⟩
    exact unhonoured login
  refine ⟨?_, if_neg asks⟩
  rw [answer, if_neg asks, (standing.requests_nil_iff fd).mpr unhonoured]
  rfl

end Standing

theorem answers_unhonoured (fd : Int) {standing : Standing} {packet : WirePacket} (outbox : Outbox)
    (rest : List WirePacket) (unhonoured : ¬ (standing.take (some packet)).Honours) :
    answers fd standing outbox (packet :: rest) = answers fd (standing.take (some packet)) outbox rest := by
  obtain ⟨silent, kept⟩ := (standing.take (some packet)).answer_unhonoured fd outbox unhonoured
  rw [answers, silent, kept, (standing.take (some packet)).dispatched_unhonoured unhonoured, List.nil_append]

theorem answers_waiting_iff (fd : Int) {first second : Standing} (waiting : first.player = none)
    (player : first.player = second.player) (logins : first.logins = second.logins)
    (differ : first.datap.text ≠ second.datap.text) (outbox : Outbox) (packets : List WirePacket) :
    answers fd first outbox packets = answers fd second outbox packets ↔ ¬ BorrowsName packets := by
  induction packets generalizing first second with
  | nil => exact iff_of_true (congrArg logout player) id
  | cons packet rest ih =>
    by_cases empty : packet.header.size = 0
    · have kept (before : Payload) : packet.datap before = before := if_pos empty
      have names : (first.take (some packet)).datap.text ≠ (second.take (some packet)).datap.text := by
        simpa only [Standing.take, kept] using differ
      by_cases login : packet.header.type = MzwPacketType.loginPkt.code
      · refine iff_of_false (fun same => names ?_) (not_not_intro ⟨empty, Or.inl login⟩)
        have asked (standing : Standing) (waiting : standing.player = none) :
            (answers fd standing outbox (packet :: rest)).head? = some (.playerLogin fd packet.header.param1.toUInt8
              (standing.take (some packet)).datap.text) := by
          obtain ⟨_, logins, pkt, datap⟩ := standing
          cases waiting
          simp [answers, Standing.answer, Standing.requests, Standing.take, honoured, login, playerCalls,
            ServiceOp.playerCall]
        have heads := congrArg List.head? same
        rw [asked first waiting, asked second (player ▸ waiting)] at heads
        exact (ServiceOp.playerLogin.inj (Option.some.inj heads)).2.2
      · have idle (standing : Standing) (waiting : standing.player = none) :
            ¬ (standing.take (some packet)).Honours := by
          obtain ⟨_, logins, pkt, datap⟩ := standing
          cases waiting
          exact login
        have later := @ih (first.take (some packet)) (second.take (some packet)) waiting player logins names
        rw [answers_unhonoured fd outbox rest (idle first waiting),
          answers_unhonoured fd outbox rest (idle second (player ▸ waiting)), later]
        simp [BorrowsName, empty, login]
    · rw [answers, answers, Standing.take_sized player logins empty]
      exact iff_of_true rfl fun borrows => empty borrows.1

/-! ### Deleting the packet -/

namespace Standing

def after (standing : Standing) (packets : List WirePacket) : Standing :=
  packets.foldl (fun standing packet => (standing.take (some packet)).dispatched) standing

/-- The packet's payload becomes the name of a login to come, which otherwise has another one. -/
def Lends (standing : Standing) (packet : WirePacket) (rest : List WirePacket) : Prop :=
  standing.player = none ∧ (packet.datap standing.datap).text ≠ standing.datap.text ∧ BorrowsName rest

end Standing

theorem answers_after (fd : Int) (standing : Standing) (outbox : Outbox) (before : List WirePacket) :
    ∃ earlier outbox', ∀ rest, answers fd standing outbox (before ++ rest) =
      earlier ++ answers fd (standing.after before) outbox' rest := by
  induction before generalizing standing outbox with
  | nil => exact ⟨[], outbox, fun rest => rfl⟩
  | cons packet before ih =>
    obtain ⟨earlier, outbox', same⟩ := ih (standing.take (some packet)).dispatched
      ((standing.take (some packet)).outboxAfter outbox)
    refine ⟨(standing.take (some packet)).answer fd outbox ++ earlier, outbox', fun rest => ?_⟩
    rw [List.cons_append, answers, same rest, List.append_assoc]
    rfl

theorem answers_delete_iff (fd : Int) {standing : Standing} {packet : WirePacket} (outbox : Outbox)
    (rest : List WirePacket) (unhonoured : ¬ (standing.take (some packet)).Honours) :
    answers fd standing outbox (packet :: rest) = answers fd standing outbox rest ↔
      ¬ standing.Lends packet rest := by
  rw [answers_unhonoured fd outbox rest unhonoured]
  by_cases lends : standing.player = none ∧ (packet.datap standing.datap).text ≠ standing.datap.text
  · obtain ⟨waiting, differ⟩ := lends
    have player : (standing.take (some packet)).player = none := waiting
    rw [@answers_waiting_iff fd (standing.take (some packet)) standing player rfl rfl differ]
    exact not_congr ⟨fun borrows => ⟨waiting, differ, borrows⟩, fun lent => lent.2.2⟩
  · have parallel : (standing.take (some packet)).Parallel standing :=
      ⟨rfl, rfl, fun waiting => not_not.mp fun differ => lends ⟨waiting, differ⟩⟩
    exact iff_of_true (answers_parallel fd parallel outbox rest) fun lent => lends ⟨lent.1, lent.2.1⟩

/-- Deleting a packet that is not honoured changes the calls on players exactly if it lends its
payload as a name. -/
theorem ignored_packet_invisible_iff (fd : Int) (fuel : Nat) {whole shortened : Inbox}
    (before after : List WirePacket) (packet : WirePacket) (logins : List PlayerPtr) (outbox : Outbox)
    (gives : Gives whole ((before ++ packet :: after).map some)) (gives' : Gives shortened ((before ++ after).map some))
    (enough : (before ++ packet :: after).length < fuel)
    (ignored : ¬ (((Standing.start logins outbox).after before).take (some packet)).Honours) :
    playerCalls ((mzwClientService fd fuel).trace World.exec (.start whole logins outbox)) =
        playerCalls ((mzwClientService fd fuel).trace World.exec (.start shortened logins outbox)) ↔
      ¬ ((Standing.start logins outbox).after before).Lends packet after := by
  have enough' : (before ++ after).length < fuel := by
    simp only [List.length_append, List.length_cons] at enough ⊢
    omega
  obtain ⟨earlier, outbox', same⟩ := answers_after fd (Standing.start logins outbox) outbox.start before
  rw [mzwClientService_trace fd logins outbox gives enough, mzwClientService_trace fd logins outbox gives' enough',
    same, same, List.append_cancel_left_eq]
  exact answers_delete_iff fd outbox' after ignored

/-! ### A name from a TURN -/

theorem gives_whole (packets : List WirePacket) (errnos : List Int)
    (calm : (errnos.drop packets.length).headD 0 ≠ eintr) :
    Gives ⟨packets.flatMap WirePacket.bytes, [], errnos⟩ (packets.map some) := by
  induction packets generalizing errnos with
  | nil => exact .closed trivial calm
  | cons packet rest ih =>
    refine .next (.packet (wholeTransfers_nil _)) ?_
    rw [List.drop_nil]
    exact ih errnos.tail (by rwa [List.drop_tail])

/-- The LOGIN that follows brings a name of its own. -/
theorem ignored_packet_invisible_iff_turn :
    playerCalls ((mzwClientService 4 4).trace World.exec
        (.start ⟨[.lettered .movePkt 0 97, .lettered .turnPkt 0 98, loginRequest].flatMap WirePacket.bytes, [], []⟩
          [some 2] zeroed)) =
      playerCalls ((mzwClientService 4 4).trace World.exec
        (.start ⟨[.lettered .movePkt 0 97, loginRequest].flatMap WirePacket.bytes, [], []⟩ [some 2] zeroed)) := by
  refine (ignored_packet_invisible_iff 4 4 [.lettered .movePkt 0 97] [loginRequest] (.lettered .turnPkt 0 98)
    [some 2] zeroed (gives_whole [.lettered .movePkt 0 97, .lettered .turnPkt 0 98, loginRequest] [] (by decide))
    (gives_whole [.lettered .movePkt 0 97, loginRequest] [] (by decide)) (by decide)
    (by decide : (WirePacket.lettered .turnPkt 0 98).header.type ≠ MzwPacketType.loginPkt.code)).mpr fun lends => ?_
  have borrows : BorrowsName [loginRequest] := lends.2.2
  exact absurd borrows.1 (by decide)

/-- A LOGIN without a payload: its name is what `*datap` refers to already. -/
def namelessLogin : WirePacket := .request .loginPkt 65

/-- The player of the shorter session is called "a", the one of the longer "b". -/
theorem ignored_packet_names_login :
    ¬ ∀ (fd : Int) (fuel : Nat) (whole shortened : Inbox) (before after : List WirePacket) (packet : WirePacket)
      (logins : List PlayerPtr) (outbox : Outbox),
      Gives whole ((before ++ packet :: after).map some) → Gives shortened ((before ++ after).map some) →
      (before ++ packet :: after).length < fuel →
      ¬ (((Standing.start logins outbox).after before).take (some packet)).Honours →
      playerCalls ((mzwClientService fd fuel).trace World.exec (.start whole logins outbox)) =
        playerCalls ((mzwClientService fd fuel).trace World.exec (.start shortened logins outbox)) := by
  intro invisible
  have same := invisible 4 4 _ _ [.lettered .movePkt 0 97] [namelessLogin] (.lettered .turnPkt 0 98) [some 2] zeroed
    (gives_whole [.lettered .movePkt 0 97, .lettered .turnPkt 0 98, namelessLogin] [] (by decide))
    (gives_whole [.lettered .movePkt 0 97, namelessLogin] [] (by decide)) (by decide)
    (by decide : (WirePacket.lettered .turnPkt 0 98).header.type ≠ MzwPacketType.loginPkt.code)
  exact absurd same (by decide)

end MazeWar
