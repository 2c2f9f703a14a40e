import MazeWar.Protocol.Wire
import MazeWar.Server.Session

/-!
# The service thread in its surroundings

A machine for the calls of the service thread: packets are received and sent by the programs
of `protocol.c` on a connection, logins and the contents of allocated memory come from
outside. What the thread does with its packets is then a function of what it takes from the
connection.
-/

namespace MazeWar
open Foundation

/-- What the replies are made from: how much the next `write` calls transfer, the contents of
the next blocks to be allocated, and for each reply the memory from the cell `datap` on. -/
structure Outbox where
  writes : List Transfer
  fresh : Nat → MzwPacket
  memory : Nat → Nat → UInt8

inductive Entry where
  /-- A receive that read a whole header. -/
  | received
  /-- A receive whose read was interrupted or found the end of the connection. -/
  | missed
  | request (op : ServiceOp)
  deriving DecidableEq, Repr

/-- `errnos` is the value of `errno` that each receive finds. -/
structure World where
  conn : Conn
  errnos : List Int
  logins : List PlayerPtr
  fresh : Nat → MzwPacket
  memory : Nat → Nat → UInt8
  log : List Entry
  replies : List (List UInt8)

namespace World

def receive (fd : Int) (pkt : MzwPacket) (datap : Payload) (w : World) :
    Option ((Int × MzwPacket × Payload) × World) :=
  let conn := { w.conn with errno := w.errnos.headD 0 }
  let entry := if (conn.read MzwPacket.sizeOf).1.count = (MzwPacket.sizeOf : Int) then .received else .missed
  ((protoRecvPacket fd pkt datap).run connMachine conn).map fun (answer, conn) =>
    (answer, { w with conn, errnos := w.errnos.tail, log := w.log ++ [entry] })

def send (fd : Int) (pkt : MzwPacket) (w : World) : Option (Int × World) :=
  ((protoSendPacket fd pkt (some (w.memory 0))).run connMachine w.conn).map fun ((result, _), conn) =>
    (result, { w with
      conn
      memory := fun n => w.memory (n + 1)
      replies := w.replies ++ [conn.outgoing.drop w.conn.outgoing.length] })

def note (op : ServiceOp) (w : World) : World := { w with log := w.log ++ [.request op] }

/-- The requests are taken down. The players' functions and `show_maze` return, and leave the connection
alone here. -/
def exec : Machine ServiceOp ServiceOp.Res World
  | .mallocPacket, w => some (w.fresh 0, { w with fresh := fun n => w.fresh (n + 1) })
  | .mallocDatap, w => some (.wild, w)
  | .mallocPlayer, w => some (some 0, w)
  | .protoRecvPacket fd pkt datap, w => w.receive fd pkt datap
  | .protoSendPacket fd pkt, w => w.send fd pkt
  | .playerLogin fd avatar name, w =>
    some (w.logins.headD none, { w.note (.playerLogin fd avatar name) with logins := w.logins.tail })
  | .playerMove player dir, w => some (0, w.note (.playerMove player dir))
  | .playerRotate player dir, w => some ((), w.note (.playerRotate player dir))
  | .playerFireLaser player, w => some ((), w.note (.playerFireLaser player))
  | .playerInvalidateView player, w => some ((), w.note (.playerInvalidateView player))
  | .playerUpdateView player, w => some ((), w.note (.playerUpdateView player))
  | .playerSendChat player msg len, w => some ((), w.note (.playerSendChat player msg len))
  | .close _, w => some (0, w)
  | .free _, w | .cregRegister _, w | .cregUnregister _, w | .playerLogout _, w | .playerReset _, w
  | .playerCheckForLaserHit _, w | .showMaze, w => some ((), w)

end World

/-! ### What a packet is answered with -/

/-- The calls that carry out a packet, for a client that has logged in as `player` or not yet. -/
def honoured (fd : Int) (player : PlayerPtr) (pkt : MzwPacket) (datap : Payload) : List ServiceOp :=
  match player with
  | none =>
    if pkt.type = MzwPacketType.loginPkt.code then [.playerLogin fd pkt.param1.toUInt8 datap] else []
  | some player => requests (some player) pkt datap

def AsksLogin (player : PlayerPtr) (pkt : MzwPacket) : Prop :=
  player = none ∧ pkt.type = MzwPacketType.loginPkt.code

instance (player : PlayerPtr) (pkt : MzwPacket) : Decidable (AsksLogin player pkt) :=
  inferInstanceAs (Decidable (_ ∧ _))

def replyCode (login : PlayerPtr) : UInt8 :=
  if login = none then MzwPacketType.inusePkt.code else MzwPacketType.readyPkt.code

def World.outbox (w : World) : Outbox := ⟨w.conn.writes, w.fresh, w.memory⟩

namespace Outbox

/-- The header of the next reply: only its type is assigned. -/
def header (outbox : Outbox) (code : UInt8) : MzwPacket := { outbox.fresh 0 with type := code }

def reply (outbox : Outbox) (code : UInt8) : List UInt8 :=
  sentBytes outbox.writes (outbox.header code) (outbox.memory 0)

def next (outbox : Outbox) : Outbox where
  writes := outbox.writes.drop (sentCalls outbox.writes)
  fresh := fun n => outbox.fresh (n + 1)
  memory := fun n => outbox.memory (n + 1)

end Outbox

namespace World

def replied (code : UInt8) (w : World) : World :=
  { w with
    conn :=
      { w.conn with
        writes := w.outbox.next.writes
        outgoing := w.conn.outgoing ++ w.outbox.reply code
        errno := sentErrno w.conn.writes w.conn.errno }
    fresh := w.outbox.next.fresh
    memory := w.outbox.next.memory
    replies := w.replies ++ [w.outbox.reply code] }

def dispatched (fd : Int) (player : PlayerPtr) (pkt : MzwPacket) (datap : Payload) (w : World) : World :=
  let noted := { w with log := w.log ++ (honoured fd player pkt datap).map .request }
  if AsksLogin player pkt then
    { noted with logins := w.logins.tail }.replied (replyCode (w.logins.headD none))
  else noted

theorem send_replied (fd : Int) (code : UInt8) (w : World) :
    ∃ result, ({ w with fresh := fun n => w.fresh (n + 1) }).send fd { w.fresh 0 with type := code } =
      some (result, w.replied code) := by
  obtain ⟨result, sent⟩ := protoSendPacket_data fd { w.fresh 0 with type := code } (w.memory 0) w.conn
  exact ⟨result, by simp [send, sent, replied, outbox, Outbox.next, Outbox.reply, Outbox.header]⟩

end World

/-- The local variables say that the client has logged in as `player`, or not yet. -/
def ServiceState.Serves (st : ServiceState) : PlayerPtr → Prop
  | none => st.logedIn = -1
  | some player => st.logedIn = 0 ∧ st.newPlayer = some player

def playerAfter (player : PlayerPtr) (logins : List PlayerPtr) (pkt : MzwPacket) : PlayerPtr :=
  if AsksLogin player pkt then logins.headD none else player

theorem serviceLogin_world (fd : Int) {st : ServiceState} (w : World) (outside : st.logedIn = -1) :
    ∃ next, (serviceLogin fd st).run World.exec w = some (next,
        { w.note (.playerLogin fd st.pkt.param1.toUInt8 st.datap) with logins := w.logins.tail }.replied
          (replyCode (w.logins.headD none))) ∧
      next.Serves (w.logins.headD none) ∧ next.pkt = st.pkt ∧ next.datap = st.datap := by
  let asked : World := { w.note (.playerLogin fd st.pkt.param1.toUInt8 st.datap) with logins := w.logins.tail }
  obtain ⟨result, sent⟩ := asked.send_replied fd (replyCode (w.logins.headD none))
  cases login : w.logins.headD none with
  | none =>
    rw [login] at sent
    refine ⟨{ st with newPlayer := none }, ?_, outside, rfl, rfl⟩
    simp only [serviceLogin, Program.perform_bind, Program.run_call, World.exec, Option.bind_some, login, ne_eq,
      not_true_eq_false, if_false]
    exact congrArg (Option.bind · _) sent
  | some player =>
    rw [login] at sent
    refine ⟨{ st with newPlayer := some player, logedIn := 0 }, ?_, ⟨rfl, rfl⟩, rfl, rfl⟩
    simp only [serviceLogin, Program.perform_bind, Program.run_call, World.exec, Option.bind_some, login, ne_eq,
      reduceCtorEq, not_false_eq_true, if_true]
    refine (congrArg (Option.bind · _) sent).trans ?_
    by_cases failed : result = -1
    · simp only [Option.bind_some, failed, not_true_eq_false, if_false]
      rfl
    · simp only [Option.bind_some, failed, not_false_eq_true, if_true]
      rfl

theorem serviceDispatch_world (fd : Int) {st : ServiceState} {player : PlayerPtr} (w : World)
    (serves : st.Serves player) :
    ∃ next, (serviceDispatch fd st).run World.exec w = some (next, w.dispatched fd player st.pkt st.datap) ∧
      next.Serves (playerAfter player w.logins st.pkt) ∧ next.pkt = st.pkt ∧ next.datap = st.datap := by
  cases player with
  | none =>
    have outside : st.logedIn = -1 := serves
    unfold serviceDispatch
    simp only [outside, show ((-1 : Int) = 0) = False by decide, and_false, and_true, if_false]
    by_cases login : st.pkt.type = MzwPacketType.loginPkt.code
    · have asks : AsksLogin none st.pkt := ⟨rfl, login⟩
      rw [if_pos login, playerAfter, if_pos asks, World.dispatched, if_pos asks, honoured, if_pos login]
      exact serviceLogin_world fd w outside
    · have asks : ¬ AsksLogin none st.pkt := fun asks => login asks.2
      rw [if_neg login, playerAfter, if_neg asks, World.dispatched, if_neg asks, honoured, if_neg login]
      exact ⟨st, by simp, serves, rfl, rfl⟩
  | some player =>
    obtain ⟨inside, same⟩ := serves
    have asks : ¬ AsksLogin (some player) st.pkt := fun asks => nomatch asks.1
    rw [playerAfter, if_neg asks, World.dispatched, if_neg asks, honoured]
    refine ⟨st, ?_, ⟨inside, same⟩, rfl, rfl⟩
    unfold serviceDispatch requests
    simp only [inside, show ((0 : Int) = -1) = False by decide, and_false, and_true, if_false]
    split_ifs <;> simp [Program.run_call, World.exec, World.note, same]

/-! ### What the thread takes from the connection -/

structure Inbox where
  incoming : List UInt8
  reads : List Transfer
  errnos : List Int

/-- One receive while `read` calls give all they are asked for: a complete packet; or none,
when the read of the header is interrupted, or at the end of the connection while `errno`
still says so. -/
inductive Takes : Inbox → Option WirePacket → Inbox → Prop
  | packet {packet : WirePacket} {rest : List UInt8} {reads : List Transfer} {errnos : List Int}
      (whole : WholeTransfers packet.asked reads) :
      Takes ⟨packet.bytes ++ rest, reads, errnos⟩ (some packet) ⟨rest, reads.drop packet.asked.length, errnos.tail⟩
  | interrupted {incoming : List UInt8} {reads : List Transfer} {errnos : List Int} :
      Takes ⟨incoming, .fails eintr :: reads, errnos⟩ none ⟨incoming, reads, errnos.tail⟩
  | stale {reads : List Transfer} {errnos : List Int} (succeeds : (reads.headD .full).Succeeds)
      (left : errnos.headD 0 = eintr) : Takes ⟨[], reads, errnos⟩ none ⟨[], reads.tail, errnos.tail⟩

/-- What successive receives take, up to the one that finds the connection closed, or broken. -/
inductive Gives : Inbox → List (Option WirePacket) → Prop
  | closed {reads : List Transfer} {errnos : List Int} (succeeds : (reads.headD .full).Succeeds)
      (other : errnos.headD 0 ≠ eintr) : Gives ⟨[], reads, errnos⟩ []
  | broken {incoming : List UInt8} {errno : Int} {reads : List Transfer} {errnos : List Int} (other : errno ≠ eintr) :
      Gives ⟨incoming, .fails errno :: reads, errnos⟩ []
  | next {inbox later : Inbox} {taken : Option WirePacket} {rest : List (Option WirePacket)}
      (takes : Takes inbox taken later) (gives : Gives later rest) : Gives inbox (taken :: rest)

/-- What the rest of the service depends on. -/
structure Standing where
  player : PlayerPtr
  logins : List PlayerPtr
  pkt : MzwPacket
  datap : Payload

namespace Standing

/-- After a receive, which converts the header in any case. -/
def take (standing : Standing) : Option WirePacket → Standing
  | some packet => { standing with pkt := packet.header, datap := packet.datap standing.datap }
  | none => { standing with pkt := standing.pkt.swapped }

def dispatched (standing : Standing) : Standing :=
  { standing with
    player := playerAfter standing.player standing.logins standing.pkt
    logins := if AsksLogin standing.player standing.pkt then standing.logins.tail else standing.logins }

def requests (fd : Int) (standing : Standing) : List ServiceOp :=
  honoured fd standing.player standing.pkt standing.datap

def replies (standing : Standing) : List UInt8 :=
  if AsksLogin standing.player standing.pkt then [replyCode (standing.logins.headD none)] else []

end Standing

/-- The standings differ in the buffer only, which the next packet overwrites. -/
def Standing.Alike (first second : Standing) : Prop :=
  first.player = second.player ∧ first.logins = second.logins ∧ first.datap = second.datap

theorem Standing.Alike.take {first second : Standing} (alike : first.Alike second) (packet : WirePacket) :
    first.take (some packet) = second.take (some packet) := by
  obtain ⟨player, logins, datap⟩ := alike
  simp [Standing.take, player, logins, datap]

def entry : Option WirePacket → Entry
  | some _ => .received
  | none => .missed

def served (fd : Int) : Standing → List (Option WirePacket) → List Entry
  | _, [] => [.missed]
  | standing, taken :: rest =>
    entry taken :: ((standing.take taken).requests fd).map .request ++ served fd (standing.take taken).dispatched rest

def replyCodes : Standing → List (Option WirePacket) → List UInt8
  | _, [] => []
  | standing, taken :: rest => (standing.take taken).replies ++ replyCodes (standing.take taken).dispatched rest

def Outbox.replies : Outbox → List UInt8 → List (List UInt8)
  | _, [] => []
  | outbox, code :: codes => outbox.reply code :: outbox.next.replies codes

namespace World

def inbox (w : World) : Inbox := ⟨w.conn.incoming, w.conn.reads, w.errnos⟩

theorem receive_of_run {fd : Int} {pkt : MzwPacket} {datap : Payload} {w : World}
    {answer : Int × MzwPacket × Payload} {header : ReadResult} {c d : Conn}
    (read : ({ w.conn with errno := w.errnos.headD 0 } : Conn).read MzwPacket.sizeOf = (header, c))
    (ran : (protoRecvPacket fd pkt datap).run connMachine { w.conn with errno := w.errnos.headD 0 } =
      some (answer, d)) :
    w.receive fd pkt datap = some (answer, { w with
      conn := d
      errnos := w.errnos.tail
      log := w.log ++ [if header.count = (MzwPacket.sizeOf : Int) then .received else .missed] }) := by
  rw [receive, ran, read]
  rfl

theorem receive_takes (fd : Int) (standing : Standing) {w : World} {taken : Option WirePacket} {later : Inbox}
    (takes : Takes w.inbox taken later) :
    ∃ t, w.receive fd standing.pkt standing.datap =
        some ((0, (standing.take taken).pkt, (standing.take taken).datap), t) ∧
      t.inbox = later ∧ t.outbox = w.outbox ∧ t.logins = w.logins ∧ t.log = w.log ++ [entry taken] ∧
      t.replies = w.replies := by
  generalize before : w.inbox = inbox at takes
  cases takes with
  | @packet packet rest reads errnos whole =>
    injection before with incoming plan known
    have wholeReads : WholeTransfers packet.asked w.conn.reads := plan ▸ whole
    have split : w.conn.incoming = packet.head ++ (packet.payload ++ rest) := by
      rw [incoming, WirePacket.bytes, List.append_assoc]
    have read := Conn.read_whole (c := { w.conn with errno := w.errnos.headD 0 }) split packet.headLength wholeReads.1
    have ran := protoRecvPacket_whole fd packet standing.pkt standing.datap
      (c := { w.conn with errno := w.errnos.headD 0 }) incoming wholeReads
    refine ⟨_, receive_of_run read ran, ?_, rfl, rfl, ?_, rfl⟩
    · simp [inbox, plan, known]
    · simp [ReadResult.count, packet.headLength, entry]
  | @interrupted incoming reads errnos =>
    injection before with held plan known
    have read : ({ w.conn with errno := w.errnos.headD 0 } : Conn).read MzwPacket.sizeOf =
        (.failed, { w.conn with reads := reads, errno := eintr }) := by
      simp [Conn.read, plan]
    have ran := protoRecvPacket_without_header fd standing.pkt standing.datap read (by decide)
    rw [if_pos rfl, ReadResult.stored, MzwPacket.overwrite_nil] at ran
    exact ⟨_, receive_of_run read ran, by simp [inbox, held, known], rfl, rfl, rfl, rfl⟩
  | @stale reads errnos succeeds left =>
    injection before with held plan known
    have read := Conn.read_drained (c := { w.conn with errno := w.errnos.headD 0 }) MzwPacket.sizeOf held
      (by rw [plan]; exact succeeds)
    have ran := protoRecvPacket_without_header fd standing.pkt standing.datap read (by decide)
    rw [if_pos (by rw [known]; exact left), ReadResult.stored, MzwPacket.overwrite_nil] at ran
    exact ⟨_, receive_of_run read ran, by simp [inbox, held, plan, known], rfl, rfl, rfl, rfl⟩

theorem receive_closed (fd : Int) (pkt : MzwPacket) (datap : Payload) {w : World} {reads : List Transfer}
    {errnos : List Int} (before : w.inbox = ⟨[], reads, errnos⟩) (succeeds : (reads.headD .full).Succeeds)
    (other : errnos.headD 0 ≠ eintr) :
    ∃ t, w.receive fd pkt datap = some ((-1, pkt.swapped, datap), t) ∧ t.log = w.log ++ [.missed] ∧
      t.replies = w.replies := by
  injection before with held plan known
  have read := Conn.read_drained (c := { w.conn with errno := w.errnos.headD 0 }) MzwPacket.sizeOf held
    (by rw [plan]; exact succeeds)
  have ran := protoRecvPacket_without_header fd pkt datap read (by decide)
  rw [if_neg (by rw [known]; exact other), ReadResult.stored, MzwPacket.overwrite_nil] at ran
  exact ⟨_, receive_of_run read ran, rfl, rfl⟩

theorem receive_broken (fd : Int) (pkt : MzwPacket) (datap : Payload) {w : World} {incoming : List UInt8} {errno : Int}
    {reads : List Transfer} {errnos : List Int} (before : w.inbox = ⟨incoming, .fails errno :: reads, errnos⟩)
    (other : errno ≠ eintr) :
    ∃ t, w.receive fd pkt datap = some ((-1, pkt.swapped, datap), t) ∧ t.log = w.log ++ [.missed] ∧
      t.replies = w.replies := by
  injection before with held plan known
  have read : ({ w.conn with errno := w.errnos.headD 0 } : Conn).read MzwPacket.sizeOf =
      (.failed, { w.conn with reads, errno }) := by
    simp [Conn.read, plan]
  have ran := protoRecvPacket_without_header fd pkt datap read (by decide)
  rw [if_neg other, ReadResult.stored, MzwPacket.overwrite_nil] at ran
  exact ⟨_, receive_of_run read ran, rfl, rfl⟩

end World

namespace World

section Dispatched
variable (fd : Int) (standing : Standing) (w : World)

theorem dispatched_inbox : (w.dispatched fd standing.player standing.pkt standing.datap).inbox = w.inbox := by
  unfold dispatched
  split <;> rfl

theorem dispatched_log :
    (w.dispatched fd standing.player standing.pkt standing.datap).log =
      w.log ++ (standing.requests fd).map .request := by
  unfold dispatched
  split <;> rfl

theorem dispatched_logins (same : w.logins = standing.logins) :
    (w.dispatched fd standing.player standing.pkt standing.datap).logins = standing.dispatched.logins := by
  unfold dispatched Standing.dispatched
  split <;> simp [replied, same]

theorem dispatched_replies (same : w.logins = standing.logins) (codes : List UInt8) :
    (w.dispatched fd standing.player standing.pkt standing.datap).replies ++
        (w.dispatched fd standing.player standing.pkt standing.datap).outbox.replies codes =
      w.replies ++ w.outbox.replies (standing.replies ++ codes) := by
  unfold dispatched Standing.replies
  by_cases asks : AsksLogin standing.player standing.pkt
  · rw [if_pos asks, if_pos asks, same]
    exact List.append_assoc ..
  · rw [if_neg asks, if_neg asks]
    rfl

end Dispatched

end World

/-! ### The thread's run -/

theorem serviceRound_world {fd : Int} {st : ServiceState} {player : PlayerPtr} {w t : World} {pkt : MzwPacket}
    {datap : Payload} (serves : st.Serves player) (received : w.receive fd st.pkt st.datap = some ((0, pkt, datap), t)) :
    ∃ next, (serviceRound fd st).run World.exec w = some (some next, t.dispatched fd player pkt datap) ∧
      next.Serves (playerAfter player t.logins pkt) ∧ next.pkt = pkt ∧ next.datap = datap := by
  have dispatching : ({ st with pkt, datap } : ServiceState).Serves player := by
    cases player <;> exact serves
  obtain ⟨next, ran, serving, header, payload⟩ := serviceDispatch_world fd t dispatching
  refine ⟨next, ?_, serving, header, payload⟩
  have body : (do
      let st ← serviceDispatch fd { st with pkt, datap }
      call .showMaze
      return some st : ServiceProgram (Option ServiceState)).run World.exec t =
        some (some next, t.dispatched fd player pkt datap) := by
    rw [Program.run_bind, ran]
    rfl
  obtain ⟨held, pointer, logedIn, newPlayer⟩ := st
  unfold serviceRound
  cases player with
  | none =>
    obtain rfl : logedIn = -1 := serves
    simp only [ne_eq, not_true_eq_false, if_false, Program.perform_bind, Program.run_call, World.exec, received,
      Option.bind_some]
    exact body
  | some player =>
    obtain rfl : logedIn = 0 := serves.1
    simp only [show ((0 : Int) ≠ -1) = True by decide, if_true, Program.perform_bind, Program.run_call,
      World.exec, received, Option.bind_some, ne_eq, not_true_eq_false, if_false]
    exact body

theorem serviceRound_closed {fd : Int} {st : ServiceState} {player : PlayerPtr} {w t : World}
    {left : MzwPacket × Payload} (serves : st.Serves player)
    (received : w.receive fd st.pkt st.datap = some ((-1, left), t)) :
    (serviceRound fd st).run World.exec w = some (none, t) := by
  obtain ⟨held, pointer, logedIn, newPlayer⟩ := st
  unfold serviceRound
  cases player with
  | none =>
    obtain rfl : logedIn = -1 := serves
    simp [Program.run_call, World.exec, received]
  | some player =>
    obtain rfl : logedIn = 0 := serves.1
    simp [Program.run_call, World.exec, received]

theorem serviceLoop_last {fd : Int} {fuel : Nat} {st : ServiceState} {player : PlayerPtr} {w t : World}
    {left : MzwPacket × Payload} (serves : st.Serves player)
    (received : w.receive fd st.pkt st.datap = some ((-1, left), t)) :
    (serviceLoop fd (fuel + 1) st).run World.exec w = some (true, t) := by
  rw [serviceLoop, Program.run_bind, serviceRound_closed serves received]
  rfl

theorem serviceLoop_world {fd : Int} {fuel : Nat} {st : ServiceState} {standing : Standing} {w : World} {inbox : Inbox}
    {takings : List (Option WirePacket)} (gives : Gives inbox takings) (here : w.inbox = inbox)
    (enough : takings.length < fuel) (serves : st.Serves standing.player) (pkt : st.pkt = standing.pkt)
    (datap : st.datap = standing.datap) (logins : w.logins = standing.logins) :
    ∃ t, (serviceLoop fd fuel st).run World.exec w = some (true, t) ∧
      t.log = w.log ++ served fd standing takings ∧
      t.replies = w.replies ++ w.outbox.replies (replyCodes standing takings) := by
  obtain ⟨fuel, rfl⟩ : ∃ n, fuel = n + 1 := ⟨fuel - 1, by omega⟩
  induction gives generalizing fuel st standing w with
  | closed succeeds other =>
    obtain ⟨t, received, log, replies⟩ := World.receive_closed fd st.pkt st.datap here succeeds other
    exact ⟨t, serviceLoop_last serves received, log, by simpa [replyCodes, Outbox.replies] using replies⟩
  | broken other =>
    obtain ⟨t, received, log, replies⟩ := World.receive_broken fd st.pkt st.datap here other
    exact ⟨t, serviceLoop_last serves received, log, by simpa [replyCodes, Outbox.replies] using replies⟩
  | @next inbox later taken rest takes gives ih =>
    obtain ⟨t, received, inbox, outbox, kept, log, replies⟩ := World.receive_takes fd standing (here ▸ takes)
    rw [← pkt, ← datap] at received
    obtain ⟨next, ran, serving, header, payload⟩ := serviceRound_world serves received
    obtain ⟨fuel, rfl⟩ : ∃ n, fuel = n + 1 := ⟨fuel - 1, by simp at enough; omega⟩
    let taker := standing.take taken
    have player : taker.player = standing.player := by cases taken <;> rfl
    have known : t.logins = taker.logins := by rw [kept, logins]; cases taken <;> rfl
    have serving' : next.Serves taker.dispatched.player := by
      rw [← player, known] at serving
      exact serving
    rw [← player] at ran
    obtain ⟨u, looped, log', replies'⟩ := @ih next taker.dispatched _ ((t.dispatched_inbox fd taker).trans inbox)
      serving' header payload (t.dispatched_logins fd taker known) fuel (by simpa using enough)
    refine ⟨u, ?_, ?_, ?_⟩
    · rw [serviceLoop, Program.run_bind, ran]
      exact looped
    · rw [log', t.dispatched_log fd taker, log]
      simp [served, taker]
    · rw [replies', t.dispatched_replies fd taker known, replies, outbox]
      rfl

def World.start (inbox : Inbox) (logins : List PlayerPtr) (outbox : Outbox) : World where
  conn := { incoming := inbox.incoming, reads := inbox.reads, writes := outbox.writes }
  errnos := inbox.errnos
  logins := logins
  fresh := outbox.fresh
  memory := outbox.memory
  log := []
  replies := []

/-- `pkt` holds what its block held before. -/
def Standing.start (logins : List PlayerPtr) (outbox : Outbox) : Standing := ⟨none, logins, outbox.fresh 0, .wild⟩

/-- The first block has been allocated for `pkt`. -/
def Outbox.start (outbox : Outbox) : Outbox := { outbox with fresh := fun n => outbox.fresh (n + 1) }

theorem mzwClientService_world (fd : Int) (fuel : Nat) {inbox : Inbox} {takings : List (Option WirePacket)}
    (logins : List PlayerPtr) (outbox : Outbox) (gives : Gives inbox takings) (enough : takings.length < fuel) :
    ∃ t, (mzwClientService fd fuel).run World.exec (World.start inbox logins outbox) = some (true, t) ∧
      t.log = served fd (Standing.start logins outbox) takings ∧
      t.replies = outbox.start.replies (replyCodes (Standing.start logins outbox) takings) := by
  let allocated : World := { World.start inbox logins outbox with fresh := fun n => outbox.fresh (n + 1) }
  have here : allocated.inbox = inbox := rfl
  have serves : ServiceState.Serves ⟨outbox.fresh 0, .wild, -1, some 0⟩ (Standing.start logins outbox).player := rfl
  obtain ⟨t, looped, log, replies⟩ := @serviceLoop_world fd fuel _ _ _ _ _ gives here enough serves rfl rfl rfl
  refine ⟨t, ?_, log, replies⟩
  simp only [mzwClientService, Program.perform_bind, Program.run_call, World.exec, Option.bind_some, Program.run_bind]
  exact congrArg (Option.bind · _) looped

end MazeWar
