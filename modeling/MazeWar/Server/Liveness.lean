import MazeWar.Server.Interrupts

/-!
# Every client is let go

The loop of the service thread goes on after every receive that succeeds. Each of those takes
something from what the client has sent, or uses up an interruption, so the loop ends, whatever
was sent, however it arrives and whatever the functions do that the thread calls.
-/

namespace MazeWar
open Foundation

section Machines
variable {σ : Type} {exec : Machine ServiceOp ServiceOp.Res σ} {μ : σ → Nat} {fd : Int} {s t : σ}

/-! ### The rounds of a session -/

/-- The event is a receive that succeeds. -/
def succeeds : Event → Bool
  | ⟨.protoRecvPacket _ _ _, answer⟩ => answer.1 = 0
  | _ => false

def rounds (log : List Event) : Nat := log.countP succeeds

theorem rounds_cons (event : Event) (log : List Event) :
    rounds (event :: log) = rounds log + if succeeds event then 1 else 0 := List.countP_cons

theorem rounds_append (first second : List Event) : rounds (first ++ second) = rounds first + rounds second :=
  List.countP_append

theorem rounds_zero {log : List Event} (none : ∀ event ∈ log, succeeds event = false) : rounds log = 0 :=
  List.countP_eq_zero.mpr fun event present => by simp [none event present]

theorem rounds_calls (log : List Event) : rounds (calls log) = rounds log := by
  have observed : ∀ event : Event, succeeds event = true → event.1.observed = true := by
    rintro ⟨op, result⟩ received
    cases op <;> first | rfl | cases received
  rw [rounds, calls, List.countP_filter]
  exact List.countP_congr fun event _ => by simp [and_iff_left_of_imp (observed event)]

theorem rounds_exit {ended : Bool} {exit : List Event} (leaving : Exit fd ended exit) : rounds exit = 0 := by
  refine rounds_zero fun ⟨op, result⟩ present => ?_
  have listed : op ∈ exit.map Sigma.fst := List.mem_map_of_mem present
  rw [leaving] at listed
  cases ended with
  | false => cases listed
  | true =>
    simp only [if_true, List.mem_cons, List.not_mem_nil, or_false] at listed
    rcases listed with rfl | rfl <;> rfl

theorem rounds_requests {player : PlayerPtr} {pkt : MzwPacket} {datap : Payload} {acts : List Event}
    (honoured : acts.map Sigma.fst = requests player pkt datap) : rounds acts = 0 := by
  refine rounds_zero fun ⟨op, result⟩ present => ?_
  have plays := requests_play honoured _ present
  cases op <;> first | rfl | cases plays

theorem Playing.rounds {player : PlayerPtr} {n : Nat} {ended : Bool} {log : List Event}
    (playing : Playing fd player n ended log) : rounds log = n := by
  induction playing with
  | running => rfl
  | left failed leaving => simp [rounds_cons, rounds_exit leaving, succeeds, failed]
  | round received honoured later ih =>
    simp [rounds_cons, rounds_append, rounds_requests honoured, ih, succeeds, received]

theorem Waiting.rounds {n : Nat} {ended : Bool} {log : List Event} (waiting : Waiting fd n ended log) :
    rounds log = n := by
  induction waiting with
  | running => rfl
  | left failed leaving => simp [rounds_cons, rounds_exit leaving, succeeds, failed]
  | ignored received other later ih => simp [rounds_cons, ih, succeeds, received]
  | refused received login inuse later ih => simp [rounds_cons, ih, succeeds, received]
  | @accepted pkt datap answer player reply sent rounds ended rest received login ready later =>
    have placed : MazeWar.rounds (placement (some player) sent) = 0 := by
      unfold placement
      split <;> rfl
    simp [rounds_cons, rounds_append, placed, later.rounds, succeeds, received]

theorem Session.rounds {n : Nat} {ended : Bool} {log : List Event} (session : Session fd n ended log) :
    rounds log = n := by
  obtain ⟨rest, rfl, waiting⟩ := session
  simp [rounds_cons, waiting.rounds, succeeds]

/-! ### A measure that receives lower -/

/-- No operation raises the measure, and a receive that succeeds lowers it. -/
structure Draining (exec : Machine ServiceOp ServiceOp.Res σ) (μ : σ → Nat) : Prop where
  keeps : ∀ op s result t, exec op s = some (result, t) → μ t ≤ μ s
  spends : ∀ op s result t, exec op s = some (result, t) → succeeds ⟨op, result⟩ = true → μ t < μ s

namespace Draining

theorem emits (drains : Draining exec μ) {α : Type} {program : ServiceProgram α} {value : α}
    (ran : program.run exec s = some (value, t)) :
    ∃ log, program.Emits log value ∧ log.map Sigma.fst = program.trace exec s ∧ rounds log + μ t ≤ μ s := by
  induction program generalizing s with
  | done final =>
    cases ran
    exact ⟨[], ⟨rfl, rfl⟩, rfl, (Nat.zero_add _).le⟩
  | call op next ih =>
    obtain ⟨⟨result, u⟩, executed, ran⟩ := Option.bind_eq_some_iff.mp ran
    obtain ⟨log, emitted, made, fewer⟩ := ih result ran
    refine ⟨⟨op, result⟩ :: log, ⟨result, log, rfl, emitted⟩, ?_, ?_⟩
    · rw [List.map_cons, made, Program.trace_call executed]
    · have below : rounds log + μ t ≤ μ u := fewer
      have kept := drains.keeps op s result u executed
      rw [rounds_cons]
      split
      · rename_i received
        have spent := drains.spends op s result u executed received
        omega
      · omega

/-- A thread that returns has ended, after at most as many receives that succeed as the measure says. -/
theorem service_ends (drains : Draining exec μ) {fuel : Nat} {ended : Bool}
    (ran : (mzwClientService fd fuel).run exec s = some (ended, t)) (enough : μ s < fuel) :
    ended = true ∧ ∃ log, log.map Sigma.fst = (mzwClientService fd fuel).trace exec s ∧
      Session fd (rounds log) true (calls log) ∧ rounds log ≤ μ s := by
  obtain ⟨log, emitted, made, fewer⟩ := drains.emits ran
  obtain ⟨n, within, session⟩ := mzwClientService_session emitted
  obtain rfl : rounds log = n := by rw [← rounds_calls, session.rounds]
  cases ended with
  | true => exact ⟨rfl, log, made, session, by omega⟩
  | false =>
    have spent : rounds log = fuel := within
    omega

end Draining

/-! ### What a receive uses up -/

def Conn.effort (c : Conn) : Nat := c.incoming.length + c.reads.length

/-- `errno` is EINTR, which the next receive that gets no header takes for its own interruption. -/
def Conn.stale (c : Conn) : Nat := if c.errno = eintr then 1 else 0

theorem Conn.stale_le (c : Conn) : c.stale ≤ 1 := by
  unfold Conn.stale
  split <;> omega

theorem Conn.read_failed {c d : Conn} {n : Nat} (read : c.read n = (.failed, d)) : d.effort < c.effort := by
  unfold Conn.read at read
  cases plan : c.reads with
  | nil => simp [plan] at read
  | cons next later =>
    rw [plan] at read
    cases next with
    | full | upTo limit => cases read
    | fails errno =>
      cases read
      simp [Conn.effort, plan]

theorem Conn.read_got {c d : Conn} {n : Nat} {bytes : List UInt8} (read : c.read n = (.got bytes, d)) :
    d.effort + bytes.length ≤ c.effort ∧ d.errno = c.errno := by
  have succeeds : (c.reads.headD .full).Succeeds := by
    cases next : c.reads.headD .full with
    | full | upTo limit => trivial
    | fails errno =>
      rw [Conn.read, next] at read
      cases read
  rw [c.read_succeeds n succeeds] at read
  simp only [Prod.mk.injEq, ReadResult.got.injEq] at read
  obtain ⟨taken, rfl⟩ := read
  have got := Transfer.length_bytes (c.reads.headD .full) (c.incoming.take n)
  have least := Transfer.count_le (c.reads.headD .full) (c.incoming.take n).length
  simp only [List.length_take] at got least
  rw [taken] at got
  refine ⟨?_, rfl⟩
  simp only [Conn.effort, List.length_drop, List.length_tail, taken]
  omega

theorem Conn.read_effort_le (c : Conn) (n : Nat) : (c.read n).2.effort ≤ c.effort := by
  rcases read : c.read n with ⟨_ | bytes, d⟩
  · exact (Conn.read_failed read).le
  · exact (Nat.le_add_right _ _).trans (Conn.read_got read).1

theorem connMachine_returns (op : SysOp) (c : Conn) : (connMachine op c).isSome := by
  cases op <;> rfl

theorem connMachine_effort_le {op : SysOp} {c d : Conn} {result : op.Res} (executed : connMachine op c = some (result, d)) :
    d.effort ≤ c.effort := by
  cases op with
  | read fd n =>
    obtain rfl : (c.read n).2 = d := congrArg Prod.snd (Option.some.inj executed)
    exact c.read_effort_le n
  | write fd bytes =>
    obtain rfl : (c.write bytes).2 = d := congrArg Prod.snd (Option.some.inj executed)
    rw [Conn.write_state]
    exact le_rfl
  | getErrno | setErrno value | poke allocated index =>
    cases executed
    exact le_rfl

theorem run_effort_le {α : Type} {program : SysProgram α} {value : α} {c d : Conn}
    (ran : program.run connMachine c = some (value, d)) : d.effort ≤ c.effort := by
  refine Program.run_keeps (I := fun e => e.effort ≤ c.effort) ?_ ran le_rfl
  exact fun _ _ _ _ executed below => (connMachine_effort_le executed).trans below

/-- A receive that succeeds has taken a header, or a planned failure, or EINTR from `errno`. -/
theorem protoRecvPacket_effort {pkt : MzwPacket} {datap : Payload} {c d : Conn} {answer : Int × MzwPacket × Payload}
    (ran : (protoRecvPacket fd pkt datap).run connMachine c = some (answer, d)) :
    d.effort + d.stale ≤ c.effort + c.stale ∧ (answer.1 = 0 → d.effort + d.stale < c.effort + c.stale) := by
  rcases read : c.read MzwPacket.sizeOf with ⟨header, e⟩
  by_cases whole : header.count = (MzwPacket.sizeOf : Int)
  · have taken : e.effort + MzwPacket.sizeOf ≤ c.effort := by
      cases header with
      | failed => exact absurd whole (by decide)
      | got bytes =>
        have length : bytes.length = MzwPacket.sizeOf := Int.ofNat_inj.mp whole
        exact length ▸ (Conn.read_got read).1
    have later : d.effort ≤ e.effort := by
      rw [protoRecvPacket, Program.perform_bind, Program.run_call] at ran
      obtain ⟨⟨_, _⟩, executed, ran⟩ := Option.bind_eq_some_iff.mp ran
      obtain ⟨rfl, rfl⟩ := Prod.mk.inj ((Option.some.inj executed).symm.trans read)
      exact run_effort_le ran
    have stale := d.stale_le
    rw [MzwPacket.sizeOf] at taken
    omega
  · rw [protoRecvPacket_without_header fd pkt datap read whole] at ran
    by_cases interrupted : e.errno = eintr
    · rw [if_pos interrupted] at ran
      cases ran
      have cleared : ({ e with errno := 0 } : Conn).stale = 0 := rfl
      have less : e.effort < c.effort + c.stale := by
        cases header with
        | failed => exact Nat.lt_add_right _ (Conn.read_failed read)
        | got bytes =>
          -- The read has not failed, so `errno` is from before.
          obtain ⟨fewer, same⟩ := Conn.read_got read
          rw [Conn.stale, if_pos (same ▸ interrupted)]
          omega
      rw [cleared]
      exact ⟨less.le, fun _ => less⟩
    · rw [if_neg interrupted] at ran
      cases ran
      have calm : d.stale = 0 := if_neg interrupted
      have kept := c.read_effort_le MzwPacket.sizeOf
      rw [read] at kept
      rw [calm]
      exact ⟨Nat.le_add_right_of_le kept, fun received => absurd received (show ¬ (-1 : Int) = 0 by decide)⟩

/-! ### The thread among functions of any kind -/

/-- The pointer that the call hands on, if any, is to a payload that was received. -/
def ServiceOp.Handed : ServiceOp → Prop
  | .playerLogin _ _ name => ∃ bytes, name = .buffer bytes
  | .playerSendChat _ msg _ => ∃ bytes, msg = .buffer bytes
  | _ => True

def ServiceOp.Receives : ServiceOp → Prop
  | .protoRecvPacket _ _ _ => True
  | _ => False

section Surroundings
variable {room : Nat → Int → Prop} [∀ allocated index, Decidable (room allocated index)] {conn : σ → Conn}
  {interrupts : σ → Nat}

/-- What the service thread runs among. A receive is `proto_recv_packet` on the connection, as far as there
is room for its stores. The other operations, the players' and those of the library, may do and answer
anything: they take nothing from the connection, leave EINTR in `errno` so often at most as is counted, and
return unless a pointer that they are handed is to no payload. That holds of `show_maze`, too, as long as
what it reads behind its rows does no harm. -/
structure Surroundings (room : Nat → Int → Prop) [∀ allocated index, Decidable (room allocated index)]
    (exec : Machine ServiceOp ServiceOp.Res σ) (conn : σ → Conn) (interrupts : σ → Nat) : Prop where
  receive : ∀ fd pkt datap s answer t, exec (.protoRecvPacket fd pkt datap) s = some (answer, t) →
    ∃ d, (protoRecvPacket fd pkt datap).run (storeMachine room) (conn s) = some (answer, d) ∧
      (conn t).effort ≤ d.effort ∧ interrupts t + (conn t).stale ≤ interrupts s + d.stale
  received : ∀ fd pkt datap s, exec (.protoRecvPacket fd pkt datap) s = none →
    (protoRecvPacket fd pkt datap).run (storeMachine room) (conn s) = none
  others : ∀ op s result t, ¬ op.Receives → exec op s = some (result, t) →
    (conn t).effort ≤ (conn s).effort ∧ interrupts t + (conn t).stale ≤ interrupts s + (conn s).stale
  returns : ∀ op s, ¬ op.Receives → op.Handed → (exec op s).isSome

namespace Surroundings

/-- The bytes that the client has sent, the transfers planned and the interruptions to come. -/
def left (conn : σ → Conn) (interrupts : σ → Nat) (s : σ) : Nat :=
  (conn s).effort + (interrupts s + (conn s).stale)

theorem draining (around : Surroundings room exec conn interrupts) : Draining exec (left conn interrupts) := by
  have receive {fd pkt datap s answer t} (executed : exec (.protoRecvPacket fd pkt datap) s = some (answer, t)) :
      left conn interrupts t ≤ left conn interrupts s ∧
        (answer.1 = 0 → left conn interrupts t < left conn interrupts s) := by
    obtain ⟨d, ran, kept, fewer⟩ := around.receive fd pkt datap s answer t executed
    have spent := protoRecvPacket_effort (Program.run_restrict.mp ran).1
    unfold left
    omega
  constructor
  · intro op s result t executed
    cases op with
    | protoRecvPacket fd pkt datap => exact (receive executed).1
    | _ =>
      obtain ⟨kept, fewer⟩ := around.others _ s result t id executed
      exact Nat.add_le_add kept fewer
  · intro op s result t executed received
    cases op with
    | protoRecvPacket fd pkt datap => exact (receive executed).2 (of_decide_eq_true received)
    | _ => cases received

/-- An operation that does not return makes a store that there is no room for, or was handed a bad pointer. -/
theorem refuses (around : Surroundings room exec conn interrupts) {op : ServiceOp} {u : σ} (refused : exec op u = none) :
    (∃ fd pkt datap allocated index, op = .protoRecvPacket fd pkt datap ∧ ¬ room allocated index ∧
      .poke allocated index ∈ (protoRecvPacket fd pkt datap).trace connMachine (conn u)) ∨ ¬ op.Handed := by
  cases op with
  | protoRecvPacket fd pkt datap =>
    have returns := Program.run_isSome connMachine connMachine_returns (protoRecvPacket fd pkt datap) (conn u)
    obtain ⟨store, made, outside⟩ := Program.run_restrict_none returns (around.received fd pkt datap u refused)
    cases store with
    | poke allocated index => exact .inl ⟨fd, pkt, datap, allocated, index, rfl, outside, made⟩
    | read fd n | write fd bytes | getErrno | setErrno value => exact absurd trivial outside
  | _ =>
    refine .inr fun handed => ?_
    have returned := around.returns _ u id handed
    rw [refused] at returned
    cases returned

end Surroundings

/-- Whatever a client has sent, however it arrives and whatever the other functions do: the thread ends, and
it has made the calls of a complete session, with at most as many receives that succeed as there are bytes,
planned transfers and interruptions left. Or it breaks off, in a receive that makes a store that there is no
room for, or in a call that is handed a pointer to no payload. -/
theorem service_completes (around : Surroundings room exec conn interrupts) (fd : Int) (s : σ) {fuel : Nat}
    (enough : Surroundings.left conn interrupts s < fuel) :
    (∃ t log, (mzwClientService fd fuel).run exec s = some (true, t) ∧
      log.map Sigma.fst = (mzwClientService fd fuel).trace exec s ∧ Session fd (rounds log) true (calls log) ∧
      rounds log ≤ Surroundings.left conn interrupts s) ∨
    ∃ last u, (mzwClientService fd fuel).stuckAt exec s = some (last, u) ∧
      ((∃ fd pkt datap allocated index, last = .protoRecvPacket fd pkt datap ∧ ¬ room allocated index ∧
        .poke allocated index ∈ (protoRecvPacket fd pkt datap).trace connMachine (conn u)) ∨ ¬ last.Handed) := by
  cases ran : (mzwClientService fd fuel).run exec s with
  | some answer =>
    obtain ⟨ended, t⟩ := answer
    obtain ⟨rfl, log, made, session, fewer⟩ := around.draining.service_ends ran enough
    exact .inl ⟨t, log, rfl, made, session, fewer⟩
  | none =>
    obtain ⟨last, u, stuck⟩ := Program.run_eq_none_iff.mp ran
    exact .inr ⟨last, u, stuck, around.refuses (Program.stuckAt_refused stuck)⟩

end Surroundings

end Machines

/-! ### A world where all functions return -/

namespace World

/-- The connection as the next receive finds it. -/
def facing (w : World) : Conn := { w.conn with errno := w.errnos.headD 0 }

def interrupts (w : World) : Nat := w.errnos.tail.count eintr

theorem interrupts_next (errnos : List Int) :
    errnos.tail.count eintr + (if errnos.headD 0 = eintr then 1 else 0) = errnos.count eintr := by
  cases errnos with
  | nil => rfl
  | cons errno later => simp [List.count_cons]

theorem returns (op : ServiceOp) (w : World) : (World.exec op w).isSome := by
  cases op with
  | protoRecvPacket fd pkt datap =>
    rw [World.exec, receive, Option.isSome_map]
    exact Program.run_isSome _ connMachine_returns _ _
  | protoSendPacket fd pkt =>
    rw [World.exec, send, Option.isSome_map]
    exact Program.run_isSome _ connMachine_returns _ _
  | _ => rfl

theorem surroundings : Surroundings (fun _ _ => True) World.exec facing interrupts where
  receive fd pkt datap w answer t executed := by
    obtain ⟨⟨received, d⟩, ran, same⟩ := Option.map_eq_some_iff.mp executed
    cases same
    refine ⟨d, Program.run_restrict.mpr ⟨ran, fun op _ => by cases op <;> trivial⟩, le_rfl, ?_⟩
    exact (interrupts_next w.errnos.tail).le.trans (Nat.le_add_right _ _)
  received fd pkt datap w refused := by
    have returned := World.returns (.protoRecvPacket fd pkt datap) w
    rw [refused] at returned
    cases returned
  others op w result t other executed := by
    cases op with
    | protoRecvPacket fd pkt datap => exact absurd trivial other
    | protoSendPacket fd pkt =>
      obtain ⟨⟨answer, d⟩, ran, same⟩ := Option.map_eq_some_iff.mp executed
      cases same
      have kept : d.effort ≤ w.conn.effort := run_effort_le ran
      exact ⟨kept, le_rfl⟩
    | _ =>
      cases executed
      exact ⟨le_rfl, le_rfl⟩
  returns op w _ _ := World.returns op w

end World

/-- Part of a LOGIN, in two pieces with an interruption between them, and EINTR left over. -/
def brokenOff : World := .start ⟨[1, 65, 0, 0], [.upTo 3, .fails eintr, .full], [eintr]⟩ [some 2] zeroed

theorem service_completes_brokenOff : ∃ t log, (mzwClientService 4 9).run World.exec brokenOff = some (true, t) ∧
    log.map Sigma.fst = (mzwClientService 4 9).trace World.exec brokenOff ∧
    Session 4 (rounds log) true (calls log) ∧ rounds log ≤ 8 := by
  rcases service_completes World.surroundings 4 brokenOff (show 8 < 9 by decide) with completes | ⟨last, u, stuck, _⟩
  · exact completes
  · have returned := World.returns last u
    rw [Program.stuckAt_refused stuck] at returned
    cases returned

end MazeWar
