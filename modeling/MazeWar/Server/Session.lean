import MazeWar.Server.Model

/-!
# The session protocol

Every run of the service thread, whatever the functions it calls return, makes its calls in
the order of a session: until a login succeeds only LOGIN packets are honoured, afterwards
only the player's requests.
-/

namespace MazeWar
open Foundation

abbrev Event := (op : ServiceOp) × op.Res

/-- All but the management of memory and the debugging output. -/
def ServiceOp.observed : ServiceOp → Bool
  | .free _ | .mallocPacket | .mallocDatap | .mallocPlayer | .showMaze => false
  | _ => true

def calls (log : List Event) : List Event := log.filter fun event => event.1.observed

@[simp] theorem calls_append (first second : List Event) : calls (first ++ second) = calls first ++ calls second :=
  List.filter_append ..

def requests (player : PlayerPtr) (pkt : MzwPacket) (datap : Payload) : List ServiceOp :=
  if pkt.type = MzwPacketType.movePkt.code then [.playerMove player pkt.param1.toInt]
  else if pkt.type = MzwPacketType.turnPkt.code then [.playerRotate player pkt.param1.toInt]
  else if pkt.type = MzwPacketType.firePkt.code then [.playerFireLaser player]
  else if pkt.type = MzwPacketType.refreshPkt.code then [.playerInvalidateView player, .playerUpdateView player]
  else if pkt.type = MzwPacketType.sendPkt.code then [.playerSendChat player datap pkt.size.toNat]
  else []

def MzwPacket.isAction (pkt : MzwPacket) : Prop :=
  pkt.type ∈ [MzwPacketType.movePkt, .turnPkt, .firePkt, .refreshPkt, .sendPkt].map MzwPacketType.code

def Exit (fd : Int) (ended : Bool) (log : List Event) : Prop :=
  log.map Sigma.fst = if ended then [.cregUnregister fd, .close fd] else []

/-- The calls of a thread whose player is logged in, from one receive to the end, or through so
many receives that succeed. -/
inductive Playing (fd : Int) (player : PlayerPtr) : Nat → Bool → List Event → Prop
  | running : Playing fd player 0 false []
  | left {pkt datap answer exit} (failed : answer.1 ≠ 0) (leaving : Exit fd true exit) :
      Playing fd player 0 true
        (⟨.playerCheckForLaserHit player, ()⟩ :: ⟨.protoRecvPacket fd pkt datap, answer⟩ ::
          ⟨.playerLogout player, ()⟩ :: exit)
  | round {pkt datap answer acts rounds ended rest} (received : answer.1 = 0)
      (honoured : acts.map Sigma.fst = requests player answer.2.1 answer.2.2)
      (later : Playing fd player rounds ended rest) :
      Playing fd player (rounds + 1) ended
        (⟨.playerCheckForLaserHit player, ()⟩ :: ⟨.protoRecvPacket fd pkt datap, answer⟩ :: (acts ++ rest))

def placement (player : PlayerPtr) (sent : Int) : List Event :=
  if sent ≠ -1 then [⟨.playerReset player, ()⟩] else []

/-- The calls of a thread without a player. -/
inductive Waiting (fd : Int) : Nat → Bool → List Event → Prop
  | running : Waiting fd 0 false []
  | left {pkt datap answer exit} (failed : answer.1 ≠ 0) (leaving : Exit fd true exit) :
      Waiting fd 0 true (⟨.protoRecvPacket fd pkt datap, answer⟩ :: exit)
  | ignored {pkt datap answer rounds ended rest} (received : answer.1 = 0)
      (other : answer.2.1.type ≠ MzwPacketType.loginPkt.code) (later : Waiting fd rounds ended rest) :
      Waiting fd (rounds + 1) ended (⟨.protoRecvPacket fd pkt datap, answer⟩ :: rest)
  | refused {pkt datap answer reply sent rounds ended rest} (received : answer.1 = 0)
      (login : answer.2.1.type = MzwPacketType.loginPkt.code) (inuse : reply.type = MzwPacketType.inusePkt.code)
      (later : Waiting fd rounds ended rest) :
      Waiting fd (rounds + 1) ended
        (⟨.protoRecvPacket fd pkt datap, answer⟩ ::
          ⟨.playerLogin fd answer.2.1.param1.toUInt8 answer.2.2, none⟩ ::
          ⟨.protoSendPacket fd reply, sent⟩ :: rest)
  | accepted {pkt datap answer player reply sent rounds ended rest} (received : answer.1 = 0)
      (login : answer.2.1.type = MzwPacketType.loginPkt.code) (ready : reply.type = MzwPacketType.readyPkt.code)
      (later : Playing fd (some player) rounds ended rest) :
      Waiting fd (rounds + 1) ended
        (⟨.protoRecvPacket fd pkt datap, answer⟩ ::
          ⟨.playerLogin fd answer.2.1.param1.toUInt8 answer.2.2, some player⟩ ::
          ⟨.protoSendPacket fd reply, sent⟩ :: (placement (some player) sent ++ rest))

def Session (fd : Int) (rounds : Nat) (ended : Bool) (log : List Event) : Prop :=
  ∃ rest, log = ⟨.cregRegister fd, ()⟩ :: rest ∧ Waiting fd rounds ended rest

/-- The loop gives up only after as many receives as it has fuel for. -/
def Within (fuel rounds : Nat) (ended : Bool) : Prop := if ended then rounds < fuel else rounds = fuel

/-! ### One round -/

theorem serviceDispatch_playing {fd : Int} {st next : ServiceState} {log : List Event} (inside : st.logedIn = 0)
    (emitted : (serviceDispatch fd st).Emits log next) :
    next = st ∧ log.map Sigma.fst = requests st.newPlayer st.pkt st.datap ∧ calls log = log := by
  unfold serviceDispatch at emitted
  unfold requests
  simp only [inside, show ((0 : Int) = -1) = False by decide, and_false, and_true, if_false] at emitted
  split_ifs at emitted ⊢ with move turn fire refresh chat <;>
    simp only [Program.perform_bind, Program.emits_call, Program.emits_pure] at emitted
  · obtain ⟨result, _, rfl, rfl, rfl⟩ := emitted
    exact ⟨rfl, rfl, rfl⟩
  · obtain ⟨_, _, rfl, rfl, rfl⟩ := emitted
    exact ⟨rfl, rfl, rfl⟩
  · obtain ⟨_, _, rfl, rfl, rfl⟩ := emitted
    exact ⟨rfl, rfl, rfl⟩
  · obtain ⟨_, _, rfl, _, _, rfl, rfl, rfl⟩ := emitted
    exact ⟨rfl, rfl, rfl⟩
  · obtain ⟨_, _, rfl, rfl, rfl⟩ := emitted
    exact ⟨rfl, rfl, rfl⟩
  · obtain ⟨rfl, rfl⟩ := emitted
    exact ⟨rfl, rfl, rfl⟩

theorem serviceLogin_calls {fd : Int} {st next : ServiceState} {log : List Event}
    (emitted : (serviceLogin fd st).Emits log next) :
    (∃ reply sent, reply.type = MzwPacketType.inusePkt.code ∧ next = { st with newPlayer := none } ∧
      calls log = [⟨.playerLogin fd st.pkt.param1.toUInt8 st.datap, none⟩, ⟨.protoSendPacket fd reply, sent⟩]) ∨
    ∃ player reply sent, reply.type = MzwPacketType.readyPkt.code ∧
      next = { st with newPlayer := some player, logedIn := 0 } ∧
      calls log = ⟨.playerLogin fd st.pkt.param1.toUInt8 st.datap, some player⟩ ::
        ⟨.protoSendPacket fd reply, sent⟩ :: placement (some player) sent := by
  simp only [serviceLogin, Program.perform_bind, Program.emits_call] at emitted
  obtain ⟨login, _, rfl, emitted⟩ := emitted
  cases login with
  | none =>
    simp only [ne_eq, not_true_eq_false, if_false, Program.emits_call, Program.emits_pure] at emitted
    obtain ⟨block, _, rfl, sent, _, rfl, _, _, rfl, rfl, rfl⟩ := emitted
    exact .inl ⟨_, sent, rfl, rfl, rfl⟩
  | some player =>
    simp only [ne_eq, reduceCtorEq, not_false_eq_true, if_true, Program.emits_call] at emitted
    obtain ⟨block, _, rfl, sent, _, rfl, emitted⟩ := emitted
    refine .inr ⟨player, { block with type := MzwPacketType.readyPkt.code }, sent, rfl, ?_⟩
    by_cases failed : sent = -1
    · simp only [failed, not_true_eq_false, if_false, Program.emits_call, Program.emits_pure] at emitted
      obtain ⟨_, _, rfl, rfl, rfl⟩ := emitted
      exact ⟨rfl, by rw [failed]; rfl⟩
    · simp only [failed, not_false_eq_true, if_true, Program.emits_call, Program.emits_pure] at emitted
      obtain ⟨_, _, rfl, _, _, rfl, rfl, rfl⟩ := emitted
      exact ⟨rfl, by rw [placement, if_pos failed]; rfl⟩

theorem serviceDispatch_waiting {fd : Int} {st next : ServiceState} {log : List Event} (outside : st.logedIn = -1)
    (emitted : (serviceDispatch fd st).Emits log next) :
    (st.pkt.type ≠ MzwPacketType.loginPkt.code ∧ log = [] ∧ next = st) ∨
    (st.pkt.type = MzwPacketType.loginPkt.code ∧ (serviceLogin fd st).Emits log next) := by
  unfold serviceDispatch at emitted
  simp only [outside, show ((-1 : Int) = 0) = False by decide, and_false, and_true, if_false] at emitted
  split_ifs at emitted with login
  · exact .inr ⟨login, emitted⟩
  · exact .inl ⟨login, emitted.1, emitted.2.symm⟩

theorem serviceRound_playing {fd : Int} {st : ServiceState} {next : Option ServiceState} {log : List Event}
    (inside : st.logedIn = 0) (emitted : (serviceRound fd st).Emits log next) :
    ∃ answer : Int × MzwPacket × Payload,
      (answer.1 ≠ 0 ∧ next = none ∧ calls log = [⟨.playerCheckForLaserHit st.newPlayer, ()⟩,
        ⟨.protoRecvPacket fd st.pkt st.datap, answer⟩, ⟨.playerLogout st.newPlayer, ()⟩]) ∨
      (answer.1 = 0 ∧ next = some { st with pkt := answer.2.1, datap := answer.2.2 } ∧
        ∃ acts, acts.map Sigma.fst = requests st.newPlayer answer.2.1 answer.2.2 ∧
          calls log = ⟨.playerCheckForLaserHit st.newPlayer, ()⟩ ::
            ⟨.protoRecvPacket fd st.pkt st.datap, answer⟩ :: acts) := by
  obtain ⟨held, pointer, logedIn, newPlayer⟩ := st
  obtain rfl : logedIn = 0 := inside
  simp only [serviceRound, show ((0 : Int) ≠ -1) = True by decide, if_true, Program.perform_bind,
    Program.emits_call] at emitted
  obtain ⟨_, _, rfl, answer, _, rfl, emitted⟩ := emitted
  refine ⟨answer, ?_⟩
  by_cases received : answer.1 = 0
  · simp only [received, ne_eq, not_true_eq_false, if_false, Program.emits_bind, Program.emits_call,
      Program.emits_pure] at emitted
    obtain ⟨acts, after, _, rfl, acted, _, _, rfl, rfl, rfl⟩ := emitted
    obtain ⟨rfl, honoured, kept⟩ := serviceDispatch_playing rfl acted
    refine .inr ⟨received, rfl, acts, honoured, ?_⟩
    change _ :: _ :: calls (acts ++ [_]) = _
    rw [calls_append, kept]
    exact congrArg _ (congrArg _ (List.append_nil acts))
  · simp only [received, ne_eq, not_false_eq_true, if_true, Program.emits_call, Program.emits_pure] at emitted
    obtain ⟨_, _, rfl, rfl, rfl⟩ := emitted
    exact .inl ⟨received, rfl, rfl⟩

theorem serviceRound_waiting {fd : Int} {st : ServiceState} {next : Option ServiceState} {log : List Event}
    (outside : st.logedIn = -1) (emitted : (serviceRound fd st).Emits log next) :
    ∃ answer : Int × MzwPacket × Payload,
      (answer.1 ≠ 0 ∧ next = none ∧ calls log = [⟨.protoRecvPacket fd st.pkt st.datap, answer⟩]) ∨
      (answer.1 = 0 ∧ ∃ acts dispatched, next = some dispatched ∧
        calls log = ⟨.protoRecvPacket fd st.pkt st.datap, answer⟩ :: calls acts ∧
        (serviceDispatch fd { st with pkt := answer.2.1, datap := answer.2.2 }).Emits acts dispatched) := by
  obtain ⟨held, pointer, logedIn, newPlayer⟩ := st
  obtain rfl : logedIn = -1 := outside
  simp only [serviceRound, ne_eq, not_true_eq_false, if_false, Program.perform_bind,
    Program.emits_call] at emitted
  obtain ⟨answer, _, rfl, emitted⟩ := emitted
  refine ⟨answer, ?_⟩
  by_cases received : answer.1 = 0
  · simp only [received, not_true_eq_false, if_false, Program.emits_bind, Program.emits_call,
      Program.emits_pure] at emitted
    obtain ⟨acts, dispatched, _, rfl, acted, _, _, rfl, rfl, rfl⟩ := emitted
    refine .inr ⟨received, acts, dispatched, rfl, ?_, acted⟩
    change _ :: calls (acts ++ [_]) = _
    rw [calls_append]
    exact congrArg _ (List.append_nil (calls acts))
  · simp only [received, not_false_eq_true, if_true, show ((-1 : Int) = 0) = False by decide, if_false,
      Program.emits_call, Program.emits_pure] at emitted
    obtain ⟨_, _, rfl, rfl, rfl⟩ := emitted
    exact .inl ⟨received, rfl, rfl⟩

/-! ### The loop -/

theorem Within.succ {fuel rounds : Nat} {ended : Bool} (within : Within fuel rounds ended) :
    Within (fuel + 1) (rounds + 1) ended := by
  cases ended with
  | true => exact Nat.succ_lt_succ within
  | false => exact congrArg Nat.succ within

theorem serviceLoop_playing {fd : Int} {fuel : Nat} {st : ServiceState} {log exit : List Event} {ended : Bool}
    (inside : st.logedIn = 0) (emitted : (serviceLoop fd fuel st).Emits log ended) (leaving : Exit fd ended exit) :
    ∃ rounds, Within fuel rounds ended ∧ Playing fd st.newPlayer rounds ended (calls log ++ exit) := by
  induction fuel generalizing st log with
  | zero =>
    obtain ⟨rfl, rfl⟩ := emitted
    obtain rfl : exit = [] := List.map_eq_nil_iff.mp leaving
    exact ⟨0, rfl, .running⟩
  | succ fuel ih =>
    simp only [serviceLoop, Program.emits_bind] at emitted
    obtain ⟨before, next, after, rfl, round, rest⟩ := emitted
    obtain ⟨answer, ⟨failed, rfl, made⟩ | ⟨received, rfl, acts, honoured, made⟩⟩ :=
      serviceRound_playing inside round
    · obtain ⟨rfl, rfl⟩ := rest
      rw [List.append_nil, made]
      exact ⟨0, Nat.succ_pos fuel, .left failed leaving⟩
    · have looped : (serviceLoop fd fuel _).Emits after ended := rest
      obtain ⟨rounds, within, later⟩ := ih (by exact inside) looped
      rw [calls_append, made, List.append_assoc, List.cons_append, List.cons_append]
      exact ⟨_, within.succ, .round received honoured later⟩

theorem serviceLoop_waiting {fd : Int} {fuel : Nat} {st : ServiceState} {log exit : List Event} {ended : Bool}
    (outside : st.logedIn = -1) (emitted : (serviceLoop fd fuel st).Emits log ended) (leaving : Exit fd ended exit) :
    ∃ rounds, Within fuel rounds ended ∧ Waiting fd rounds ended (calls log ++ exit) := by
  induction fuel generalizing st log with
  | zero =>
    obtain ⟨rfl, rfl⟩ := emitted
    obtain rfl : exit = [] := List.map_eq_nil_iff.mp leaving
    exact ⟨0, rfl, .running⟩
  | succ fuel ih =>
    simp only [serviceLoop, Program.emits_bind] at emitted
    obtain ⟨before, next, after, rfl, round, rest⟩ := emitted
    obtain ⟨answer, ⟨failed, rfl, made⟩ | ⟨received, acts, dispatched, rfl, made, acted⟩⟩ :=
      serviceRound_waiting outside round
    · obtain ⟨rfl, rfl⟩ := rest
      rw [List.append_nil, made]
      exact ⟨0, Nat.succ_pos fuel, .left failed leaving⟩
    · have looped : (serviceLoop fd fuel dispatched).Emits after ended := rest
      rw [calls_append, made, List.append_assoc, List.cons_append]
      obtain ⟨other, rfl, rfl⟩ | ⟨login, logged⟩ := serviceDispatch_waiting (by exact outside) acted
      · obtain ⟨rounds, within, later⟩ := ih (by exact outside) looped
        exact ⟨_, within.succ, .ignored received other later⟩
      · obtain ⟨reply, sent, inuse, rfl, said⟩ | ⟨player, reply, sent, ready, rfl, said⟩ := serviceLogin_calls logged
        · obtain ⟨rounds, within, later⟩ := ih (by exact outside) looped
          rw [said]
          exact ⟨_, within.succ, .refused received login inuse later⟩
        -- From here on no login is honoured.
        · obtain ⟨rounds, within, later⟩ := serviceLoop_playing rfl looped leaving
          rw [said, List.cons_append, List.cons_append]
          exact ⟨_, within.succ, .accepted received login ready later⟩

theorem mzwClientService_session {fd : Int} {fuel : Nat} {log : List Event} {ended : Bool}
    (emitted : (mzwClientService fd fuel).Emits log ended) :
    ∃ rounds, Within fuel rounds ended ∧ Session fd rounds ended (calls log) := by
  simp only [mzwClientService, Program.perform_bind, Program.emits_call, Program.emits_bind] at emitted
  obtain ⟨_, _, rfl, _, _, rfl, pkt, _, rfl, datap, _, rfl, player, _, rfl, before, value, after, rfl, looped, rest⟩ :=
    emitted
  have session : ∀ rounds, Waiting fd rounds ended (calls before ++ calls after) →
      Session fd rounds ended (⟨.cregRegister fd, ()⟩ :: calls (before ++ after)) :=
    fun rounds waiting => ⟨_, rfl, by rwa [calls_append]⟩
  cases value with
  | false =>
    obtain ⟨rfl, rfl⟩ := rest
    have leaving : Exit fd false [] := rfl
    obtain ⟨rounds, within, waiting⟩ := serviceLoop_waiting rfl looped leaving
    exact ⟨rounds, within, session rounds waiting⟩
  | true =>
    simp only [if_true, Program.emits_call, Program.emits_pure] at rest
    obtain ⟨_, _, rfl, closed, _, rfl, _, _, rfl, _, _, rfl, rfl, rfl⟩ := rest
    have leaving : Exit fd true [⟨.cregUnregister fd, ()⟩, ⟨.close fd, closed⟩] := rfl
    obtain ⟨rounds, within, waiting⟩ := serviceLoop_waiting rfl looped leaving
    exact ⟨rounds, within, session rounds waiting⟩

/-! ### Logging in and out -/

def ServiceOp.plays : ServiceOp → Option PlayerPtr
  | .playerMove player _ | .playerRotate player _ | .playerFireLaser player | .playerInvalidateView player
  | .playerUpdateView player | .playerSendChat player _ _ => some player
  | _ => none

theorem requests_play {player : PlayerPtr} {pkt : MzwPacket} {datap : Payload} {acts : List Event}
    (honoured : acts.map Sigma.fst = requests player pkt datap) : ∀ event ∈ acts, event.1.plays = some player := by
  intro event present
  have listed : event.1 ∈ requests player pkt datap := honoured ▸ List.mem_map_of_mem present
  unfold requests at listed
  split_ifs at listed <;> simp only [List.mem_cons, List.not_mem_nil, or_false] at listed
  · rw [listed]; rfl
  · rw [listed]; rfl
  · rw [listed]; rfl
  · rcases listed with listed | listed <;> rw [listed] <;> rfl
  · rw [listed]; rfl

def loggedIn : Event → Option PlayerPtr
  | ⟨.playerLogin _ _ _, some player⟩ => some (some player)
  | _ => none

def loggedOut : Event → Option PlayerPtr
  | ⟨.playerLogout player, _⟩ => some player
  | _ => none

theorem no_login_of_plays {acts : List Event} {player : PlayerPtr}
    (playing : ∀ event ∈ acts, event.1.plays = some player) :
    acts.filterMap loggedIn = [] ∧ acts.filterMap loggedOut = [] := by
  constructor <;> rw [List.filterMap_eq_nil_iff] <;> intro ⟨op, result⟩ present <;>
    cases op <;> first | rfl | exact absurd (playing _ present) (by simp [ServiceOp.plays])

theorem no_login_of_exit {fd : Int} {ended : Bool} {exit : List Event} (leaving : Exit fd ended exit) :
    exit.filterMap loggedIn = [] ∧ exit.filterMap loggedOut = [] := by
  constructor <;> rw [List.filterMap_eq_nil_iff] <;> intro ⟨op, result⟩ present <;>
    have listed : op ∈ exit.map Sigma.fst := List.mem_map_of_mem present <;>
    rw [leaving] at listed <;> cases ended <;> simp at listed <;>
    rcases listed with rfl | rfl <;> rfl

theorem Playing.logins {fd : Int} {player : PlayerPtr} {rounds : Nat} {ended : Bool} {log : List Event}
    (playing : Playing fd player rounds ended log) :
    log.filterMap loggedIn = [] ∧ log.filterMap loggedOut = if ended then [player] else [] := by
  induction playing with
  | running => exact ⟨rfl, rfl⟩
  | left failed leaving =>
    obtain ⟨noLogin, noLogout⟩ := no_login_of_exit leaving
    exact ⟨noLogin, congrArg (List.cons player) noLogout⟩
  | round received honoured later ih =>
    obtain ⟨noLogin, noLogout⟩ := no_login_of_plays (requests_play honoured)
    simp [List.filterMap_cons, loggedIn, loggedOut, noLogin, noLogout, ih]

theorem Waiting.logins {fd : Int} {rounds : Nat} {log : List Event} (waiting : Waiting fd rounds true log) :
    log.filterMap loggedOut = log.filterMap loggedIn ∧ (log.filterMap loggedIn).length ≤ 1 := by
  generalize complete : true = ended at waiting
  induction waiting with
  | running => cases complete
  | left failed leaving =>
    obtain ⟨noLogin, noLogout⟩ := no_login_of_exit leaving
    simp [List.filterMap_cons, loggedIn, loggedOut, noLogin, noLogout]
  | ignored received other later ih => simpa [List.filterMap_cons, loggedIn, loggedOut] using ih complete
  | refused received login inuse later ih => simpa [List.filterMap_cons, loggedIn, loggedOut] using ih complete
  | @accepted pkt datap answer player reply sent rounds ended rest received login ready later =>
    have placed : (placement (some player) sent).filterMap loggedIn = [] ∧
        (placement (some player) sent).filterMap loggedOut = [] := by
      unfold placement
      split_ifs <;> exact ⟨rfl, rfl⟩
    obtain ⟨noLogin, logout⟩ := later.logins
    rw [← complete, if_pos rfl] at logout
    simp [List.filterMap_cons, loggedIn, loggedOut, placed, noLogin, logout]

/-- Whatever the calls return, they form a session, complete unless the fuel has been spent on
receives that succeed, and only a player that was logged in is logged out, once. -/
theorem session_protocol (fd : Int) (fuel : Nat) (log : List Event) (ended : Bool)
    (emitted : (mzwClientService fd fuel).Emits log ended) :
    ∃ rounds, Within fuel rounds ended ∧ Session fd rounds ended (calls log) ∧
      (ended = true → (calls log).filterMap loggedOut = (calls log).filterMap loggedIn ∧
        ((calls log).filterMap loggedIn).length ≤ 1) := by
  obtain ⟨rounds, within, rest, made, waiting⟩ := mzwClientService_session emitted
  refine ⟨rounds, within, ⟨rest, made, waiting⟩, ?_⟩
  rintro rfl
  rw [made]
  exact waiting.logins

/-- A LOGIN that succeeds, followed by the end of the connection. -/
def loginSession : List Event :=
  let blank : MzwPacket := ⟨0, 0, 0, 0, 0, (0, 0), 0, 0⟩
  let login : MzwPacket := ⟨1, 65, 0, 0, 0, (0, 0), 0, 0⟩
  let ready : MzwPacket := ⟨7, 0, 0, 0, 0, (0, 0), 0, 0⟩
  [⟨.free .arg, ()⟩, ⟨.cregRegister 4, ()⟩, ⟨.mallocPacket, blank⟩, ⟨.mallocDatap, .null⟩, ⟨.mallocPlayer, some 1⟩,
    ⟨.protoRecvPacket 4 blank .null, (0, login, .null)⟩, ⟨.playerLogin 4 65 .null, some 2⟩, ⟨.mallocPacket, blank⟩,
    ⟨.protoSendPacket 4 ready, 0⟩, ⟨.playerReset (some 2), ()⟩, ⟨.free .reply, ()⟩, ⟨.showMaze, ()⟩,
    ⟨.playerCheckForLaserHit (some 2), ()⟩, ⟨.protoRecvPacket 4 login .null, (-1, login, .null)⟩,
    ⟨.playerLogout (some 2), ()⟩, ⟨.cregUnregister 4, ()⟩, ⟨.close 4, 0⟩, ⟨.free .pkt, ()⟩, ⟨.free .datap, ()⟩]

theorem loginSession_emitted : (mzwClientService 4 2).Emits loginSession true := by
  repeat first | exact ⟨rfl, rfl⟩ | refine ⟨_, _, rfl, ?_⟩

theorem session_protocol_login :
    ∃ rounds, Within 2 rounds true ∧ Session 4 rounds true (calls loginSession) ∧
      (true = true → (calls loginSession).filterMap loggedOut = (calls loginSession).filterMap loggedIn ∧
        ((calls loginSession).filterMap loggedIn).length ≤ 1) :=
  session_protocol 4 2 loginSession true loginSession_emitted

end MazeWar
