import MazeWar.Server.Session

/-!
# Placement before play

A player gets a place in the maze from `player_reset`, which the service thread calls only
if the READY packet has been sent, while it honours the player's requests in either case.
-/

namespace MazeWar
open Foundation

/-- The player of an action that needs a place in the maze. -/
def ServiceOp.actsFor : ServiceOp → Option PlayerPtr
  | .playerMove player _ | .playerRotate player _ | .playerFireLaser player | .playerUpdateView player
  | .playerSendChat player _ _ => some player
  | _ => none

namespace ServiceOp
variable (player : PlayerPtr) (fd : Int) (pkt : MzwPacket) (datap : Payload)

@[simp] theorem actsFor_check : (playerCheckForLaserHit player).actsFor = none := rfl
@[simp] theorem actsFor_recv : (protoRecvPacket fd pkt datap).actsFor = none := rfl
@[simp] theorem actsFor_send : (protoSendPacket fd pkt).actsFor = none := rfl
@[simp] theorem actsFor_logout : (playerLogout player).actsFor = none := rfl
@[simp] theorem actsFor_reset : (playerReset player).actsFor = none := rfl
@[simp] theorem actsFor_login (avatar : UInt8) : (playerLogin fd avatar datap).actsFor = none := rfl
@[simp] theorem actsFor_register : (cregRegister fd).actsFor = none := rfl
@[simp] theorem actsFor_unregister : (cregUnregister fd).actsFor = none := rfl
@[simp] theorem actsFor_close : (close fd).actsFor = none := rfl

end ServiceOp

def ResetSinceLogin (player : PlayerPtr) (before : List Event) : Prop :=
  ∃ earlier fd avatar name later, before = earlier ++ ⟨.playerLogin fd avatar name, player⟩ :: later ∧
    ⟨.playerReset player, ()⟩ ∈ later

def PlacedFirst (log : List Event) : Prop :=
  ∀ before action after player, log = before ++ action :: after → action.1.actsFor = some player →
    ResetSinceLogin player before

def ActionReceived (event : Event) : Prop :=
  ∃ fd pkt datap answer, event = ⟨.protoRecvPacket fd pkt datap, answer⟩ ∧ answer.1 = 0 ∧ answer.2.1.isAction

def ReadyLost (event : Event) : Prop :=
  ∃ fd reply, event = ⟨.protoSendPacket fd reply, -1⟩ ∧ reply.type = MzwPacketType.readyPkt.code

/-- The READY packet could not be sent, and a packet that asks for an action has come since. -/
def PlayedUnplaced (log : List Event) : Prop :=
  ∃ before ready after, log = before ++ ready :: after ∧ ReadyLost ready ∧ ∃ event ∈ after, ActionReceived event

def Idle (event : Event) : Prop :=
  event.1.actsFor = none ∧ (∀ player, event.1 ≠ .playerReset player) ∧ ¬ ReadyLost event

theorem idle_of_ne {event : Event} (actless : event.1.actsFor = none) (resetless : ∀ player, event.1 ≠ .playerReset player)
    (sendless : ∀ fd reply, event.1 ≠ .protoSendPacket fd reply) : Idle event :=
  ⟨actless, resetless, fun ⟨fd, reply, equal, _⟩ => sendless fd reply (equal ▸ rfl)⟩

theorem requests_act (player : PlayerPtr) (pkt : MzwPacket) (datap : Payload) :
    (∃ op ∈ requests player pkt datap, op.actsFor = some player) ↔ pkt.isAction := by
  unfold requests MzwPacket.isAction
  split_ifs with move turn fire refresh chat <;> simp [ServiceOp.actsFor, *]

def Following (player : PlayerPtr) (event : Event) : Prop :=
  (∀ other, event.1 ≠ .playerReset other) ∧ (∀ fd reply, event.1 ≠ .protoSendPacket fd reply) ∧
    ∀ other, event.1.actsFor = some other → other = player

theorem following_of_plays {player : PlayerPtr} {event : Event} (plays : event.1.plays = some player) :
    Following player event ∧ ¬ ActionReceived event := by
  obtain ⟨op, result⟩ := event
  refine ⟨⟨?_, ?_, ?_⟩, ?_⟩
  · rintro other rfl
    exact absurd plays (by simp [ServiceOp.plays])
  · rintro fd reply rfl
    exact absurd plays (by simp [ServiceOp.plays])
  · intro other acts
    cases op <;> simp_all [ServiceOp.plays, ServiceOp.actsFor]
  · rintro ⟨fd, pkt, datap, answer, equal, _⟩
    rw [equal] at plays
    exact absurd plays (by simp [ServiceOp.plays])

theorem following_of_exit {fd : Int} {ended : Bool} {exit : List Event} (player : PlayerPtr)
    (leaving : Exit fd ended exit) :
    ∀ event ∈ exit, Following player event ∧ event.1.actsFor = none ∧ ¬ ActionReceived event := by
  rintro ⟨op, result⟩ present
  have listed : op ∈ exit.map Sigma.fst := List.mem_map_of_mem present
  rw [leaving] at listed
  cases ended with
  | false => simp at listed
  | true =>
    simp only [if_true, List.mem_cons, List.not_mem_nil, or_false] at listed
    rcases listed with rfl | rfl <;> simp [Following, ActionReceived]

/-! ### Before the login and after it -/

theorem Playing.following {fd : Int} {player : PlayerPtr} {rounds : Nat} {ended : Bool} {log : List Event}
    (playing : Playing fd player rounds ended log) : ∀ event ∈ log, Following player event := by
  induction playing with
  | running => simp
  | left failed leaving =>
    intro event present
    simp only [List.mem_cons] at present
    rcases present with rfl | rfl | rfl | present
    · simp [Following]
    · simp [Following]
    · simp [Following]
    · exact (following_of_exit player leaving event present).1
  | round received honoured later ih =>
    intro event present
    simp only [List.mem_cons, List.mem_append] at present
    rcases present with rfl | rfl | present | present
    · simp [Following]
    · simp [Following]
    · exact (following_of_plays (requests_play honoured event present)).1
    · exact ih event present

theorem Playing.acts_iff {fd : Int} {player : PlayerPtr} {rounds : Nat} {ended : Bool} {log : List Event}
    (playing : Playing fd player rounds ended log) :
    (∃ event ∈ log, event.1.actsFor = some player) ↔ ∃ event ∈ log, ActionReceived event := by
  induction playing with
  | running => simp
  | @left pkt datap answer exit failed leaving =>
    have idle := following_of_exit player leaving
    have noAct : ¬ ∃ event ∈ exit, event.1.actsFor = some player := fun ⟨event, present, acts⟩ => by
      simp [(idle event present).2.1] at acts
    have noPacket : ¬ ∃ event ∈ exit, ActionReceived event := fun ⟨event, present, action⟩ =>
      (idle event present).2.2 action
    have unreceived : ¬ ActionReceived ⟨.protoRecvPacket fd pkt datap, answer⟩ := by
      rintro ⟨_, _, _, _, equal, received, _⟩
      cases equal
      exact failed received
    have checked : ¬ ActionReceived ⟨.playerCheckForLaserHit player, ()⟩ := by simp [ActionReceived]
    have loggedOut : ¬ ActionReceived ⟨.playerLogout player, ()⟩ := by simp [ActionReceived]
    simp only [List.mem_cons, or_and_right, exists_or, exists_eq_left, noAct, noPacket, unreceived, checked,
      loggedOut, ServiceOp.actsFor_check, ServiceOp.actsFor_recv, ServiceOp.actsFor_logout, reduceCtorEq, or_self]
  | @round pkt datap answer acts rounds ended rest received honoured later ih =>
    have asked : (∃ event ∈ acts, event.1.actsFor = some player) ↔ answer.2.1.isAction := by
      rw [← requests_act player answer.2.1 answer.2.2, ← honoured]
      simp
    have unreceived : ¬ ∃ event ∈ acts, ActionReceived event := fun ⟨event, present, action⟩ =>
      (following_of_plays (requests_play honoured event present)).2 action
    have recognised : ActionReceived ⟨.protoRecvPacket fd pkt datap, answer⟩ ↔ answer.2.1.isAction := by
      constructor
      · rintro ⟨_, _, _, _, equal, _, action⟩
        cases equal
        exact action
      · exact fun action => ⟨_, _, _, _, rfl, received, action⟩
    have checked : ¬ ActionReceived ⟨.playerCheckForLaserHit player, ()⟩ := by simp [ActionReceived]
    simp only [List.mem_cons, List.mem_append, or_and_right, exists_or, exists_eq_left, asked, ih, recognised,
      unreceived, checked, ServiceOp.actsFor_check, ServiceOp.actsFor_recv, reduceCtorEq, false_or]

/-- A session in which no login succeeds is idle; otherwise it is idle up to the login. -/
theorem Waiting.split {fd : Int} {rounds : Nat} {ended : Bool} {log : List Event}
    (waiting : Waiting fd rounds ended log) :
    (∀ event ∈ log, Idle event) ∨
    ∃ earlier avatar name player reply sent rest turns,
      log = earlier ++ ⟨.playerLogin fd avatar name, some player⟩ :: ⟨.protoSendPacket fd reply, sent⟩ ::
        (placement (some player) sent ++ rest) ∧
      reply.type = MzwPacketType.readyPkt.code ∧ Playing fd (some player) turns ended rest ∧
      ∀ event ∈ earlier, Idle event := by
  induction waiting with
  | running => exact .inl (by simp)
  | left failed leaving =>
    refine .inl fun event present => ?_
    rcases List.mem_cons.mp present with rfl | present
    · exact idle_of_ne rfl (by simp) (by simp)
    · obtain ⟨⟨resetless, sendless, _⟩, actless, _⟩ := following_of_exit none leaving event present
      exact idle_of_ne actless resetless sendless
  | @ignored pkt datap answer rounds ended rest received other later ih =>
    have receive : Idle ⟨.protoRecvPacket fd pkt datap, answer⟩ := idle_of_ne rfl (by simp) (by simp)
    rcases ih with idle | ⟨earlier, avatar, name, player, reply, sent, rest, turns, rfl, ready, playing, idle⟩
    · exact .inl (List.forall_mem_cons.mpr ⟨receive, idle⟩)
    · exact .inr ⟨_ :: earlier, avatar, name, player, reply, sent, rest, turns, rfl, ready, playing,
        List.forall_mem_cons.mpr ⟨receive, idle⟩⟩
  | @refused pkt datap answer reply sent rounds ended rest received login inuse later ih =>
    have receive : Idle ⟨.protoRecvPacket fd pkt datap, answer⟩ := idle_of_ne rfl (by simp) (by simp)
    have asked : Idle ⟨.playerLogin fd answer.2.1.param1.toUInt8 answer.2.2, none⟩ :=
      idle_of_ne rfl (by simp) (by simp)
    have replied : Idle ⟨.protoSendPacket fd reply, sent⟩ := by
      refine ⟨rfl, by simp, ?_⟩
      rintro ⟨_, _, equal, ready⟩
      cases equal
      exact absurd (inuse.symm.trans ready) (by decide)
    have first := fun rest (idle : ∀ event ∈ rest, Idle event) =>
      List.forall_mem_cons.mpr ⟨receive, List.forall_mem_cons.mpr ⟨asked, List.forall_mem_cons.mpr ⟨replied, idle⟩⟩⟩
    rcases ih with idle | ⟨earlier, avatar, name, player, reply, sent, rest, turns, rfl, ready, playing, idle⟩
    · exact .inl (first _ idle)
    · exact .inr ⟨_ :: _ :: _ :: earlier, avatar, name, player, reply, sent, rest, turns, rfl, ready, playing,
        first _ idle⟩
  | @accepted pkt datap answer player reply sent rounds ended rest received login ready later =>
    have receive : Idle ⟨.protoRecvPacket fd pkt datap, answer⟩ := idle_of_ne rfl (by simp) (by simp)
    exact .inr ⟨[_], _, _, player, reply, sent, rest, rounds, rfl, ready, later, by simpa using receive⟩

/-! ### Placement -/

theorem append_split {earlier rest before after : List Event} {event : Event}
    (equal : earlier ++ rest = before ++ event :: after) (absent : event ∉ earlier) :
    ∃ between, before = earlier ++ between ∧ rest = between ++ event :: after := by
  rcases List.append_eq_append_iff.mp equal with ⟨between, rfl, same⟩ | ⟨between, rfl, same⟩
  · exact ⟨between, rfl, same⟩
  · cases between with
    | nil => exact ⟨[], by simp, by simpa using same.symm⟩
    | cons first between =>
      injection same with head
      exact (absent (by simp [head])).elim

section Accepted
variable {fd : Int} {avatar : UInt8} {name : Payload} {player turns : Nat} {reply : MzwPacket} {sent : Int}
  {ended : Bool} {earlier rest : List Event} (idle : ∀ event ∈ earlier, Idle event)
  (playing : Playing fd (some player) turns ended rest)
include idle playing

theorem placedFirst_of_placed (placed : sent ≠ -1) :
    PlacedFirst (earlier ++ ⟨.playerLogin fd avatar name, some player⟩ :: ⟨.protoSendPacket fd reply, sent⟩ ::
      (placement (some player) sent ++ rest)) := by
  intro before action after other equal acts
  rw [placement, if_pos placed] at equal
  let opening : List Event := earlier ++ [⟨.playerLogin fd avatar name, some player⟩,
    ⟨.protoSendPacket fd reply, sent⟩, ⟨.playerReset (some player), ()⟩]
  have absent : action ∉ opening := by
    intro present
    simp only [opening, List.mem_append, List.mem_cons, List.not_mem_nil, or_false] at present
    rcases present with present | rfl | rfl | rfl
    · simp [(idle action present).1] at acts
    · simp at acts
    · simp at acts
    · simp at acts
  have opened : opening ++ rest = before ++ action :: after := by simpa [opening] using equal
  obtain ⟨between, rfl, split⟩ := append_split opened absent
  obtain rfl : other = some player := (playing.following action (by simp [split])).2.2 other acts
  exact ⟨earlier, fd, avatar, name, ⟨.protoSendPacket fd reply, sent⟩ :: ⟨.playerReset (some player), ()⟩ :: between,
    by simp [opening], by simp⟩

theorem not_readyLost_of_placed (placed : sent ≠ -1) :
    ∀ event ∈ earlier ++ ⟨.playerLogin fd avatar name, some player⟩ :: ⟨.protoSendPacket fd reply, sent⟩ ::
      (placement (some player) sent ++ rest), ¬ ReadyLost event := by
  intro event present lost
  rw [placement, if_pos placed] at present
  simp only [List.mem_append, List.mem_cons, List.not_mem_nil, or_false] at present
  obtain ⟨other, packet, rfl, _⟩ := id lost
  rcases present with present | equal | equal | equal | present
  · exact (idle _ present).2.2 lost
  · cases equal
  · cases equal
    exact placed rfl
  · cases equal
  · exact (playing.following _ present).2.1 other packet rfl

/-- Without the READY packet the player is never placed, and so it must not act. -/
theorem placedFirst_unplaced_iff :
    PlacedFirst (earlier ++ ⟨.playerLogin fd avatar name, some player⟩ :: ⟨.protoSendPacket fd reply, -1⟩ :: rest) ↔
      ¬ ∃ event ∈ rest, event.1.actsFor = some (some player) := by
  let opening : List Event := earlier ++ [⟨.playerLogin fd avatar name, some player⟩,
    ⟨.protoSendPacket fd reply, -1⟩]
  have whole : earlier ++ ⟨.playerLogin fd avatar name, some player⟩ :: ⟨.protoSendPacket fd reply, -1⟩ :: rest =
      opening ++ rest := by simp [opening]
  rw [whole]
  constructor
  · rintro first ⟨action, present, acts⟩
    obtain ⟨before, after, rfl⟩ := List.append_of_mem present
    obtain ⟨_, _, _, _, later, split, reset⟩ :=
      first (opening ++ before) action after _ (by simp) acts
    have member : (⟨.playerReset (some player), ()⟩ : Event) ∈ opening ++ before := by
      rw [split]
      simp [reset]
    simp only [opening, List.mem_append, List.mem_cons, List.not_mem_nil, or_false] at member
    rcases member with (member | equal | equal) | member
    · exact (idle _ member).2.1 _ rfl
    · cases equal
    · cases equal
    · exact (playing.following _ (List.mem_append_left _ member)).1 _ rfl
  · intro still before action after other equal acts
    have absent : action ∉ opening := by
      intro present
      simp only [opening, List.mem_append, List.mem_cons, List.not_mem_nil, or_false] at present
      rcases present with present | rfl | rfl
      · simp [(idle action present).1] at acts
      · simp at acts
      · simp at acts
    obtain ⟨between, rfl, split⟩ := append_split equal absent
    have present : action ∈ rest := by simp [split]
    obtain rfl : other = some player := (playing.following action present).2.2 other acts
    exact (still ⟨action, present, acts⟩).elim

theorem playedUnplaced_iff (ready : reply.type = MzwPacketType.readyPkt.code) :
    PlayedUnplaced (earlier ++ ⟨.playerLogin fd avatar name, some player⟩ :: ⟨.protoSendPacket fd reply, -1⟩ :: rest) ↔
      ∃ event ∈ rest, ActionReceived event := by
  constructor
  · rintro ⟨before, lost, after, equal, unsent, event, present, received⟩
    have absent : lost ∉ earlier ++ [⟨.playerLogin fd avatar name, some player⟩] := by
      intro member
      simp only [List.mem_append, List.mem_cons, List.not_mem_nil, or_false] at member
      rcases member with member | rfl
      · exact (idle lost member).2.2 unsent
      · obtain ⟨_, _, same, _⟩ := unsent
        cases same
    rw [← List.singleton_append, ← List.append_assoc] at equal
    obtain ⟨between, rfl, split⟩ := append_split equal absent
    cases between with
    | nil =>
      obtain ⟨rfl, rfl⟩ := List.cons.inj split
      exact ⟨event, present, received⟩
    | cons first between =>
      obtain ⟨rfl, rfl⟩ := List.cons.inj split
      obtain ⟨other, packet, rfl, _⟩ := unsent
      exact ((playing.following _ (List.mem_append_right _ List.mem_cons_self)).2.1 other packet rfl).elim
  · rintro ⟨event, present, received⟩
    exact ⟨earlier ++ [⟨.playerLogin fd avatar name, some player⟩], _, rest, by simp, ⟨fd, reply, rfl, ready⟩,
      event, present, received⟩

end Accepted

theorem waiting_placedFirst_iff {fd : Int} {rounds : Nat} {ended : Bool} {log : List Event}
    (session : Session fd rounds ended log) : PlacedFirst log ↔ ¬ PlayedUnplaced log := by
  obtain ⟨log, rfl, waiting⟩ := session
  have registered : Idle ⟨.cregRegister fd, ()⟩ := idle_of_ne rfl (by simp) (by simp)
  rcases waiting.split with
    idle | ⟨earlier, avatar, name, player, reply, sent, rest, turns, rfl, ready, playing, idle⟩
  · have whole := List.forall_mem_cons.mpr ⟨registered, idle⟩
    refine iff_of_true ?_ ?_
    · intro before action after player equal acts
      simp [(whole action (by simp [equal])).1] at acts
    · rintro ⟨before, lost, after, equal, unsent, _⟩
      exact (whole lost (by simp [equal])).2.2 unsent
  · have opening := List.forall_mem_cons.mpr ⟨registered, idle⟩
    rw [← List.cons_append]
    by_cases lost : sent = -1
    · subst lost
      rw [show placement (some player) (-1) = [] from rfl, List.nil_append,
        placedFirst_unplaced_iff opening playing, playedUnplaced_iff opening playing ready, playing.acts_iff]
    · refine iff_of_true (placedFirst_of_placed opening playing lost) ?_
      rintro ⟨before, packet, after, equal, unsent, _⟩
      exact not_readyLost_of_placed opening playing lost packet (by rw [equal]; simp) unsent

/-- Every action of a player comes after its placement exactly if no action has been asked for
since a READY packet was lost. -/
theorem game_actions_placed_iff (fd : Int) (fuel : Nat) (log : List Event) (ended : Bool)
    (emitted : (mzwClientService fd fuel).Emits log ended) :
    PlacedFirst (calls log) ↔ ¬ PlayedUnplaced (calls log) := by
  obtain ⟨_, _, session⟩ := mzwClientService_session emitted
  exact waiting_placedFirst_iff session

/-- A LOGIN that succeeds, its READY packet, sent or lost, and a MOVE. -/
def moveSession (sent : Int) : List Event :=
  let blank : MzwPacket := ⟨0, 0, 0, 0, 0, (0, 0), 0, 0⟩
  let login : MzwPacket := ⟨1, 65, 0, 0, 1, (0, 0), 0, 0⟩
  let ready : MzwPacket := ⟨7, 0, 0, 0, 0, (0, 0), 0, 0⟩
  let move : MzwPacket := ⟨2, 1, 0, 0, 0, (0, 0), 0, 0⟩
  let name : Payload := .buffer [97]
  [⟨.free .arg, ()⟩, ⟨.cregRegister 4, ()⟩, ⟨.mallocPacket, blank⟩, ⟨.mallocDatap, .null⟩, ⟨.mallocPlayer, some 1⟩,
    ⟨.protoRecvPacket 4 blank .null, (0, login, name)⟩, ⟨.playerLogin 4 65 name, some 2⟩, ⟨.mallocPacket, blank⟩,
    ⟨.protoSendPacket 4 ready, sent⟩] ++ placement (some 2) sent ++ [⟨.free .reply, ()⟩, ⟨.showMaze, ()⟩,
    ⟨.playerCheckForLaserHit (some 2), ()⟩, ⟨.protoRecvPacket 4 login name, (0, move, name)⟩,
    ⟨.playerMove (some 2) 1, 0⟩, ⟨.showMaze, ()⟩,
    ⟨.playerCheckForLaserHit (some 2), ()⟩, ⟨.protoRecvPacket 4 move name, (-1, move, name)⟩,
    ⟨.playerLogout (some 2), ()⟩, ⟨.cregUnregister 4, ()⟩, ⟨.close 4, 0⟩, ⟨.free .pkt, ()⟩, ⟨.free .datap, ()⟩]

theorem placedSession_emitted : (mzwClientService 4 3).Emits (moveSession 0) true := by
  repeat first | exact ⟨rfl, rfl⟩ | refine ⟨_, _, rfl, ?_⟩

theorem unplacedSession_emitted : (mzwClientService 4 3).Emits (moveSession (-1)) true := by
  repeat first | exact ⟨rfl, rfl⟩ | refine ⟨_, _, rfl, ?_⟩

/-- The move comes after the placement. -/
theorem game_actions_placed_login :
    PlacedFirst (calls (moveSession 0)) ∧ ⟨.playerMove (some 2) 1, 0⟩ ∈ calls (moveSession 0) := by
  refine ⟨(game_actions_placed_iff 4 3 (moveSession 0) true placedSession_emitted).mpr ?_, ?_⟩
  · rintro ⟨before, lost, after, equal, ⟨fd, reply, rfl, _⟩, _⟩
    have member : (⟨.protoSendPacket fd reply, -1⟩ : Event) ∈ calls (moveSession 0) := by
      rw [equal]
      simp
    simp [moveSession, placement, calls, ServiceOp.observed] at member
  · simp [moveSession, calls, ServiceOp.observed]

theorem game_action_unplaced :
    (mzwClientService 4 3).Emits (moveSession (-1)) true ∧ ¬ PlacedFirst (calls (moveSession (-1))) := by
  refine ⟨unplacedSession_emitted, fun first => ?_⟩
  obtain ⟨_, _, _, _, later, split, reset⟩ := first (calls ((moveSession (-1)).take 13)) ⟨.playerMove (some 2) 1, 0⟩
    (calls ((moveSession (-1)).drop 14)) (some 2) rfl rfl
  have member : (⟨.playerReset (some 2), ()⟩ : Event) ∈ calls ((moveSession (-1)).take 13) := by
    rw [split]
    simp [reset]
  simp [moveSession, placement, calls, ServiceOp.observed] at member

end MazeWar
