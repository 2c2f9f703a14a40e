import MazeWar.Server.World

/-!
# What a login reply tells

A reply is sent from a block of which only the type is assigned, and its data is the address
of `datap`. Two runs on the same packets and logins send the same replies exactly if those
blocks, and the memory from `datap` on, held the same before as far as they are sent.
-/

namespace MazeWar
open Foundation

/-! ### One reply -/

theorem MzwPacket.bytes_set_type (pkt : MzwPacket) (code : UInt8) :
    ({ pkt with type := code } : MzwPacket).swapped.bytes = pkt.swapped.bytes.set 0 code := by
  simp [bytes, swapped]

theorem MzwPacket.eq_of_swapped_bytes {first second : MzwPacket} (same : first.swapped.bytes = second.swapped.bytes) :
    first = second := by
  rw [← first.swapped_swapped, ← second.swapped_swapped, ← ofBytes_bytes first.swapped, ← ofBytes_bytes second.swapped,
    same]

theorem take_set_eq_iff {first second : List UInt8} (code : UInt8) {n : Nat} (length : first.length = second.length) :
    (first.set 0 code).take n = (second.set 0 code).take n ↔ ∀ i, 0 < i → i < n → first[i]? = second[i]? := by
  constructor
  · intro same i positive inside
    have entry := congrArg (fun list => list[i]?) same
    simpa [List.getElem?_take, inside, List.getElem?_set_ne (Nat.ne_of_lt positive)] using entry
  · intro same
    apply List.ext_getElem?
    intro i
    rw [List.getElem?_take, List.getElem?_take]
    split
    · rename_i inside
      rcases Nat.eq_zero_or_pos i with rfl | positive
      · simp [List.getElem?_set, length]
      · rw [List.getElem?_set_ne (Nat.ne_of_lt positive), List.getElem?_set_ne (Nat.ne_of_lt positive)]
        exact same i positive inside
    · rfl

theorem take_memoryBytes_eq_iff {first second : Nat → UInt8} {count n : Nat} (inside : count ≤ n) :
    (memoryBytes first n).take count = (memoryBytes second n).take count ↔ ∀ i < count, first i = second i := by
  rw [memoryBytes, memoryBytes, ← List.map_take, ← List.map_take, List.take_range, Nat.min_eq_left inside,
    List.map_inj_left]
  simp

namespace Outbox

/-- As far as the two next replies are written, the bytes of their headers that are not assigned agree,
and so does the memory from `datap` on when the header is written whole. -/
def AgreesWith (first second : Outbox) : Prop :=
  (∀ i, 0 < i → i < (first.writes.headD .full).count MzwPacket.sizeOf →
    (first.fresh 0).swapped.bytes[i]? = (second.fresh 0).swapped.bytes[i]?) ∧
  ((first.writes.headD .full).count MzwPacket.sizeOf = MzwPacket.sizeOf →
    ∀ i < (first.writes.tail.headD .full).count (first.fresh 0).size.toNat, first.memory 0 i = second.memory 0 i)

theorem reply_eq_iff {first second : Outbox} (writes : first.writes = second.writes) (code : UInt8) :
    first.reply code = second.reply code ↔ first.AgreesWith second := by
  let head := fun (outbox : Outbox) => (first.writes.headD .full).bytes (outbox.header code).swapped.bytes
  have heads : head first = head second ↔
      ∀ i, 0 < i → i < (first.writes.headD .full).count MzwPacket.sizeOf →
        (first.fresh 0).swapped.bytes[i]? = (second.fresh 0).swapped.bytes[i]? := by
    simp only [head, Transfer.bytes_eq_take, header, MzwPacket.bytes_set_type, List.length_set,
      MzwPacket.length_bytes]
    exact take_set_eq_iff code (by simp)
  have lengths : ∀ outbox, (head outbox).length = (first.writes.headD .full).count MzwPacket.sizeOf :=
    fun outbox => by rw [Transfer.length_bytes, MzwPacket.length_bytes]
  rw [reply, reply, ← writes, AgreesWith, ← heads]
  change (if (head first).length = _ then head first ++ _ else head first) =
    (if (head second).length = _ then head second ++ _ else head second) ↔ _
  rw [lengths, lengths]
  by_cases whole : (first.writes.headD .full).count MzwPacket.sizeOf = MzwPacket.sizeOf
  · rw [if_pos whole, if_pos whole]
    have complete : ∀ outbox, head outbox = (outbox.header code).swapped.bytes := fun outbox => by
      simp only [head]
      rw [Transfer.bytes_eq_take, MzwPacket.length_bytes, whole, List.take_of_length_le]
      exact (MzwPacket.length_bytes _).le
    have body : (first.header code).swapped.bytes = (second.header code).swapped.bytes →
        ((first.writes.tail.headD .full).bytes (memoryBytes (first.memory 0) (first.header code).size.toNat) =
            (first.writes.tail.headD .full).bytes (memoryBytes (second.memory 0) (second.header code).size.toNat) ↔
          ∀ i < (first.writes.tail.headD .full).count (first.fresh 0).size.toNat,
            first.memory 0 i = second.memory 0 i) := by
      intro same
      have sizes : (second.header code).size = (first.header code).size :=
        congrArg MzwPacket.size (MzwPacket.eq_of_swapped_bytes same.symm)
      rw [sizes, Transfer.bytes_eq_take, Transfer.bytes_eq_take, length_memoryBytes, length_memoryBytes]
      exact take_memoryBytes_eq_iff (Transfer.count_le _ _)
    constructor
    · intro same
      obtain ⟨sameHead, sameBody⟩ := List.append_inj same (by rw [lengths, lengths])
      exact ⟨sameHead, fun _ => (body (by rwa [complete, complete] at sameHead)).mp sameBody⟩
    · rintro ⟨sameHead, agrees⟩
      rw [sameHead, (body (by rwa [complete, complete] at sameHead)).mpr (agrees whole)]
  · rw [if_neg whole, if_neg whole]
    exact (and_iff_left fun full => (whole full).elim).symm

theorem length_replies (outbox : Outbox) (codes : List UInt8) : (outbox.replies codes).length = codes.length := by
  induction codes generalizing outbox with
  | nil => rfl
  | cons code codes ih => rw [replies, List.length_cons, ih, List.length_cons]

theorem replies_eq_iff {first second : Outbox} (writes : first.writes = second.writes) (codes : List UInt8) :
    first.replies codes = second.replies codes ↔
      ∀ n < codes.length, (next^[n] first).AgreesWith (next^[n] second) := by
  induction codes generalizing first second with
  | nil => simp [replies]
  | cons code codes ih =>
    have following : first.next.writes = second.next.writes := by simp [next, writes]
    rw [replies, replies, List.cons.injEq, reply_eq_iff writes, ih following, List.length_cons,
      Nat.forall_lt_succ_left]
    rfl

end Outbox

/-! ### The replies that are due -/

/-- How many receives leave a LOGIN in the buffer, which held a packet of the given type before. -/
def loginTurns : UInt8 → List (Option WirePacket) → Nat
  | _, [] => 0
  | type, none :: rest => (if type = MzwPacketType.loginPkt.code then 1 else 0) + loginTurns type rest
  | _, some packet :: rest =>
    (if packet.header.type = MzwPacketType.loginPkt.code then 1 else 0) + loginTurns packet.header.type rest

/-- READY or INUSE for so many LOGIN packets, up to the first that is accepted. -/
def loginCodes : List PlayerPtr → Nat → List UInt8
  | _, 0 => []
  | logins, n + 1 =>
    replyCode (logins.headD none) :: if logins.headD none = none then loginCodes logins.tail n else []

theorem replyCodes_playing {standing : Standing} {player : Nat} (playing : standing.player = some player)
    (takings : List (Option WirePacket)) : replyCodes standing takings = [] := by
  induction takings generalizing standing with
  | nil => rfl
  | cons taken rest ih =>
    have inside : (standing.take taken).player = some player := by cases taken <;> exact playing
    have asks : ¬ AsksLogin (standing.take taken).player (standing.take taken).pkt := by
      rintro ⟨absent, _⟩
      exact nomatch inside.symm.trans absent
    have still : (standing.take taken).dispatched.player = some player := by
      rw [Standing.dispatched, playerAfter, if_neg asks, inside]
    rw [replyCodes, Standing.replies, if_neg asks, ih still, List.append_nil]

theorem loginTurns_cons (standing : Standing) (taken : Option WirePacket) (rest : List (Option WirePacket)) :
    loginTurns standing.pkt.type (taken :: rest) =
      (if (standing.take taken).pkt.type = MzwPacketType.loginPkt.code then 1 else 0) +
        loginTurns (standing.take taken).pkt.type rest := by
  cases taken <;> rfl

theorem replyCodes_waiting {standing : Standing} (waiting : standing.player = none)
    (takings : List (Option WirePacket)) :
    replyCodes standing takings = loginCodes standing.logins (loginTurns standing.pkt.type takings) := by
  induction takings generalizing standing with
  | nil => rfl
  | cons taken rest ih =>
    let taker := standing.take taken
    have outside : taker.player = none := by cases taken <;> exact waiting
    have logins : taker.logins = standing.logins := by cases taken <;> rfl
    rw [replyCodes, loginTurns_cons]
    change taker.replies ++ replyCodes taker.dispatched rest = _
    by_cases login : taker.pkt.type = MzwPacketType.loginPkt.code
    · have asks : AsksLogin taker.player taker.pkt := ⟨outside, login⟩
      have after : taker.dispatched.player = standing.logins.headD none := by
        rw [Standing.dispatched, playerAfter, if_pos asks, logins]
      have left : taker.dispatched.logins = standing.logins.tail := by
        rw [Standing.dispatched, if_pos asks, logins]
      rw [if_pos login, Nat.add_comm, loginCodes, Standing.replies, if_pos asks, logins, List.singleton_append]
      refine congrArg _ ?_
      cases accepted : standing.logins.headD none with
      | none =>
        rw [if_pos rfl, ih (after.trans accepted), left]
        rfl
      | some player => rw [if_neg (Option.some_ne_none player), replyCodes_playing (after.trans accepted)]
    · have asks : ¬ AsksLogin taker.player taker.pkt := fun asks => login asks.2
      have after : taker.dispatched.player = none := by rw [Standing.dispatched, playerAfter, if_neg asks, outside]
      have left : taker.dispatched.logins = standing.logins := by rw [Standing.dispatched, if_neg asks, logins]
      rw [if_neg login, Nat.zero_add, Standing.replies, if_neg asks, List.nil_append, ih after, left]
      rfl

/-- What the buffer held before counts only for the receives that are interrupted before the first packet. -/
theorem loginTurns_eq (type : UInt8) (takings : List (Option WirePacket)) :
    loginTurns type takings = loginTurns MzwPacketType.noPkt.code takings +
      if type = MzwPacketType.loginPkt.code then (takings.takeWhile Option.isNone).length else 0 := by
  induction takings with
  | nil => simp [loginTurns]
  | cons taken rest ih =>
    cases taken with
    | some packet => simp [loginTurns]
    | none =>
      have blank : MzwPacketType.noPkt.code ≠ MzwPacketType.loginPkt.code := by decide
      rw [loginTurns, loginTurns, ih, if_neg blank, Nat.zero_add]
      by_cases login : type = MzwPacketType.loginPkt.code
      · simp only [login, if_true, List.takeWhile_cons, Option.isNone_none, List.length_cons]
        omega
      · simp [login]

theorem length_loginCodes_lt {logins : List PlayerPtr} {n : Nat} (refused : ∀ login ∈ logins.take n, login = none)
    (more : Nat) : (loginCodes logins n).length < (loginCodes logins (n + (more + 1))).length := by
  induction n generalizing logins with
  | zero => simp [loginCodes]
  | succ n ih =>
    have first : logins.headD none = none := by
      cases logins with
      | nil => rfl
      | cons login later => exact refused login List.mem_cons_self
    have rest : ∀ login ∈ logins.tail.take n, login = none := by
      cases logins with
      | nil => simp
      | cons login later => exact fun other present => refused other (List.mem_cons_of_mem _ present)
    have shorter := ih rest
    rw [show n + 1 + (more + 1) = n + (more + 1) + 1 by omega, loginCodes, loginCodes, if_pos first, if_pos first]
    simpa using shorter

theorem loginCodes_accepted {logins : List PlayerPtr} {n : Nat} (accepted : ∃ login ∈ logins.take n, login ≠ none)
    (more : Nat) : loginCodes logins (n + more) = loginCodes logins n := by
  induction n generalizing logins with
  | zero => simp at accepted
  | succ n ih =>
    rw [show n + 1 + more = n + more + 1 by omega, loginCodes, loginCodes]
    refine congrArg _ ?_
    by_cases first : logins.headD none = none
    · rw [if_pos first, if_pos first]
      refine ih ?_
      obtain ⟨login, present, some⟩ := accepted
      cases logins with
      | nil => simp at present
      | cons head later =>
        rcases List.mem_cons.mp present with rfl | present
        · exact absurd first some
        · exact ⟨login, present, some⟩
    · rw [if_neg first, if_neg first]

/-- The header that `malloc` left in `pkt` is dispatched when the first receive is interrupted: it is a
LOGIN in both runs or in none, or a login that is asked for anyway is accepted. -/
def SameTurns (logins : List PlayerPtr) (takings : List (Option WirePacket)) (type type' : UInt8) : Prop :=
  takings.head? = some none →
    (type = MzwPacketType.loginPkt.code ↔ type' = MzwPacketType.loginPkt.code) ∨
      ∃ login ∈ logins.take (loginTurns MzwPacketType.noPkt.code takings), login ≠ none

theorem sameTurns_of_length {logins : List PlayerPtr} {takings : List (Option WirePacket)} {type type' : UInt8}
    (length : (loginCodes logins (loginTurns type takings)).length =
      (loginCodes logins (loginTurns type' takings)).length) : SameTurns logins takings type type' := by
  intro interrupted
  by_contra differ
  obtain ⟨one, refused⟩ := not_or.mp differ
  have every : ∀ login ∈ logins.take (loginTurns MzwPacketType.noPkt.code takings), login = none :=
    fun login present => not_not.mp fun some => refused ⟨login, present, some⟩
  obtain ⟨more, run⟩ : ∃ more, (takings.takeWhile Option.isNone).length = more + 1 := by
    rcases takings with _ | ⟨_ | packet, rest⟩
    · cases interrupted
    · exact ⟨(rest.takeWhile Option.isNone).length, rfl⟩
    · cases interrupted
  have shorter := length_loginCodes_lt every more
  rw [loginTurns_eq type, loginTurns_eq type', run] at length
  by_cases login : type = MzwPacketType.loginPkt.code
  · have other : type' ≠ MzwPacketType.loginPkt.code := fun login' => one ⟨fun _ => login', fun _ => login⟩
    rw [if_pos login, if_neg other, Nat.add_zero] at length
    exact shorter.ne length.symm
  · have other : type' = MzwPacketType.loginPkt.code :=
      not_not.mp fun other => one ⟨fun login' => (login login').elim, fun login' => (other login').elim⟩
    rw [if_neg login, if_pos other, Nat.add_zero] at length
    exact shorter.ne length

theorem SameTurns.codes {logins : List PlayerPtr} {takings : List (Option WirePacket)} {type type' : UInt8}
    (same : SameTurns logins takings type type') :
    loginCodes logins (loginTurns type takings) = loginCodes logins (loginTurns type' takings) := by
  rw [loginTurns_eq type, loginTurns_eq type']
  by_cases interrupted : takings.head? = some none
  · rcases same interrupted with types | accepted
    · rw [if_congr types rfl rfl]
    · rw [loginCodes_accepted accepted, loginCodes_accepted accepted]
  · have none : takings.takeWhile Option.isNone = [] := by
      rcases takings with _ | ⟨_ | packet, rest⟩
      · rfl
      · exact (interrupted rfl).elim
      · rfl
    rw [none, List.length_nil, ite_self, ite_self]

/-! ### The replies of a session -/

/-- Two services of the same packets with the same logins send the same replies exactly if as many are due
and the contents of memory that each of them is made from agree. -/
theorem login_replies_iff (fd : Int) {fuel : Nat} {inbox : Inbox} {takings : List (Option WirePacket)}
    (logins : List PlayerPtr) {first second : Outbox} (gives : Gives inbox takings)
    (enough : takings.length < fuel) (writes : first.writes = second.writes) :
    ∃ t u, (mzwClientService fd fuel).run World.exec (.start inbox logins first) = some (true, t) ∧
      (mzwClientService fd fuel).run World.exec (.start inbox logins second) = some (true, u) ∧
      (t.replies = u.replies ↔ SameTurns logins takings (first.fresh 0).type (second.fresh 0).type ∧
        ∀ n < (loginCodes logins (loginTurns (first.fresh 0).type takings)).length,
          (Outbox.next^[n] first.start).AgreesWith (Outbox.next^[n] second.start)) := by
  obtain ⟨t, ran, _, replies⟩ := mzwClientService_world fd fuel logins first gives enough
  obtain ⟨u, ran', _, replies'⟩ := mzwClientService_world fd fuel logins second gives enough
  have allocated : first.start.writes = second.start.writes := writes
  refine ⟨t, u, ran, ran', ?_⟩
  rw [replies, replies', replyCodes_waiting rfl, replyCodes_waiting rfl]
  change first.start.replies (loginCodes logins (loginTurns (first.fresh 0).type takings)) =
    second.start.replies (loginCodes logins (loginTurns (second.fresh 0).type takings)) ↔ _
  constructor
  · intro same
    have length := congrArg List.length same
    rw [Outbox.length_replies, Outbox.length_replies] at length
    have turns := sameTurns_of_length length
    rw [← turns.codes] at same
    exact ⟨turns, (Outbox.replies_eq_iff allocated _).mp same⟩
  · rintro ⟨turns, agree⟩
    rw [← turns.codes]
    exact (Outbox.replies_eq_iff allocated _).mpr agree

/-! ### Replies to one login -/

def loginInbox (plan : List Transfer) : Inbox := ⟨(WirePacket.lettered .loginPkt 65 97).bytes ++ [], plan, []⟩

theorem loginInbox_gives : Gives (loginInbox []) [some (.lettered .loginPkt 65 97)] :=
  .next (.packet (wholeTransfers_nil _)) (.closed (by decide) (by decide))

theorem loginInbox_gives_interrupted :
    Gives (loginInbox [.fails eintr]) [none, some (.lettered .loginPkt 65 97)] :=
  .next .interrupted (.next (.packet (wholeTransfers_nil _)) (.closed (by decide) (by decide)))

def cleared : Outbox where
  writes := []
  fresh := fun _ => ⟨0, 0, 0, 0, 0, (0, 0), 0, 0⟩
  memory := fun _ _ => 0

def littered : Outbox where
  writes := []
  fresh := fun _ => ⟨2, 1, 0, 0, 4, (0, 0), 0, 0⟩
  memory := fun _ i => 80 + UInt8.ofNat i

/-- Memory that differs where no reply is made from it. -/
def retyped : Outbox where
  writes := []
  fresh := fun _ => ⟨2, 0, 0, 0, 0, (0, 0), 0, 0⟩
  memory := fun _ i => 80 + UInt8.ofNat i

theorem login_replies_iff_login :
    ∃ t u, (mzwClientService 4 3).run World.exec (.start (loginInbox [.fails eintr]) [some 2] cleared) =
        some (true, t) ∧
      (mzwClientService 4 3).run World.exec (.start (loginInbox [.fails eintr]) [some 2] retyped) = some (true, u) ∧
      t.replies = u.replies := by
  obtain ⟨t, u, ran, ran', same⟩ := @login_replies_iff 4 3 (loginInbox [.fails eintr]) _ [some 2] cleared retyped
    loginInbox_gives_interrupted (show 2 < 3 by decide) rfl
  refine ⟨t, u, ran, ran', same.mpr ⟨fun _ => .inl (by decide), fun n below => ?_⟩⟩
  obtain rfl : n = 0 := Nat.lt_one_iff.mp below
  refine ⟨fun i positive inside => ?_, fun whole i inside => absurd inside (Nat.not_lt_zero i)⟩
  rw [← List.getElem?_set_ne (a := (2 : UInt8)) (Nat.ne_of_lt positive)]
  rfl

theorem login_reply_leaks :
    Gives (loginInbox []) [some (.lettered .loginPkt 65 97)] ∧
    ((mzwClientService 4 2).run World.exec (.start (loginInbox []) [some 2] cleared)).map (fun ran => ran.2.replies) =
      some [[7, 0, 0, 0, 0, 0, 0, 0, 0, 0, 0, 0, 0, 0, 0, 0]] ∧
    ((mzwClientService 4 2).run World.exec (.start (loginInbox []) [some 2] littered)).map (fun ran => ran.2.replies) =
      some [[7, 1, 0, 0, 0, 4, 0, 0, 0, 0, 0, 0, 0, 0, 0, 0, 80, 81, 82, 83]] :=
  ⟨loginInbox_gives, by decide, by decide⟩

end MazeWar
