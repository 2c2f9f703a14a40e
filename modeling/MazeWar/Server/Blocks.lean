import MazeWar.Foundation.Runs
import MazeWar.Server.Session

/-!
# The blocks of the service thread

The thread frees every block that it allocates, once, but for the one that it takes for a player:
a LOGIN that is honoured overwrites the only pointer to it.
-/

namespace MazeWar
open Foundation

/-- The blocks that are allocated, after an event; `none` when a block is freed that is not allocated. -/
def heapAfter (live : List Block) : Event → Option (List Block)
  | ⟨.mallocPacket, _⟩ => some ((if .pkt ∈ live then .reply else .pkt) :: live)
  | ⟨.mallocDatap, _⟩ => some (.datap :: live)
  | ⟨.mallocPlayer, pointer⟩ => some (.player pointer :: live)
  | ⟨.free (.player none), _⟩ => some live
  | ⟨.free block, _⟩ => if block ∈ live then some (live.erase block) else none
  | _ => some live

def Event.asksLogin : Event → Bool
  | ⟨.playerLogin _ _ _, _⟩ => true
  | _ => false

variable {fd : Int} {pointer : PlayerPtr} {asked : Bool} {st next : ServiceState} {log : List Event} {live : List Block}

/-- The blocks that are allocated throughout the loop. -/
def held (pointer : PlayerPtr) : List Block := [.player pointer, .datap, .pkt]

/-- The variable `new_player` still refers to the block that was allocated for it, if no login was honoured. -/
def ServiceState.Holds (st : ServiceState) (pointer : PlayerPtr) (asked : Bool) : Prop :=
  if asked then st.logedIn = 0 ∨ (st.logedIn = -1 ∧ st.newPlayer = none) else st.logedIn = -1 ∧ st.newPlayer = pointer

/-! ### Events that leave the blocks alone -/

theorem heapAfter_observed {event : Event} (observed : event.1.observed = true) : heapAfter live event = some live := by
  obtain ⟨op, result⟩ := event
  cases op <;> first | rfl | cases observed

theorem heap_observed (observed : ∀ event ∈ log, event.1.observed = true) : runs heapAfter live log = some live := by
  induction log with
  | nil => rfl
  | cons event rest ih =>
    rw [List.forall_mem_cons] at observed
    rw [runs, heapAfter_observed observed.1, Option.bind_some, ih observed.2]

theorem asksLogin_of_plays {event : Event} (plays : event.1.plays = some pointer) : event.asksLogin = false := by
  obtain ⟨op, result⟩ := event
  cases op <;> first | rfl | cases plays

/-! ### One round -/

theorem serviceLogin_blocks (outside : st.logedIn = -1) (emitted : (serviceLogin fd st).Emits log next) :
    runs heapAfter (held pointer) log = some (held pointer) ∧ log.any Event.asksLogin = true ∧ next.Holds pointer true := by
  simp only [serviceLogin, Program.perform_bind, Program.emits_call] at emitted
  obtain ⟨login, _, rfl, emitted⟩ := emitted
  cases login with
  | none =>
    simp only [ne_eq, not_true_eq_false, if_false, Program.emits_call, Program.emits_pure] at emitted
    obtain ⟨block, _, rfl, sent, _, rfl, _, _, rfl, rfl, rfl⟩ := emitted
    exact ⟨rfl, rfl, .inr ⟨outside, rfl⟩⟩
  | some player =>
    simp only [ne_eq, reduceCtorEq, not_false_eq_true, if_true, Program.emits_call] at emitted
    obtain ⟨block, _, rfl, sent, _, rfl, emitted⟩ := emitted
    by_cases failed : sent = -1
    · simp only [failed, not_true_eq_false, if_false, Program.emits_call, Program.emits_pure] at emitted
      obtain ⟨_, _, rfl, rfl, rfl⟩ := emitted
      exact ⟨rfl, rfl, .inl rfl⟩
    · simp only [failed, not_false_eq_true, if_true, Program.emits_call, Program.emits_pure] at emitted
      obtain ⟨_, _, rfl, _, _, rfl, rfl, rfl⟩ := emitted
      exact ⟨rfl, rfl, .inl rfl⟩

theorem serviceDispatch_blocks (holds : st.Holds pointer asked) (emitted : (serviceDispatch fd st).Emits log next) :
    runs heapAfter (held pointer) log = some (held pointer) ∧ next.Holds pointer (asked || log.any Event.asksLogin) := by
  by_cases inside : st.logedIn = 0
  · obtain ⟨rfl, honoured, kept⟩ := serviceDispatch_playing inside emitted
    have quiet : log.any Event.asksLogin = false :=
      List.any_eq_false.mpr fun event member => by simp [asksLogin_of_plays (requests_play honoured event member)]
    rw [quiet, Bool.or_false]
    refine ⟨heap_observed fun event member => ?_, holds⟩
    rw [← kept] at member
    exact (List.mem_filter.mp member).2
  · have outside : st.logedIn = -1 := by
      unfold ServiceState.Holds at holds
      split at holds
      · exact (holds.resolve_left inside).1
      · exact holds.1
    rcases serviceDispatch_waiting outside emitted with ⟨_, rfl, rfl⟩ | ⟨_, logged⟩
    · rw [List.any_nil, Bool.or_false]
      exact ⟨rfl, holds⟩
    · obtain ⟨kept, asks, holds⟩ := serviceLogin_blocks outside logged
      rw [asks, Bool.or_true]
      exact ⟨kept, holds⟩

/-- What is allocated when the loop has been left. -/
def leftOver (pointer : PlayerPtr) (asked : Bool) : List Block := if asked then held pointer else [.datap, .pkt]

theorem ServiceState.Holds.waiting (holds : st.Holds pointer asked) (outside : st.logedIn ≠ 0) :
    st.logedIn = -1 ∧ st.newPlayer = if asked then none else pointer := by
  cases asked with
  | true => exact holds.resolve_left outside
  | false => exact holds

theorem ServiceState.Holds.playing (holds : st.Holds pointer asked) (inside : st.logedIn = 0) : asked = true := by
  cases asked with
  | true => rfl
  | false =>
    have outside := holds.1
    rw [inside] at outside
    cases outside

/-- The end of a round that goes on. -/
def shown : Event := ⟨.showMaze, ()⟩

theorem heap_round {acts : List Event} (kept : runs heapAfter live acts = some live) :
    runs heapAfter live (acts ++ [shown]) = some live ∧
      (acts ++ [shown]).any Event.asksLogin = acts.any Event.asksLogin := by
  rw [runs_append, kept, List.any_append]
  exact ⟨rfl, Bool.or_false _⟩

theorem serviceRound_blocks {outcome : Option ServiceState} (allocated : pointer ≠ none) (holds : st.Holds pointer asked)
    (emitted : (serviceRound fd st).Emits log outcome) :
    (outcome = none ∧ log.any Event.asksLogin = false ∧ runs heapAfter (held pointer) log = some (leftOver pointer asked)) ∨
    ∃ next, outcome = some next ∧ runs heapAfter (held pointer) log = some (held pointer) ∧
      next.Holds pointer (asked || log.any Event.asksLogin) := by
  -- What a receive that succeeds is followed by.
  have goesOn : ∀ {acts : List Event} {next : ServiceState} (answer : Int × MzwPacket × Payload),
      (serviceDispatch fd { st with pkt := answer.2.1, datap := answer.2.2 }).Emits acts next →
      runs heapAfter (held pointer) (acts ++ [shown]) = some (held pointer) ∧
        next.Holds pointer (asked || (acts ++ [shown]).any Event.asksLogin) := by
    intro acts next answer acted
    have handed : ServiceState.Holds { st with pkt := answer.2.1, datap := answer.2.2 } pointer asked := holds
    obtain ⟨kept, holding⟩ := serviceDispatch_blocks handed acted
    obtain ⟨round, asks⟩ := heap_round kept
    exact ⟨round, by rw [asks]; exact holding⟩
  obtain ⟨pkt, datap, logedIn, newPlayer⟩ := st
  by_cases inside : logedIn = 0
  · obtain rfl := holds.playing inside
    subst inside
    simp only [serviceRound, show ((0 : Int) ≠ -1) = True by decide, if_true, Program.perform_bind,
      Program.emits_call] at emitted
    obtain ⟨_, _, rfl, answer, _, rfl, emitted⟩ := emitted
    by_cases received : answer.1 = 0
    · simp only [received, ne_eq, not_true_eq_false, if_false, Program.emits_bind, Program.emits_call,
        Program.emits_pure] at emitted
      obtain ⟨acts, after, _, rfl, acted, _, _, rfl, rfl, rfl⟩ := emitted
      exact .inr ⟨_, rfl, goesOn answer acted⟩
    · simp only [received, ne_eq, not_false_eq_true, if_true, Program.emits_call, Program.emits_pure] at emitted
      obtain ⟨_, _, rfl, rfl, rfl⟩ := emitted
      exact .inl ⟨rfl, rfl, rfl⟩
  · obtain ⟨outside, pointed⟩ := holds.waiting inside
    obtain rfl : logedIn = -1 := outside
    obtain rfl : newPlayer = if asked then none else pointer := pointed
    simp only [serviceRound, ne_eq, not_true_eq_false, if_false, Program.perform_bind, Program.emits_call] at emitted
    obtain ⟨answer, _, rfl, emitted⟩ := emitted
    by_cases received : answer.1 = 0
    · simp only [received, not_true_eq_false, if_false, Program.emits_bind, Program.emits_call,
        Program.emits_pure] at emitted
      obtain ⟨acts, after, _, rfl, acted, _, _, rfl, rfl, rfl⟩ := emitted
      exact .inr ⟨_, rfl, goesOn answer acted⟩
    · simp only [received, not_false_eq_true, if_true, show ((-1 : Int) = 0) = False by decide, if_false,
        Program.emits_call, Program.emits_pure] at emitted
      obtain ⟨_, _, rfl, rfl, rfl⟩ := emitted
      refine .inl ⟨rfl, rfl, ?_⟩
      cases asked with
      | true => rfl
      | false =>
        obtain ⟨address, rfl⟩ := Option.ne_none_iff_exists'.mp allocated
        simp [runs, heapAfter, held, leftOver]

/-! ### The thread -/

theorem serviceLoop_blocks {fuel : Nat} {ended : Bool} (allocated : pointer ≠ none) (holds : st.Holds pointer asked)
    (emitted : (serviceLoop fd fuel st).Emits log ended) :
    runs heapAfter (held pointer) log =
      some (if ended then leftOver pointer (asked || log.any Event.asksLogin) else held pointer) := by
  induction fuel generalizing st log asked with
  | zero =>
    obtain ⟨rfl, rfl⟩ := emitted
    rfl
  | succ fuel ih =>
    simp only [serviceLoop, Program.emits_bind] at emitted
    obtain ⟨before, outcome, after, rfl, round, rest⟩ := emitted
    rw [runs_append, List.any_append, ← Bool.or_assoc]
    rcases serviceRound_blocks allocated holds round with ⟨rfl, asks, left⟩ | ⟨next, rfl, kept, holds⟩
    · obtain ⟨rfl, rfl⟩ := rest
      rw [left, asks, Bool.or_false, List.any_nil, Bool.or_false]
      rfl
    · rw [kept]
      exact ih holds rest

/-- What comes before the loop. -/
def opening (fd : Int) (pkt : MzwPacket) (datap : Payload) (pointer : PlayerPtr) : List Event :=
  [⟨.free .arg, ()⟩, ⟨.cregRegister fd, ()⟩, ⟨.mallocPacket, pkt⟩, ⟨.mallocDatap, datap⟩, ⟨.mallocPlayer, pointer⟩]

/-- No block is freed that is not allocated, whatever the calls of the thread return. When the thread
ends, all that it has allocated itself is freed but for the block taken for a player, which is left
allocated exactly if a LOGIN was honoured. -/
theorem service_blocks (fd : Int) (fuel : Nat) (log : List Event) (ended : Bool)
    (emitted : (mzwClientService fd fuel).Emits log ended)
    (allocated : ∀ pointer, (⟨.mallocPlayer, pointer⟩ : Event) ∈ log → pointer ≠ none) :
    ∃ pointer, (⟨.mallocPlayer, pointer⟩ : Event) ∈ log ∧
      runs heapAfter [.arg] log = some (
        if ended then if log.any Event.asksLogin then [.player pointer] else []
        else held pointer) := by
  simp only [mzwClientService, Program.perform_bind, Program.emits_call, Program.emits_bind] at emitted
  obtain ⟨_, _, rfl, _, _, rfl, pkt, _, rfl, datap, _, rfl, pointer, _, rfl, before, value, after, rfl, looped, rest⟩ :=
    emitted
  have member : (⟨.mallocPlayer, pointer⟩ : Event) ∈ opening fd pkt datap pointer ++ (before ++ after) := by simp [opening]
  have unasked : ServiceState.Holds ⟨pkt, datap, -1, pointer⟩ pointer false := ⟨rfl, rfl⟩
  have looping := serviceLoop_blocks (allocated pointer member) unasked looped
  have begun : runs heapAfter [.arg] (opening fd pkt datap pointer) = some (held pointer) := rfl
  have asks : (opening fd pkt datap pointer ++ (before ++ after)).any Event.asksLogin =
      (before.any Event.asksLogin || after.any Event.asksLogin) := by
    rw [List.any_append, List.any_append]
    rfl
  refine ⟨pointer, member, ?_⟩
  show runs heapAfter [.arg] (opening fd pkt datap pointer ++ (before ++ after)) =
    some (if ended then if (opening fd pkt datap pointer ++ (before ++ after)).any _ then _ else _ else _)
  rw [runs_append, begun, Option.bind_some, runs_append, looping, Option.bind_some, asks]
  cases value with
  | false =>
    obtain ⟨rfl, rfl⟩ := rest
    rfl
  | true =>
    simp only [if_true, Program.emits_call, Program.emits_pure] at rest
    obtain ⟨_, _, rfl, closed, _, rfl, _, _, rfl, _, _, rfl, rfl, rfl⟩ := rest
    cases asking : before.any Event.asksLogin <;> rfl

/-- The block of `Malloc` is left, as the player is another one. -/
theorem service_blocks_login : ∃ pointer, (⟨.mallocPlayer, pointer⟩ : Event) ∈ loginSession ∧
    runs heapAfter [.arg] loginSession = some [.player pointer] := by
  refine service_blocks 4 2 loginSession true loginSession_emitted fun pointer member => ?_
  simp [loginSession] at member
  rw [member]
  exact Option.some_ne_none 1

end MazeWar
