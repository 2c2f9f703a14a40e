import MazeWar.Registry.Traversal

/-!
# Who closes a descriptor

`main` accepts a connection and hands its descriptor to a service thread, which registers it,
serves, unregisters it and closes it. `creg_shutdown_all` closes what is registered. A number
that is closed may be given to a later connection.
-/

namespace MazeWar
open Foundation ClientRegistry

/-- The next step of the shutdown is a call of `close`. -/
def Cursor.closes : Cursor → Bool
  | .closing _ _ => true
  | .notStarted | .testing _ _ | .advancing _ _ | .left | .cleared | .finished => false

/-- How far the thread of a connection has come, with its variable `fd`. -/
inductive Stage where
  | pending
  | accepted (fd : Int)
  | serving (fd : Int)
  | stopped (fd : Int)
  | unregistered (fd : Int)
  | ended
  deriving DecidableEq, Repr

/-- The descriptor that the thread is still to close. -/
def Stage.fd : Stage → Option Int
  | .accepted fd | .serving fd | .stopped fd | .unregistered fd => some fd
  | .pending | .ended => none

/-- `owner` is the system's table of open descriptors, and `registrant` tells for which connection
a node of the registry was made. `calls` has every call of `close`: the connection that the
descriptor was accepted for, and the one that owned its number at the time. -/
structure Descriptors (Connection : Type) where
  registry : ClientRegistry
  cursor : Cursor
  stage : Connection → Stage
  owner : Int → Option Connection
  registrant : Nat → Option Connection
  calls : List (Option Connection × Option Connection)

inductive DescriptorAction (Connection : Type) where
  | accept (connection : Connection) (fd : Int)
  | register (connection : Connection)
  | stop (connection : Connection)
  | unregister (connection : Connection)
  | close (connection : Connection)
  | shutdown

namespace Descriptors
variable {Connection : Type} [DecidableEq Connection] (malloc : Allocator Int)

def start (heap : Heap Int) : Descriptors Connection :=
  ⟨cregInit heap, .notStarted, fun _ => .pending, fun _ => none, fun _ => none, []⟩

/-- The call `close(fd)` on the descriptor accepted for a connection. -/
def close (fd : Int) (connection : Option Connection) (s : Descriptors Connection) : Descriptors Connection :=
  { s with owner := Function.update s.owner fd none, calls := s.calls ++ [(connection, s.owner fd)] }

def enter (connection : Connection) (stage : Stage) (s : Descriptors Connection) : Descriptors Connection :=
  { s with stage := Function.update s.stage connection stage }

def step (s : Descriptors Connection) : DescriptorAction Connection → Option (Descriptors Connection)
  | .accept connection fd =>
    if s.stage connection = .pending ∧ 0 ≤ fd ∧ s.owner fd = none then
      some { s.enter connection (.accepted fd) with owner := Function.update s.owner fd (some connection) }
    else none
  | .register connection =>
    match s.stage connection with
    | .accepted fd => ((cregRegister fd).run (exec malloc) s.registry).map fun answer =>
      { s.enter connection (.serving fd) with
        registry := answer.2
        registrant := Function.update s.registrant (malloc.choose s.registry.heap) (some connection) }
    | _ => none
  | .stop connection =>
    match s.stage connection with
    | .serving fd => some (s.enter connection (.stopped fd))
    | _ => none
  | .unregister connection =>
    match s.stage connection with
    | .stopped fd => ((cregUnregister fd (s.registry.heap.keys.card + 1)).run (exec malloc) s.registry).map
      fun answer => { s.enter connection (.unregistered fd) with registry := answer.2 }
    | _ => none
  | .close connection =>
    match s.stage connection with
    | .unregistered fd => some ((s.close fd (some connection)).enter connection .ended)
    | _ => none
  | .shutdown => (traverse malloc (s.cursor, s.registry)).map fun answer =>
    let closed := match s.cursor with
      | .closing _ temp => (s.registry.read temp).elim s fun node => s.close node.value (temp.bind s.registrant)
      | _ => s
    { closed with cursor := answer.1, registry := answer.2 }

/-- No call of `close` is on a descriptor that its connection does not own, and when all threads
have ended each connection's descriptor has been closed once. -/
structure Tidy (s : Descriptors Connection) : Prop where
  owned : ∀ call ∈ s.calls, ∃ connection, call = (some connection, some connection)
  once : (∀ connection, (s.stage connection).fd = none) → ∀ connection, s.stage connection = .ended →
    (s.calls.filter fun call => call.1 = some connection).length = 1

/-- `creg_shutdown_all` closes no descriptor: its loop is never entered. -/
def Spared (s : Descriptors Connection) : DescriptorAction Connection → Prop
  | .shutdown => s.cursor.closes = false
  | .accept _ _ | .register _ | .stop _ | .unregister _ | .close _ => True

instance (s : Descriptors Connection) (action : DescriptorAction Connection) : Decidable (s.Spared action) :=
  match action with
  | .shutdown => inferInstanceAs (Decidable (s.cursor.closes = false))
  | .accept _ _ | .register _ | .stop _ | .unregister _ | .close _ => .isTrue trivial

/-! ### What a step does -/

section Steps
variable {s t : Descriptors Connection} {action : DescriptorAction Connection}

theorem enter_same {c : Connection} {stage : Stage} {fd : Int} (before : (s.stage c).fd = some fd)
    (after : stage.fd = some fd) (d : Connection) :
    (Function.update s.stage c stage d).fd = (s.stage d).fd ∧
      (Function.update s.stage c stage d = .ended ↔ s.stage d = .ended) := by
  rcases eq_or_ne d c with rfl | apart
  · rw [Function.update_self]
    refine ⟨after.trans before.symm, fun ended => ?_, fun ended => ?_⟩
    · rw [ended] at after
      cases after
    · rw [ended] at before
      cases before
  · rw [Function.update_of_ne apart]
    exact ⟨rfl, Iff.rfl⟩

/-- A step accepts a connection, leaves every descriptor where it is, closes one in its thread,
or closes one in the shutdown. -/
theorem step_cases (stepped : s.step malloc action = some t) :
    (∃ c fd, s.stage c = .pending ∧ s.owner fd = none ∧ t.stage = Function.update s.stage c (.accepted fd) ∧
      t.owner = Function.update s.owner fd (some c) ∧ t.calls = s.calls ∧ s.Spared action) ∨
    ((∀ d, (t.stage d).fd = (s.stage d).fd ∧ (t.stage d = .ended ↔ s.stage d = .ended)) ∧ t.owner = s.owner ∧
      t.calls = s.calls ∧ s.Spared action) ∨
    (∃ c fd, (s.stage c).fd = some fd ∧ t.stage = Function.update s.stage c .ended ∧
      t.owner = Function.update s.owner fd none ∧ t.calls = s.calls ++ [(some c, s.owner fd)] ∧ s.Spared action) ∨
    (∃ registrant fd, t.stage = s.stage ∧ t.owner = Function.update s.owner fd none ∧
      t.calls = s.calls ++ [(registrant, s.owner fd)] ∧ ¬ s.Spared action) := by
  cases action with
  | accept c fd =>
    obtain ⟨⟨pending, _, free⟩, same⟩ := Option.ite_none_right_eq_some.mp stepped
    cases same
    exact Or.inl ⟨c, fd, pending, free, rfl, rfl, rfl, trivial⟩
  | register c =>
    simp only [step] at stepped
    split at stepped
    · next fd here =>
      obtain ⟨_, _, rfl⟩ := Option.map_eq_some_iff.mp stepped
      exact Or.inr (Or.inl ⟨enter_same (by rw [here]; rfl : (s.stage c).fd = some fd) rfl, rfl, rfl, trivial⟩)
    · cases stepped
  | stop c =>
    simp only [step] at stepped
    split at stepped
    · next fd here =>
      cases stepped
      exact Or.inr (Or.inl ⟨enter_same (by rw [here]; rfl : (s.stage c).fd = some fd) rfl, rfl, rfl, trivial⟩)
    · cases stepped
  | unregister c =>
    simp only [step] at stepped
    split at stepped
    · next fd here =>
      obtain ⟨_, _, rfl⟩ := Option.map_eq_some_iff.mp stepped
      exact Or.inr (Or.inl ⟨enter_same (by rw [here]; rfl : (s.stage c).fd = some fd) rfl, rfl, rfl, trivial⟩)
    · cases stepped
  | close c =>
    simp only [step] at stepped
    split at stepped
    · next fd here =>
      cases stepped
      exact Or.inr (Or.inr (Or.inl ⟨c, fd, by rw [here]; rfl, rfl, rfl, rfl, trivial⟩))
    · cases stepped
  | shutdown =>
    obtain ⟨⟨cursor, registry⟩, traversed, rfl⟩ := Option.map_eq_some_iff.mp stepped
    obtain ⟨r, place, stage, owner, registrant, calls⟩ := s
    cases place with
    | closing i temp =>
      cases read : r.read temp with
      | none => simp [traverse, Cursor.program, regCall, Program.run_call, exec, read] at traversed
      | some node =>
        refine Or.inr (Or.inr (Or.inr ⟨temp.bind registrant, node.value, ?_⟩))
        simp [read, close, Spared, Cursor.closes]
    | notStarted | testing _ _ | advancing _ _ | left | cleared | finished =>
      exact Or.inr (Or.inl ⟨fun d => ⟨rfl, Iff.rfl⟩, rfl, rfl, rfl⟩)

/-! ### Owners -/

/-- Whoever owns a descriptor is still to close it. -/
def Owing (s : Descriptors Connection) : Prop := ∀ fd c, s.owner fd = some c → (s.stage c).fd = some fd

omit [DecidableEq Connection] in
/-- Closing a number leaves the other owners as they are. -/
theorem owner_closed {owner : Int → Option Connection} {fd other : Int} {d : Connection}
    (owns : Function.update owner fd none other = some d) : other ≠ fd ∧ owner other = some d := by
  rcases eq_or_ne other fd with rfl | apart
  · rw [Function.update_self] at owns
    cases owns
  · rw [Function.update_of_ne apart] at owns
    exact ⟨apart, owns⟩

theorem owing_step (owing : s.Owing) (stepped : s.step malloc action = some t) : t.Owing := by
  intro other d owns
  rcases step_cases malloc stepped with ⟨c, fd, pending, free, stage, owner, _, _⟩ | ⟨same, owner, _, _⟩ |
      ⟨c, fd, before, stage, owner, _, _⟩ | ⟨_, fd, stage, owner, _, _⟩
  · rw [owner] at owns
    rw [stage]
    rcases eq_or_ne other fd with rfl | apart
    · rw [Function.update_self] at owns
      cases owns
      rw [Function.update_self]
      rfl
    · rw [Function.update_of_ne apart] at owns
      have holds := owing other d owns
      have stays : d ≠ c := by
        rintro rfl
        rw [pending] at holds
        cases holds
      rw [Function.update_of_ne stays]
      exact holds
  · rw [(same d).1]
    exact owing other d (owner ▸ owns)
  · obtain ⟨apart, owns⟩ := owner_closed (owner ▸ owns)
    have holds := owing other d owns
    have stays : d ≠ c := by
      rintro rfl
      exact apart (Option.some.inj (holds.symm.trans before))
    rw [stage, Function.update_of_ne stays]
    exact holds
  · obtain ⟨_, owns⟩ := owner_closed (owner ▸ owns)
    rw [stage]
    exact owing other d owns

/-! ### Runs in which the shutdown closes nothing -/

/-- Each thread owns the descriptor that it is still to close, and has closed none or its own. -/
structure Custody (s : Descriptors Connection) : Prop where
  held : ∀ c fd, (s.stage c).fd = some fd → s.owner fd = some c
  owned : ∀ call ∈ s.calls, ∃ c, call = (some c, some c)
  counted : ∀ c, (s.calls.filter fun call => call.1 = some c).length = if s.stage c = .ended then 1 else 0

theorem custody_step (custody : s.Custody) (spared : s.Spared action) (stepped : s.step malloc action = some t) :
    t.Custody := by
  obtain ⟨held, owned, counted⟩ := custody
  rcases step_cases malloc stepped with ⟨c, fd, pending, free, stage, owner, calls, _⟩ | ⟨same, owner, calls, _⟩ |
      ⟨c, fd, before, stage, owner, calls, _⟩ | ⟨_, _, _, _, _, broken⟩
  · refine ⟨fun d other holds => ?_, calls ▸ owned, fun d => ?_⟩
    · rw [stage] at holds
      rw [owner]
      rcases eq_or_ne d c with rfl | apart
      · rw [Function.update_self] at holds
        cases holds
        exact Function.update_self _ _ _
      · rw [Function.update_of_ne apart] at holds
        have stays : other ≠ fd := by
          rintro rfl
          cases (held d other holds).symm.trans free
        rw [Function.update_of_ne stays]
        exact held d other holds
    · rw [calls, counted d, stage]
      rcases eq_or_ne d c with rfl | apart
      · simp [pending]
      · rw [Function.update_of_ne apart]
  · refine ⟨fun d other holds => ?_, calls ▸ owned, fun d => ?_⟩
    · rw [owner]
      exact held d other ((same d).1 ▸ holds)
    · rw [calls, counted d]
      simp only [(same d).2]
  · have own := held c fd before
    refine ⟨fun d other holds => ?_, fun call member => ?_, fun d => ?_⟩
    · rw [stage] at holds
      rw [owner]
      rcases eq_or_ne d c with rfl | apart
      · rw [Function.update_self] at holds
        cases holds
      · rw [Function.update_of_ne apart] at holds
        have stays : other ≠ fd := by
          rintro rfl
          exact apart (Option.some.inj ((held d other holds).symm.trans own))
        rw [Function.update_of_ne stays]
        exact held d other holds
    · rw [calls, own] at member
      rcases List.mem_append.mp member with early | last
      · exact owned call early
      · exact ⟨c, List.mem_singleton.mp last⟩
    · rw [calls, List.filter_append, List.length_append, counted d, stage]
      rcases eq_or_ne d c with rfl | apart
      · have active : s.stage d ≠ .ended := by
          intro ended
          rw [ended] at before
          cases before
        simp [active]
      · simp [Function.update_of_ne apart, Ne.symm apart]
  · exact absurd spared broken

theorem Custody.tidy (custody : s.Custody) : s.Tidy := by
  refine ⟨custody.owned, fun _ c ended => ?_⟩
  rw [custody.counted c, if_pos ended]

/-! ### Runs in which it closes a descriptor -/

/-- A descriptor was closed that its connection did not own, or a thread is still to close one
that it has lost. -/
def Lost (s : Descriptors Connection) : Prop :=
  (∃ call ∈ s.calls, ∀ c, call ≠ (some c, some c)) ∨ ∃ c, (s.stage c).fd ≠ none ∧ ∀ fd, s.owner fd ≠ some c

theorem lost_shutdown (owing : s.Owing) (closes : ¬ s.Spared action) (stepped : s.step malloc action = some t) :
    t.Lost := by
  rcases step_cases malloc stepped with ⟨_, _, _, _, _, _, _, spared⟩ | ⟨_, _, _, spared⟩ | ⟨_, _, _, _, _, _, spared⟩ |
      ⟨registrant, fd, stage, owner, calls, _⟩
  · exact absurd spared closes
  · exact absurd spared closes
  · exact absurd spared closes
  · have called : (registrant, s.owner fd) ∈ t.calls := by
      rw [calls]
      exact List.mem_append_right _ (List.mem_singleton_self _)
    by_cases own : ∃ c, (registrant, s.owner fd) = (some c, some c)
    · obtain ⟨c, same⟩ := own
      have holds := owing fd c (Prod.mk.inj same).2
      refine Or.inr ⟨c, by rw [stage, holds]; simp, fun other owns => ?_⟩
      obtain ⟨apart, owns⟩ := owner_closed (owner ▸ owns)
      exact apart (Option.some.inj ((owing other c owns).symm.trans holds))
    · exact Or.inl ⟨_, called, not_exists.mp own⟩

theorem lost_step (lost : s.Lost) (stepped : s.step malloc action = some t) : t.Lost := by
  have kept : ∀ call ∈ s.calls, call ∈ t.calls := by
    intro call member
    rcases step_cases malloc stepped with ⟨_, _, _, _, _, _, calls, _⟩ | ⟨_, _, calls, _⟩ | ⟨_, _, _, _, _, calls, _⟩ |
        ⟨_, _, _, _, calls, _⟩
    · rwa [calls]
    · rwa [calls]
    · rw [calls]
      exact List.mem_append_left _ member
    · rw [calls]
      exact List.mem_append_left _ member
  rcases lost with ⟨call, member, stray⟩ | ⟨d, active, lacks⟩
  · exact Or.inl ⟨call, kept call member, stray⟩
  · rcases step_cases malloc stepped with ⟨c, fd, pending, _, stage, owner, _, _⟩ | ⟨same, owner, _, _⟩ |
        ⟨c, fd, before, stage, owner, calls, _⟩ | ⟨_, fd, stage, owner, _, _⟩
    · have apart : d ≠ c := by
        rintro rfl
        rw [pending] at active
        exact active rfl
      refine Or.inr ⟨d, by rw [stage, Function.update_of_ne apart]; exact active, fun other owns => ?_⟩
      rw [owner] at owns
      rcases eq_or_ne other fd with rfl | elsewhere
      · rw [Function.update_self] at owns
        exact apart (Option.some.inj owns).symm
      · rw [Function.update_of_ne elsewhere] at owns
        exact lacks other owns
    · exact Or.inr ⟨d, by rw [(same d).1]; exact active, by rw [owner]; exact lacks⟩
    · rcases eq_or_ne d c with rfl | apart
      -- The thread has closed what it had lost.
      · refine Or.inl ⟨(some d, s.owner fd), ?_, fun c same => ?_⟩
        · rw [calls]
          exact List.mem_append_right _ (List.mem_singleton_self _)
        · obtain ⟨own, owns⟩ := Prod.mk.inj same
          exact lacks fd (owns.trans own.symm)
      · refine Or.inr ⟨d, by rw [stage, Function.update_of_ne apart]; exact active, fun other owns => ?_⟩
        exact lacks other (owner_closed (owner ▸ owns)).2
    · exact Or.inr ⟨d, by rw [stage]; exact active, fun other owns => lacks other (owner_closed (owner ▸ owns)).2⟩

theorem Lost.not_tidy (lost : s.Lost) (ended : ∀ c, (s.stage c).fd = none) : ¬ s.Tidy := by
  intro tidy
  rcases lost with ⟨call, member, stray⟩ | ⟨c, active, _⟩
  · obtain ⟨c, same⟩ := tidy.owned call member
    exact stray c same
  · exact active (ended c)

end Steps

omit [DecidableEq Connection] in
theorem start_owing (heap : Heap Int) : (start heap : Descriptors Connection).Owing := by
  intro fd c owns
  cases owns

theorem start_custody (heap : Heap Int) : (start heap : Descriptors Connection).Custody :=
  ⟨fun c fd holds => (Option.some_ne_none fd holds.symm).elim, by simp [start], by simp [start]⟩

end Descriptors

/-- If the shutdown closes no descriptor, then each connection's descriptor is closed once, by
the thread that owns it. In a run that all threads end in, it is so only then. -/
theorem descriptors_closed_once {Connection : Type} [DecidableEq Connection] (malloc : Allocator Int)
    (heap : Heap Int) (actions : List (DescriptorAction Connection)) (s : Descriptors Connection)
    (ran : runs (Descriptors.step malloc) (Descriptors.start heap) actions = some s) :
    (Guarded (Descriptors.step malloc) Descriptors.Spared (Descriptors.start heap) actions → s.Tidy) ∧
      ((∀ c, (s.stage c).fd = none) → s.Tidy →
        Guarded (Descriptors.step malloc) Descriptors.Spared (Descriptors.start heap) actions) := by
  refine ⟨fun spared => ?_, fun ended tidy => ?_⟩
  · have custody : s.Custody := runs_guarded_invariant
      (fun _ _ _ custody allowed stepped => Descriptors.custody_step malloc custody allowed stepped)
      (Descriptors.start_custody heap) spared ran
    exact custody.tidy
  · exact guarded_of_runs (fun _ _ _ owing stepped => Descriptors.owing_step malloc owing stepped)
      (fun _ _ _ owing closes stepped => Descriptors.lost_shutdown malloc owing closes stepped)
      (fun _ _ _ lost stepped => Descriptors.lost_step malloc lost stepped)
      (Descriptors.start_owing heap) ran fun lost => lost.not_tidy ended tidy

/-- A later connection gets the same number, and the shutdown finds nobody registered. -/
theorem descriptors_closed_once_reused : ∃ s : Descriptors Bool, runs (Descriptors.step (Allocator.beyond Int))
    (Descriptors.start ∅) [.accept false 4, .register false, .stop false, .unregister false, .close false,
      .accept true 4, .shutdown, .shutdown, .register true, .shutdown, .stop true, .unregister true, .close true] =
        some s ∧ s.Tidy := by
  have ended : (runs (Descriptors.step (Allocator.beyond Int)) (Descriptors.start ∅)
      [.accept false 4, .register false, .stop false, .unregister false, .close false,
        .accept true 4, .shutdown, .shutdown, .register true, .shutdown, .stop true, .unregister true, .close true]).map
          (fun s => s.stage) = some fun _ => .ended := by decide
  obtain ⟨s, ran, _⟩ := Option.map_eq_some_iff.mp ended
  exact ⟨s, ran, (descriptors_closed_once _ ∅ _ s ran).1 (by decide)⟩

/-- The thread of the first connection closes the descriptor of the second. -/
theorem shutdown_closes_twice :
    ¬ ∀ (Connection : Type) [DecidableEq Connection] (malloc : Allocator Int) (heap : Heap Int)
      (actions : List (DescriptorAction Connection)) (s : Descriptors Connection),
      runs (Descriptors.step malloc) (Descriptors.start heap) actions = some s → s.Tidy := by
  intro tidy
  have closed : (runs (Descriptors.step (Allocator.beyond Int)) (Descriptors.start ∅)
      [.accept false 4, .register false, .shutdown, .shutdown, .shutdown, .accept true 4, .stop false,
        .unregister false, .close false]).map (fun s => s.calls) =
          some [(some false, some false), (some false, some true)] := by decide
  obtain ⟨s, ran, calls⟩ := Option.map_eq_some_iff.mp closed
  obtain ⟨c, same⟩ := (tidy Bool _ ∅ _ s ran).owned (some false, some true) (by rw [calls]; decide)
  cases same

end MazeWar
