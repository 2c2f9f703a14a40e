import MazeWar.Foundation.Program
import MazeWar.Foundation.Runs

/-!
# The listening socket

`open_listenfd` walks the addresses of a port for one that it can bind to. It returns a descriptor that
listens there, or gives back whatever it has taken from the system on the way.
-/

namespace MazeWar
open Foundation
variable {Port Address : Type}

/-- The calls of the system. An address stands for an entry of the list that `getaddrinfo` allocates. -/
inductive SocketOp (Port Address : Type) where
  | getaddrinfo (port : Port)
  | socket (p : Address)
  | setsockopt (listenfd : Int)
  | bind (listenfd : Int) (p : Address)
  | close (listenfd : Int)
  | freeaddrinfo
  | listen (listenfd : Int)

/-- `getaddrinfo` returns its code and the list. -/
abbrev SocketOp.Res : SocketOp Port Address → Type
  | .getaddrinfo _ => Int × List Address
  | .freeaddrinfo => Unit
  | .socket _ | .setsockopt _ | .bind _ _ | .close _ | .listen _ => Int

abbrev SocketProgram (Port Address : Type) := Program (SocketOp Port Address) SocketOp.Res

abbrev SocketEvent (Port Address : Type) := (op : SocketOp Port Address) × op.Res

/-- The loop: the descriptor that is bound, or none if the list is used up. `none` when the function
has returned from the loop because `close` failed. -/
def walkAddresses : List Address → SocketProgram Port Address (Option (Option Int))
  | [] => return some none
  | p :: rest => do
    let listenfd ← Program.perform (.socket p)
    if listenfd < 0 then walkAddresses rest
    else
      let _ ← Program.perform (.setsockopt listenfd)
      if (← Program.perform (.bind listenfd p)) = 0 then return some (some listenfd)
      if (← Program.perform (.close listenfd)) < 0 then return none
      walkAddresses rest

def openListenfd (port : Port) : SocketProgram Port Address Int := do
  let answer ← Program.perform (SocketOp.getaddrinfo port : SocketOp Port Address)
  if answer.1 ≠ 0 then return -2
  match ← walkAddresses answer.2 with
  | none => return -1
  | some found =>
    Program.perform SocketOp.freeaddrinfo
    match found with
    | none => return -1
    | some listenfd =>
      if (← Program.perform (.listen listenfd)) < 0 then
        let _ ← Program.perform (.close listenfd)
        return -1
      return listenfd

/-! ### What the system keeps -/

inductive SocketStage (Address : Type) where
  | created
  | bound (p : Address)
  | listening (p : Address)

/-- The open sockets, and the number of address lists that are allocated. -/
structure SocketTable (Address : Type) where
  sockets : Int → Option (SocketStage Address)
  lists : Nat

namespace SocketTable

/-- What a call changes; `none` for a call that the descriptor or the list does not allow. A call that
fails changes nothing, but for a `close` where the system does not let the descriptor linger. -/
def step (lingers : Bool) (w : SocketTable Address) : SocketEvent Port Address → Option (SocketTable Address)
  | ⟨.getaddrinfo _, answer⟩ => some (if answer.1 = 0 then { w with lists := w.lists + 1 } else w)
  | ⟨.socket _, fd⟩ =>
    some (if fd < 0 then w else { w with sockets := Function.update w.sockets fd (some .created) })
  | ⟨.setsockopt fd, _⟩ => if (w.sockets fd).isSome then some w else none
  | ⟨.bind fd p, result⟩ =>
    match w.sockets fd with
    | some .created =>
      some (if result = 0 then { w with sockets := Function.update w.sockets fd (some (.bound p)) } else w)
    | _ => none
  | ⟨.close fd, result⟩ =>
    if (w.sockets fd).isSome then
      some (if result < 0 ∧ lingers then w else { w with sockets := Function.update w.sockets fd none })
    else none
  | ⟨.freeaddrinfo, _⟩ => if 0 < w.lists then some { w with lists := w.lists - 1 } else none
  | ⟨.listen fd, result⟩ =>
    match w.sockets fd with
    | some (.bound p) =>
      some (if result < 0 then w else { w with sockets := Function.update w.sockets fd (some (.listening p)) })
    | _ => none

/-- The system gives a socket a descriptor that is not in use. -/
def Fresh (w : SocketTable Address) : SocketEvent Port Address → Prop
  | ⟨.socket _, fd⟩ => 0 ≤ fd → w.sockets fd = none
  | _ => True

def withList (w : SocketTable Address) : SocketTable Address := { w with lists := w.lists + 1 }

def withSocket (w : SocketTable Address) (fd : Int) (stage : SocketStage Address) : SocketTable Address :=
  { w with sockets := Function.update w.sockets fd (some stage) }

end SocketTable

/-- The event is a `close` that fails. -/
def SocketEvent.stuck : SocketEvent Port Address → Bool
  | ⟨.close _, result⟩ => result < 0
  | _ => false

variable {lingers : Bool} {w t : SocketTable Address} {log : List (SocketEvent Port Address)} {listp : List Address}
  {port : Port}

namespace SocketTable
variable {fd : Int} {stage : SocketStage Address} {p : Address}

@[simp] theorem sockets_withSocket : (w.withSocket fd stage).sockets fd = some stage := Function.update_self ..

theorem close_withSocket (free : w.sockets fd = none) :
    { w with sockets := Function.update (w.withSocket fd stage).sockets fd none } = w := by
  have restored : Function.update (w.withSocket fd stage).sockets fd none = w.sockets := by
    rw [withSocket, Function.update_idem, ← free, Function.update_eq_self]
  rw [restored]

theorem runs_listed {rest : List (SocketEvent Port Address)} :
    runs (step lingers) w (⟨.getaddrinfo port, (0, listp)⟩ :: rest) = runs (step lingers) w.withList rest := by
  simp [runs, step, withList]

theorem step_socket (valid : 0 ≤ fd) :
    step lingers w (⟨.socket p, fd⟩ : SocketEvent Port Address) = some (w.withSocket fd .created) := by
  rw [step, if_neg (not_lt.mpr valid)]
  rfl

theorem step_setsockopt {optval : Int} :
    step lingers (w.withSocket fd stage) (⟨.setsockopt fd, optval⟩ : SocketEvent Port Address) =
      some (w.withSocket fd stage) := by
  simp [step]

theorem step_bind : step lingers (w.withSocket fd .created) (⟨.bind fd p, 0⟩ : SocketEvent Port Address) =
    some (w.withSocket fd (.bound p)) := by
  simp [step, withSocket]

theorem step_bind_refused {code : Int} (refused : code ≠ 0) :
    step lingers (w.withSocket fd .created) (⟨.bind fd p, code⟩ : SocketEvent Port Address) =
      some (w.withSocket fd .created) := by
  simp [step, refused]

theorem step_freeaddrinfo {done : Unit} :
    step lingers w.withList (⟨.freeaddrinfo, done⟩ : SocketEvent Port Address) = some w := by
  simp [step, withList]

theorem withList_withSocket : w.withList.withSocket fd stage = (w.withSocket fd stage).withList := rfl

theorem step_listen {listens : Int} (accepted : 0 ≤ listens) :
    step lingers (w.withSocket fd (.bound p)) (⟨.listen fd, listens⟩ : SocketEvent Port Address) =
      some (w.withSocket fd (.listening p)) := by
  simp [step, withSocket, not_lt.mpr accepted]

theorem step_listen_refused {listens : Int} (refused : listens < 0) :
    step lingers (w.withSocket fd (.bound p)) (⟨.listen fd, listens⟩ : SocketEvent Port Address) =
      some (w.withSocket fd (.bound p)) := by
  simp [step, refused]

/-- Closing a new socket takes back that it was opened, unless that fails and the descriptor lingers. -/
theorem step_close (free : w.sockets fd = none) (closed : Int) :
    ∃ t, step lingers (w.withSocket fd stage) (⟨.close fd, closed⟩ : SocketEvent Port Address) = some t ∧
      t.lists = w.lists ∧ (t.sockets = w.sockets ↔ (lingers = true → ¬ closed < 0)) := by
  simp only [step, sockets_withSocket, Option.isSome_some, if_true]
  by_cases stays : closed < 0 ∧ lingers
  · refine ⟨_, rfl, by rw [if_pos stays]; rfl, iff_of_false ?_ fun passes => passes stays.2 stays.1⟩
    intro same
    rw [if_pos stays] at same
    have opened : (w.withSocket fd stage).sockets fd = some stage := sockets_withSocket
    rw [same, free] at opened
    cases opened
  · refine ⟨_, rfl, by rw [if_neg stays]; rfl, iff_of_true ?_ fun lingering failed => stays ⟨failed, lingering⟩⟩
    rw [if_neg stays]
    exact congrArg SocketTable.sockets (close_withSocket free)

end SocketTable

/-! ### The walk -/

/-- The calls for an address that does not do: no socket, or one that cannot be bound and is closed. -/
def FailedAt (p : Address) (attempt : List (SocketEvent Port Address)) : Prop :=
  (∃ fd < 0, attempt = [⟨.socket p, fd⟩]) ∨
  ∃ fd optval code closed, 0 ≤ fd ∧ code ≠ 0 ∧ 0 ≤ closed ∧
    attempt = [⟨.socket p, fd⟩, ⟨.setsockopt fd, optval⟩, ⟨.bind fd p, code⟩, ⟨.close fd, closed⟩]

/-- What the walk does: each address that it has passed has failed, and it has used up the list, or bound a
socket, or given up at one that it could not close. -/
inductive Walked (listp : List Address) (log : List (SocketEvent Port Address)) : Option (Option Int) → Prop
  | nowhere {attempts : List (List (SocketEvent Port Address))} (failed : List.Forall₂ FailedAt listp attempts)
    (made : log = attempts.flatten) : Walked listp log (some none)
  | bound {before after : List Address} {p : Address} {attempts : List (List (SocketEvent Port Address))} {fd optval : Int}
    (listed : listp = before ++ p :: after) (failed : List.Forall₂ FailedAt before attempts) (valid : 0 ≤ fd)
    (made : log = attempts.flatten ++ [⟨.socket p, fd⟩, ⟨.setsockopt fd, optval⟩, ⟨.bind fd p, 0⟩]) :
    Walked listp log (some (some fd))
  | abandoned {before after : List Address} {p : Address} {attempts : List (List (SocketEvent Port Address))}
    {fd optval code closed : Int} (listed : listp = before ++ p :: after) (failed : List.Forall₂ FailedAt before attempts)
    (valid : 0 ≤ fd) (refused : code ≠ 0) (stuck : closed < 0)
    (made : log = attempts.flatten ++
      [⟨.socket p, fd⟩, ⟨.setsockopt fd, optval⟩, ⟨.bind fd p, code⟩, ⟨.close fd, closed⟩]) : Walked listp log none

theorem Walked.after_attempt {found : Option (Option Int)} {p : Address} {attempt : List (SocketEvent Port Address)}
    (walked : Walked listp log found) (first : FailedAt p attempt) : Walked (p :: listp) (attempt ++ log) found := by
  cases walked with
  | nowhere failed made => exact .nowhere (.cons first failed) (by rw [made]; rfl)
  | @bound before after q attempts fd optval listed failed valid made =>
    exact .bound (by rw [listed, List.cons_append]) (.cons first failed) valid
      (by rw [made, List.flatten_cons, List.append_assoc])
  | @abandoned before after q attempts fd optval code closed listed failed valid refused stuck made =>
    exact .abandoned (by rw [listed, List.cons_append]) (.cons first failed) valid refused stuck
      (by rw [made, List.flatten_cons, List.append_assoc])

theorem walkAddresses_walked {found : Option (Option Int)} (emitted : (walkAddresses listp).Emits log found) :
    Walked listp log found := by
  induction listp generalizing log with
  | nil =>
    obtain ⟨rfl, rfl⟩ := emitted
    exact .nowhere .nil rfl
  | cons p rest ih =>
    simp only [walkAddresses, Program.perform_bind, Program.emits_call] at emitted
    obtain ⟨fd, log, rfl, emitted⟩ := emitted
    by_cases failed : fd < 0
    · rw [if_pos failed] at emitted
      exact (ih emitted).after_attempt (.inl ⟨fd, failed, rfl⟩)
    · rw [if_neg failed] at emitted
      simp only [Program.emits_call] at emitted
      obtain ⟨optval, log, rfl, code, log, rfl, emitted⟩ := emitted
      by_cases bound : code = 0
      · rw [if_pos bound] at emitted
        obtain ⟨rfl, rfl⟩ := emitted
        exact .bound (List.nil_append (p :: rest)).symm .nil (not_lt.mp failed) (by rw [bound]; rfl)
      · rw [if_neg bound] at emitted
        simp only [Program.emits_call] at emitted
        obtain ⟨closed, log, rfl, emitted⟩ := emitted
        by_cases stuck : closed < 0
        · rw [if_pos stuck] at emitted
          obtain ⟨rfl, rfl⟩ := emitted
          exact .abandoned (List.nil_append (p :: rest)).symm .nil (not_lt.mp failed) bound stuck rfl
        · rw [if_neg stuck] at emitted
          exact (ih emitted).after_attempt
            (.inr ⟨fd, optval, code, closed, not_lt.mp failed, bound, not_lt.mp stuck, rfl⟩)

/-! ### What it leaves -/

/-- An attempt that fails changes nothing. -/
theorem FailedAt.table {p : Address} {attempt : List (SocketEvent Port Address)} (failed : FailedAt p attempt)
    (fresh : Guarded (SocketTable.step lingers) SocketTable.Fresh w attempt) :
    runs (SocketTable.step lingers) w attempt = some w ∧ attempt.any SocketEvent.stuck = false := by
  rcases failed with ⟨fd, negative, rfl⟩ | ⟨fd, optval, code, closed, valid, refused, released, rfl⟩
  · exact ⟨by simp [runs, SocketTable.step, negative], rfl⟩
  · refine ⟨?_, by simp [SocketEvent.stuck, released]⟩
    have restored : SocketTable.step lingers (w.withSocket fd .created) (⟨.close fd, closed⟩ : SocketEvent Port Address) =
        some w := by
      simp only [SocketTable.step, SocketTable.sockets_withSocket, Option.isSome_some, if_true, not_lt.mpr released,
        false_and, if_false]
      exact congrArg some (SocketTable.close_withSocket (fresh.1 valid))
    simp only [runs, SocketTable.step_socket valid, SocketTable.step_setsockopt, SocketTable.step_bind_refused refused,
      restored, Option.bind_some]

theorem failed_table {before : List Address} {attempts : List (List (SocketEvent Port Address))}
    (failed : List.Forall₂ FailedAt before attempts) {rest : List (SocketEvent Port Address)}
    (fresh : Guarded (SocketTable.step lingers) SocketTable.Fresh w (attempts.flatten ++ rest)) :
    runs (SocketTable.step lingers) w attempts.flatten = some w ∧ attempts.flatten.any SocketEvent.stuck = false := by
  induction failed with
  | nil => exact ⟨rfl, rfl⟩
  | cons first later ih =>
    rw [List.flatten_cons, List.append_assoc] at fresh
    obtain ⟨same, released⟩ := first.table fresh.earlier
    obtain ⟨same', released'⟩ := ih (fresh.later same)
    rw [List.flatten_cons, runs_append, same, Option.bind_some, List.any_append, released, released']
    exact ⟨same', rfl⟩

/-- The walk has given up at a socket that it could neither bind nor close. -/
def Abandoned (log : List (SocketEvent Port Address)) : Prop :=
  ∃ earlier fd p code closed, log = earlier ++ [⟨.bind fd p, code⟩, ⟨.close fd, closed⟩]

theorem Abandoned.last {earlier : List (SocketEvent Port Address)} {event : SocketEvent Port Address}
    (abandoned : Abandoned (earlier ++ [event])) : ∃ fd closed, event = ⟨.close fd, closed⟩ := by
  obtain ⟨before, fd, p, code, closed, same⟩ := abandoned
  rw [List.append_cons before] at same
  exact ⟨fd, closed, List.singleton_inj.mp (List.append_inj' same rfl).2⟩

theorem Abandoned.penultimate {earlier : List (SocketEvent Port Address)} {event event' : SocketEvent Port Address}
    (abandoned : Abandoned (earlier ++ [event, event'])) : ∃ fd p code, event = ⟨.bind fd p, code⟩ := by
  obtain ⟨before, fd, p, code, closed, same⟩ := abandoned
  exact ⟨fd, p, code, (List.cons.inj (List.append_inj' same rfl).2).1⟩

/-- What is left after the function has given up: the open sockets are those of before exactly if each socket
that it gave up was closed, and the list of addresses is released exactly if the walk was not abandoned. -/
structure Withdrawn (lingers : Bool) (w t : SocketTable Address) (log : List (SocketEvent Port Address)) : Prop where
  sockets : t.sockets = w.sockets ↔ (lingers = true → log.any SocketEvent.stuck = false)
  lists : t.lists = w.lists ↔ ¬ Abandoned log

/-- A log of calls that has each address before `p` fail, and that listens on a socket bound to `p`. -/
def ListensAt (port : Port) (p : Address) (listenfd : Int) (log : List (SocketEvent Port Address)) : Prop :=
  ∃ before after attempts optval listens, List.Forall₂ FailedAt before attempts ∧ 0 ≤ listens ∧
    log = ⟨.getaddrinfo port, (0, before ++ p :: after)⟩ :: (attempts.flatten ++
      [⟨.socket p, listenfd⟩, ⟨.setsockopt listenfd, optval⟩, ⟨.bind listenfd p, 0⟩, ⟨.freeaddrinfo, ()⟩,
        ⟨.listen listenfd, listens⟩])

/-! ### How the function ends -/

section Ends
variable {before : List Address} {p : Address} {attempts : List (List (SocketEvent Port Address))}
  {fd optval code closed listens : Int} {log : List (SocketEvent Port Address)}

theorem unlisted_withdraws {answer : Int × List Address} (failed : answer.1 ≠ 0)
    (made : log = [⟨.getaddrinfo port, answer⟩]) :
    ∃ t, runs (SocketTable.step lingers) w log = some t ∧ Withdrawn lingers w t log := by
  rw [made]
  refine ⟨w, by simp [runs, SocketTable.step, failed], iff_of_true rfl fun _ => rfl, iff_of_true rfl ?_⟩
  intro abandoned
  obtain ⟨_, _, other⟩ := @Abandoned.last Port Address [] _ abandoned
  cases other

theorem nowhere_withdraws {done : Unit} (failed : List.Forall₂ FailedAt listp attempts)
    (made : log = ⟨.getaddrinfo port, (0, listp)⟩ :: (attempts.flatten ++ [⟨.freeaddrinfo, done⟩]))
    (fresh : Guarded (SocketTable.step lingers) SocketTable.Fresh w.withList (attempts.flatten ++ [⟨.freeaddrinfo, done⟩])) :
    ∃ t, runs (SocketTable.step lingers) w log = some t ∧ Withdrawn lingers w t log := by
  obtain ⟨same, closes⟩ := failed_table failed fresh
  rw [made]
  refine ⟨w, ?_, iff_of_true rfl fun _ => ?_, iff_of_true rfl fun abandoned => ?_⟩
  · rw [SocketTable.runs_listed, runs_append, same, Option.bind_some, runs, SocketTable.step_freeaddrinfo]
    rfl
  · rw [List.any_cons, List.any_append, closes]
    rfl
  · rw [← List.cons_append] at abandoned
    obtain ⟨_, _, other⟩ := abandoned.last
    cases other

theorem abandoned_withdraws (failed : List.Forall₂ FailedAt before attempts) (valid : 0 ≤ fd) (refused : code ≠ 0)
    (unclosed : closed < 0)
    (made : log = ⟨.getaddrinfo port, (0, listp)⟩ :: (attempts.flatten ++
      [⟨.socket p, fd⟩, ⟨.setsockopt fd, optval⟩, ⟨.bind fd p, code⟩, ⟨.close fd, closed⟩]))
    (fresh : Guarded (SocketTable.step lingers) SocketTable.Fresh w.withList (attempts.flatten ++
      [⟨.socket p, fd⟩, ⟨.setsockopt fd, optval⟩, ⟨.bind fd p, code⟩, ⟨.close fd, closed⟩])) :
    ∃ t, runs (SocketTable.step lingers) w log = some t ∧ Withdrawn lingers w t log := by
  obtain ⟨same, _⟩ := failed_table failed fresh
  have free : w.withList.sockets fd = none := (fresh.later same).1 valid
  obtain ⟨t, left, lists, sockets⟩ := @SocketTable.step_close Port Address lingers w.withList fd .created free closed
  rw [made]
  refine ⟨t, ?_, sockets.trans ?_, ?_⟩
  · rw [SocketTable.runs_listed, runs_append, same, Option.bind_some]
    simp only [runs, SocketTable.step_socket valid, SocketTable.step_setsockopt, SocketTable.step_bind_refused refused, left,
      Option.bind_some]
  · simp [SocketEvent.stuck, unclosed]
  · rw [lists]
    refine iff_of_false (Nat.succ_ne_self _) (not_not.mpr ?_)
    exact ⟨⟨.getaddrinfo port, (0, listp)⟩ :: (attempts.flatten ++ [⟨.socket p, fd⟩, ⟨.setsockopt fd, optval⟩]), fd, p, code,
      closed, by simp⟩

/-- The walk and the release of the list leave a socket that is bound. -/
theorem bound_runs {done : Unit} (failed : List.Forall₂ FailedAt before attempts) (valid : 0 ≤ fd)
    {last : List (SocketEvent Port Address)}
    (fresh : Guarded (SocketTable.step lingers) SocketTable.Fresh w.withList (attempts.flatten ++
      [⟨.socket p, fd⟩, ⟨.setsockopt fd, optval⟩, ⟨.bind fd p, 0⟩] ++ ⟨.freeaddrinfo, done⟩ :: last)) :
    w.sockets fd = none ∧ runs (SocketTable.step lingers) w.withList (attempts.flatten ++
      [⟨.socket p, fd⟩, ⟨.setsockopt fd, optval⟩, ⟨.bind fd p, 0⟩] ++ ⟨.freeaddrinfo, done⟩ :: last) =
        runs (SocketTable.step lingers) (w.withSocket fd (.bound p)) last := by
  obtain ⟨same, _⟩ := failed_table failed fresh.earlier
  refine ⟨(fresh.earlier.later same).1 valid, ?_⟩
  rw [runs_append, runs_append, same, Option.bind_some]
  simp only [runs, SocketTable.step_socket valid, SocketTable.step_setsockopt, SocketTable.step_bind, Option.bind_some]
  rw [SocketTable.withList_withSocket, SocketTable.step_freeaddrinfo, Option.bind_some]

theorem refused_withdraws {done : Unit} (failed : List.Forall₂ FailedAt before attempts) (valid : 0 ≤ fd)
    (refused : listens < 0)
    (made : log = ⟨.getaddrinfo port, (0, listp)⟩ :: (attempts.flatten ++
      [⟨.socket p, fd⟩, ⟨.setsockopt fd, optval⟩, ⟨.bind fd p, 0⟩] ++
      [⟨.freeaddrinfo, done⟩, ⟨.listen fd, listens⟩, ⟨.close fd, closed⟩]))
    (fresh : Guarded (SocketTable.step lingers) SocketTable.Fresh w.withList (attempts.flatten ++
      [⟨.socket p, fd⟩, ⟨.setsockopt fd, optval⟩, ⟨.bind fd p, 0⟩] ++
      [⟨.freeaddrinfo, done⟩, ⟨.listen fd, listens⟩, ⟨.close fd, closed⟩])) :
    ∃ t, runs (SocketTable.step lingers) w log = some t ∧ Withdrawn lingers w t log := by
  obtain ⟨_, closes⟩ := failed_table failed fresh.earlier
  obtain ⟨free, walked⟩ := bound_runs failed valid fresh
  obtain ⟨t, left, lists, sockets⟩ := @SocketTable.step_close Port Address lingers w fd (.bound p) free closed
  rw [made]
  refine ⟨t, ?_, sockets.trans ?_, iff_of_true lists fun abandoned => ?_⟩
  · rw [SocketTable.runs_listed, walked]
    simp only [runs, SocketTable.step_listen_refused refused, left, Option.bind_some]
  · simp [SocketEvent.stuck, closes]
  · have shape : (⟨.getaddrinfo port, (0, listp)⟩ :: (attempts.flatten ++ [⟨.socket p, fd⟩, ⟨.setsockopt fd, optval⟩,
        ⟨.bind fd p, 0⟩] ++ [⟨.freeaddrinfo, done⟩, ⟨.listen fd, listens⟩, ⟨.close fd, closed⟩]) :
        List (SocketEvent Port Address)) =
        (⟨.getaddrinfo port, (0, listp)⟩ :: (attempts.flatten ++ [⟨.socket p, fd⟩, ⟨.setsockopt fd, optval⟩,
          ⟨.bind fd p, 0⟩, ⟨.freeaddrinfo, done⟩])) ++ [⟨.listen fd, listens⟩, ⟨.close fd, closed⟩] := by
      simp
    rw [shape] at abandoned
    obtain ⟨_, _, _, other⟩ := abandoned.penultimate
    cases other

end Ends

/-- Whatever the system answers: `open_listenfd` returns a new descriptor, and has changed nothing else than that
a socket listens there at the first address for which one could be opened and bound; or a negative number, and
has withdrawn. -/
theorem openListenfd_exact {result : Int} (emitted : (openListenfd port : SocketProgram Port Address Int).Emits log result)
    (fresh : Guarded (SocketTable.step lingers) SocketTable.Fresh w log) :
    ∃ t, runs (SocketTable.step lingers) w log = some t ∧
    (0 ≤ result → ∃ p, ListensAt port p result log ∧ w.sockets result = none ∧ t = w.withSocket result (.listening p)) ∧
    (result < 0 → Withdrawn lingers w t log) := by
  have withdraws (negative : result < 0)
      (withdrawn : ∃ t, runs (SocketTable.step lingers) w log = some t ∧ Withdrawn lingers w t log) :
      ∃ t, runs (SocketTable.step lingers) w log = some t ∧ (0 ≤ result →
        ∃ p, ListensAt port p result log ∧ w.sockets result = none ∧ t = w.withSocket result (.listening p)) ∧
        (result < 0 → Withdrawn lingers w t log) := by
    obtain ⟨t, ran, left⟩ := withdrawn
    exact ⟨t, ran, fun valid => absurd negative (not_lt.mpr valid), fun _ => left⟩
  simp only [openListenfd, Program.perform_bind, Program.emits_call] at emitted
  obtain ⟨⟨code, listp⟩, rest, made, emitted⟩ := emitted
  by_cases listed : code = 0
  · subst listed
    rw [if_neg (not_not.mpr rfl)] at emitted
    obtain ⟨walk, found, last, rfl, walks, acted⟩ := Program.emits_bind.mp emitted
    rw [made] at fresh
    have fresh := fresh.2 w.withList (by simp [SocketTable.step, SocketTable.withList])
    cases walkAddresses_walked walks with
    | nowhere failed walked =>
      obtain ⟨_, _, rfl, rfl, rfl⟩ := acted
      rw [walked] at made fresh
      exact withdraws (by decide) (nowhere_withdraws failed made fresh)
    | abandoned _ failed valid refused unclosed walked =>
      obtain ⟨rfl, rfl⟩ := acted
      rw [walked, List.append_nil] at made fresh
      exact withdraws (by decide) (abandoned_withdraws failed valid refused unclosed made fresh)
    | @bound before after p attempts fd optval split failed valid walked =>
      simp only [Program.emits_call] at acted
      obtain ⟨_, last, rfl, listens, last, rfl, acted⟩ := acted
      rw [walked] at made fresh
      by_cases refused : listens < 0
      · rw [if_pos refused] at acted
        obtain ⟨closed, _, rfl, rfl, rfl⟩ := acted
        exact withdraws (by decide) (refused_withdraws failed valid refused made fresh)
      · rw [if_neg refused] at acted
        obtain ⟨rfl, rfl⟩ := acted
        obtain ⟨free, bound⟩ := bound_runs failed valid fresh
        refine ⟨w.withSocket fd (.listening p), ?_, fun _ => ⟨p, ?_, free, rfl⟩,
          fun negative => absurd negative (not_lt.mpr valid)⟩
        · rw [made, SocketTable.runs_listed, bound, runs, SocketTable.step_listen (not_lt.mp refused)]
          rfl
        · refine ⟨before, after, attempts, optval, listens, failed, not_lt.mp refused, ?_⟩
          rw [made, ← split, List.append_assoc]
          rfl
  · rw [if_pos listed] at emitted
    obtain ⟨rfl, rfl⟩ := emitted
    exact withdraws (by decide) (unlisted_withdraws listed made)

/-- No socket can be opened for the first address. -/
def secondAddress : List (SocketEvent Unit Bool) :=
  [⟨.getaddrinfo (), (0, [false, true])⟩, ⟨.socket false, -1⟩, ⟨.socket true, 5⟩, ⟨.setsockopt 5, 0⟩, ⟨.bind 5 true, 0⟩,
    ⟨.freeaddrinfo, ()⟩, ⟨.listen 5, 0⟩]

theorem openListenfd_exact_second : ListensAt () true 5 secondAddress ∧
    runs (SocketTable.step true) ⟨fun _ => none, 0⟩ secondAddress =
      some (SocketTable.withSocket ⟨fun _ => none, 0⟩ 5 (.listening true)) := by
  have emitted : (openListenfd () : SocketProgram Unit Bool Int).Emits secondAddress 5 := by
    simp [openListenfd, walkAddresses, secondAddress]
  have fresh : Guarded (SocketTable.step true) SocketTable.Fresh ⟨fun _ => none, 0⟩ secondAddress := by
    simp [Guarded, secondAddress, SocketTable.Fresh, SocketTable.step]
  obtain ⟨t, table, opened, _⟩ := openListenfd_exact emitted fresh
  obtain ⟨p, listens, _, rfl⟩ := opened (by decide)
  have second : p = true := by
    obtain ⟨before, after, attempts, optval, code, _, _, made⟩ := listens
    have ends : secondAddress.take 2 ++ secondAddress.drop 2 = (_ :: attempts.flatten) ++ [⟨.socket p, 5⟩,
        ⟨.setsockopt 5, optval⟩, ⟨.bind 5 p, 0⟩, ⟨.freeaddrinfo, ()⟩, ⟨.listen 5, code⟩] := made
    cases (List.cons.inj (List.append_inj' ends rfl).2).1
    rfl
  rw [second] at listens table
  exact ⟨listens, table⟩

end MazeWar
