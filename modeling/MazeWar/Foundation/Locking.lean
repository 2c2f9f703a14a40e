import MazeWar.Foundation.Memory
import MazeWar.Foundation.Runs
import MazeWar.Foundation.Threads

/-!
# Threads and a lock

Threads that take and release one lock in turn are never in a critical section together, and can
always go on. If all they do is to make calls that are one critical section each, then they do what
whole calls do, one after another.
-/

namespace Foundation
variable {ι Op C : Type} {Res : Op → Type} {α β σ : Type}

inductive LockRole where
  | acquire
  | release
  | other
  deriving DecidableEq, Repr

/-- What an operation does to the number of times that the lock can be taken. -/
def LockRole.Moves : LockRole → Nat → Nat → Prop
  | .acquire, before, after => before = after + 1
  | .release, before, after => after = before + 1
  | .other, before, after => before = after

/-- A lock among the operations of a machine. -/
structure Lock (exec : Machine Op Res σ) where
  role : Op → LockRole
  count : σ → Nat
  counted : ∀ {op s result t}, exec op s = some (result, t) → (role op).Moves (count s) (count t)

/-- Run on from inside or outside a critical section, the program takes and releases the lock in
turn, and ends inside or outside with a value as `Q` says. -/
def Disciplined (role : Op → LockRole) (Q : Bool → α → Prop) : Bool → Program Op Res α → Prop
  | inside, .done value => Q inside value
  | inside, .call op next =>
    match role op with
    | .acquire => inside = false ∧ ∀ result, Disciplined role Q true (next result)
    | .release => inside = true ∧ ∀ result, Disciplined role Q false (next result)
    | .other => ∀ result, Disciplined role Q inside (next result)

/-- The program ends outside. -/
abbrev Balanced (role : Op → LockRole) (inside : Bool) (program : Program Op Res α) : Prop :=
  Disciplined role (fun inside _ => inside = false) inside program

/-- After a round of a loop: it goes on where it started, or is left as `Q` says. -/
def AfterRound {β : Type} (inside : Bool) (Q : Bool → β → Prop) (I : β → Prop) : Bool → ForInStep β → Prop
  | b, .done state => Q b state
  | b, .yield state => b = inside ∧ I state

section Discipline
variable {role : Op → LockRole} {Q R : Bool → α → Prop} {op : Op} {next : Res op → Program Op Res α} {inside : Bool}

theorem disciplined_acquire (taken : role op = .acquire) : Disciplined role Q inside (.call op next) ↔
    inside = false ∧ ∀ result, Disciplined role Q true (next result) := by
  simp only [Disciplined, taken]

theorem disciplined_release (given : role op = .release) : Disciplined role Q inside (.call op next) ↔
    inside = true ∧ ∀ result, Disciplined role Q false (next result) := by
  simp only [Disciplined, given]

theorem disciplined_other (other : role op = .other) : Disciplined role Q inside (.call op next) ↔
    ∀ result, Disciplined role Q inside (next result) := by
  simp only [Disciplined, other]

theorem Disciplined.bind {Q : Bool → β → Prop} {program : Program Op Res α} {rest : α → Program Op Res β}
    (first : Disciplined role R inside program)
    (second : ∀ inside value, R inside value → Disciplined role Q inside (rest value)) :
    Disciplined role Q inside (program >>= rest) := by
  induction program generalizing inside with
  | done value => exact second inside value first
  | call op next ih =>
    rw [Program.call_bind]
    cases moved : role op with
    | acquire =>
      rw [disciplined_acquire moved] at first ⊢
      exact ⟨first.1, fun result => ih result (first.2 result)⟩
    | release =>
      rw [disciplined_release moved] at first ⊢
      exact ⟨first.1, fun result => ih result (first.2 result)⟩
    | other =>
      rw [disciplined_other moved] at first ⊢
      exact fun result => ih result (first result)

theorem Balanced.bind {program : Program Op Res α} {rest : α → Program Op Res β} (first : Balanced role inside program)
    (second : ∀ value, Balanced role false (rest value)) : Balanced role inside (program >>= rest) := by
  refine Disciplined.bind first fun inside value ended => ?_
  subst ended
  exact second value

/-- A program that does not touch the lock. -/
theorem disciplined_of_calls {program : Program Op Res α} (spares : program.Calls fun op => role op = .other) :
    Disciplined role (fun b _ => b = inside) inside program := by
  induction program with
  | done value => rfl
  | call op next ih => exact (disciplined_other spares.1).mpr fun result => ih result (spares.2 result)

theorem Disciplined.loop {Q : Bool → β → Prop} {I : β → Prop} {body : Int → β → Program Op Res (ForInStep β)}
    (round : ∀ i state, I state → Disciplined role (AfterRound inside Q I) inside (body i state))
    (last : ∀ state, I state → Q inside state) (stride : Int) (n : Nat) (i : Int) {init : β} (start : I init) :
    Disciplined role Q inside (Program.loop body stride n i init) := by
  induction n generalizing i init with
  | zero => exact last init start
  | succ n ih =>
    refine (round i init start).bind fun b outcome holds => ?_
    cases outcome with
    | done state => exact holds
    | yield state =>
      obtain ⟨rfl, inv⟩ := holds
      exact ih (i + stride) inv

/-- What is left of a program is inside a critical section or outside, not both. -/
theorem Balanced.exclusive [∀ op, Nonempty (Res op)] {program : Program Op Res α}
    (inside : Balanced role true program) (outside : Balanced role false program) : False := by
  induction program with
  | done value => cases inside
  | call op next ih =>
    cases moved : role op with
    | acquire => exact absurd ((disciplined_acquire moved).mp inside).1 (by decide)
    | release => exact absurd ((disciplined_release moved).mp outside).1 (by decide)
    | other =>
      obtain ⟨result⟩ := ‹∀ op, Nonempty (Res op)› op
      exact ih result ((disciplined_other moved).mp inside result) ((disciplined_other moved).mp outside result)

end Discipline

/-! ### Mutual exclusion and progress -/

namespace Pool
variable [DecidableEq ι] {exec : Machine Op Res σ} (lock : Lock exec) {pool t : Pool ι Op Res α σ} {i j : ι}
  {schedule : List ι}

/-- What is left for the thread releases the lock before it takes it. -/
def InSection (pool : Pool ι Op Res α σ) (i : ι) : Prop := Balanced lock.role true (pool.left i)

/-- The holder, if any, is the one thread in a critical section, and the lock can be taken if there is none. -/
structure Held (holder : Option ι) (pool : Pool ι Op Res α σ) : Prop where
  count : lock.count pool.shared = if holder = none then 1 else 0
  balanced : ∀ i, Balanced lock.role (decide (holder = some i)) (pool.left i)

variable {lock}

theorem Held.after_step {holder : Option ι} (held : Held lock holder pool) (stepped : pool.step exec i = some t) :
    ∃ holder, Held lock holder t := by
  obtain ⟨op, next, result, shared, left, executed, rfl⟩ := step_iff.mp stepped
  have moved := lock.counted executed
  have own := held.balanced i
  rw [left] at own
  cases kind : lock.role op with
  | acquire =>
    obtain ⟨outside, later⟩ := (disciplined_acquire kind).mp own
    rw [kind, held.count] at moved
    obtain rfl : holder = none := by
      by_contra taken
      rw [if_neg taken] at moved
      exact absurd moved (by simp [LockRole.Moves])
    refine ⟨some i, by simpa [LockRole.Moves] using moved.symm, fun j => ?_⟩
    rcases eq_or_ne j i with rfl | apart
    · simpa using later result
    · simpa [Function.update_of_ne apart, apart.symm] using held.balanced j
  | release =>
    obtain ⟨inside, later⟩ := (disciplined_release kind).mp own
    obtain rfl : holder = some i := by simpa using inside
    rw [kind, held.count] at moved
    refine ⟨none, by simpa [LockRole.Moves] using moved, fun j => ?_⟩
    rcases eq_or_ne j i with rfl | apart
    · simpa using later result
    · simpa [Function.update_of_ne apart, apart.symm] using held.balanced j
  | other =>
    rw [kind, held.count] at moved
    refine ⟨holder, moved.symm, fun j => ?_⟩
    rcases eq_or_ne j i with rfl | apart
    · simpa using (disciplined_other kind).mp own result
    · simpa [Function.update_of_ne apart] using held.balanced j

theorem held_of_runs (balanced : ∀ i, Balanced lock.role false (pool.left i))
    (free : lock.count pool.shared = 1) (ran : runs (Pool.step exec) pool schedule = some t) :
    ∃ holder, Held lock holder t :=
  runs_invariant (I := fun pool => ∃ holder, Held lock holder pool)
    (fun _ _ _ held stepped => held.elim fun _ held => held.after_step stepped)
    ⟨none, free, by simpa using balanced⟩ ran

theorem Held.inSection_iff [∀ op, Nonempty (Res op)] {holder : Option ι} (held : Held lock holder pool) :
    pool.InSection lock i ↔ holder = some i := by
  constructor
  · intro inside
    by_contra other
    have outside := held.balanced i
    rw [decide_eq_false other] at outside
    exact inside.exclusive outside
  · intro holds
    have inside := held.balanced i
    rw [decide_eq_true holds] at inside
    exact inside

/-- If only the lock can stop an operation, then some thread can go on as long as one is not finished. -/
theorem Held.progress {holder : Option ι} {allowed : Op → Prop} (held : Held lock holder pool)
    (within : ∀ i, (pool.left i).Calls allowed)
    (takes : ∀ op s, lock.role op = .acquire → 0 < lock.count s → (exec op s).isSome)
    (goes : ∀ op s, allowed op → lock.role op ≠ .acquire → (exec op s).isSome) :
    pool.Finished ∨ ∃ i, (pool.step exec i).isSome := by
  by_contra stuck
  obtain ⟨unfinished, blocked⟩ := not_or.mp stuck
  obtain ⟨i, waits⟩ := not_forall.mp unfinished
  -- The holder can go on, and without one whoever is not finished.
  have runner : ∃ j op next, pool.left j = .call op next ∧
      (lock.role op = .acquire → 0 < lock.count pool.shared) := by
    cases holder with
    | none =>
      cases left : pool.left i with
      | done value => exact absurd ⟨value, left⟩ waits
      | call op next =>
        refine ⟨i, op, next, left, fun _ => ?_⟩
        rw [held.count, if_pos rfl]
        exact Nat.one_pos
    | some j =>
      have inside := held.balanced j
      rw [decide_eq_true rfl] at inside
      cases left : pool.left j with
      | done value =>
        rw [left] at inside
        cases inside
      | call op next =>
        refine ⟨j, op, next, left, fun taken => ?_⟩
        rw [left] at inside
        cases ((disciplined_acquire taken).mp inside).1
  obtain ⟨j, op, next, left, free⟩ := runner
  have may := within j
  rw [left] at may
  have executes : (exec op pool.shared).isSome := by
    by_cases taken : lock.role op = .acquire
    · exact takes op _ taken (free taken)
    · exact goes op _ may.1 taken
  refine blocked ⟨j, ?_⟩
  rw [Pool.step, left, Option.isSome_map]
  exact executes

theorem calls_step {allowed : Op → Prop} (within : ∀ i, (pool.left i).Calls allowed)
    (stepped : pool.step exec i = some t) : ∀ j, (t.left j).Calls allowed := by
  obtain ⟨op, next, result, shared, left, _, rfl⟩ := step_iff.mp stepped
  have own := within i
  rw [left] at own
  intro j
  rcases eq_or_ne j i with rfl | apart
  · simpa using own.2 result
  · simpa [Function.update_of_ne apart] using within j

end Pool

/-! ### Calls that are critical sections -/

/-- What is left of a call inside its critical section: nothing follows the release. Results that an
operation never has do not matter. -/
def Closing (exec : Machine Op Res σ) (role : Op → LockRole) : Program Op Res Unit → Prop
  | .done _ => False
  | .call op next =>
    match role op with
    | .acquire => False
    | .release => ∀ result, next result = .done ()
    | .other => ∀ result, (∃ s t, exec op s = some (result, t)) → Closing exec role (next result)

/-- The call takes the lock first and releases it last. -/
def Section (exec : Machine Op Res σ) (role : Op → LockRole) : Program Op Res Unit → Prop
  | .done _ => False
  | .call op next => role op = .acquire ∧ ∀ result, Closing exec role (next result)

def performAll (program : C → Program Op Res Unit) : List C → Program Op Res Unit
  | [] => pure ()
  | c :: rest => do
    program c
    performAll program rest

/-- A whole call as one step. -/
def wholeCall (exec : Machine Op Res σ) (program : C → Program Op Res Unit) (s : σ) (c : C) : Option σ :=
  ((program c).run exec s).map Prod.snd

/-- The calls that one thread has made, in order. -/
def callsOf [DecidableEq ι] (i : ι) (order : List (ι × C)) : List C :=
  (order.filter fun entry => entry.1 = i).map Prod.snd

section Serial
variable [DecidableEq ι] {exec : Machine Op Res σ} {lock : Lock exec} {program : C → Program Op Res Unit}
  {calls rest : ι → List C} {s reached : σ} {pool t : Pool ι Op Res Unit σ} {i j : ι} {order : List (ι × C)} {c : C}
  {schedule : List ι}

theorem callsOf_self : callsOf i (order ++ [(i, c)]) = callsOf i order ++ [c] := by
  simp [callsOf]

theorem callsOf_other (apart : j ≠ i) : callsOf j (order ++ [(i, c)]) = callsOf j order := by
  simp [callsOf, apart.symm]

/-- The calls in `order` have been made whole, one after another, and led to `reached`; each thread is
between two calls, or one thread is inside a call that it has started there. -/
inductive Serial (lock : Lock exec) (program : C → Program Op Res Unit) (calls : ι → List C) (s : σ)
    (order : List (ι × C)) (pool : Pool ι Op Res Unit σ) : σ → Prop
  | between {rest : ι → List C} (free : lock.count pool.shared = 1)
      (made : runs (wholeCall exec program) s (order.map Prod.snd) = some pool.shared)
      (left : ∀ i, pool.left i = performAll program (rest i)) (split : ∀ i, calls i = callsOf i order ++ rest i) :
      Serial lock program calls s order pool pool.shared
  | inside {rest : ι → List C} {i : ι} {c : C} {reached : σ} {body : Program Op Res Unit}
      (taken : lock.count pool.shared = 0)
      (made : runs (wholeCall exec program) s (order.map Prod.snd) = some reached)
      (current : pool.left i = body >>= fun _ => performAll program (rest i)) (closing : Closing exec lock.role body)
      (finishes : body.run exec pool.shared = (program c).run exec reached)
      (left : ∀ j, j ≠ i → pool.left j = performAll program (rest j))
      (split : ∀ j, calls j = callsOf j order ++ if j = i then c :: rest j else rest j) :
      Serial lock program calls s order pool reached

/-- A thread that is between two calls can only take the lock, to start its next call. -/
theorem starts (sections : ∀ c, Section exec lock.role (program c)) (left : pool.left i = performAll program (rest i))
    (stepped : pool.step exec i = some t) :
    ∃ c later body shared, rest i = c :: later ∧ lock.count pool.shared = lock.count shared + 1 ∧
      Closing exec lock.role body ∧ body.run exec shared = (program c).run exec pool.shared ∧
      t = ⟨Function.update pool.left i (body >>= fun _ => performAll program later), shared⟩ := by
  obtain ⟨op, next, result, shared, call, executed, rfl⟩ := Pool.step_iff.mp stepped
  rw [left] at call
  cases remaining : rest i with
  | nil =>
    rw [remaining] at call
    cases call
  | cons c later =>
    rw [remaining, performAll] at call
    have whole := sections c
    cases first : program c with
    | done value =>
      rw [first] at whole
      exact whole.elim
    | call op' next' =>
      rw [first] at whole call
      cases call
      have moved := lock.counted executed
      rw [whole.1] at moved
      refine ⟨c, later, next' result, shared, rfl, moved, whole.2 result, ?_, rfl⟩
      rw [first, Program.run_call, executed, Option.bind_some]

theorem serial_step (sections : ∀ c, Section exec lock.role (program c))
    (serial : Serial lock program calls s order pool reached) (stepped : pool.step exec i = some t) :
    ∃ order reached, Serial lock program calls s order t reached := by
  cases serial with
  | @between rest free made left split =>
    obtain ⟨c, later, body, shared, remaining, taken, closing, finishes, rfl⟩ := starts sections (left i) stepped
    have others : ∀ j, j ≠ i → Function.update pool.left i (body >>= fun _ => performAll program later) j =
        performAll program (Function.update rest i later j) := by
      intro j apart
      simp only [Function.update_of_ne apart]
      exact left j
    refine ⟨order, _, .inside (Nat.add_right_cancel (taken.symm.trans free)) made ?_ closing finishes others ?_⟩
    · simp only [Function.update_self]
    · intro j
      rcases eq_or_ne j i with rfl | apart
      · rw [split, remaining, if_pos rfl, Function.update_self]
      · rw [split, if_neg apart, Function.update_of_ne apart]
  | @inside rest k c reached body taken made current closing finishes left split =>
    rcases eq_or_ne i k with rfl | apart
    · obtain ⟨op, next, result, shared, call, executed, rfl⟩ := Pool.step_iff.mp stepped
      rw [current] at call
      cases body with
      | done value => exact closing.elim
      | call op' next' =>
        cases call
        have moved := lock.counted executed
        rw [Program.run_call, executed, Option.bind_some] at finishes
        cases kind : lock.role op with
        | acquire => simp only [Closing, kind] at closing
        | release =>
          -- The call is over, and counts as made here.
          simp only [Closing, kind] at closing
          rw [kind] at moved
          rw [closing result] at finishes
          have whole : wholeCall exec program reached c = some shared := by
            rw [wholeCall, ← finishes]
            rfl
          have all : ∀ j, Function.update pool.left i (next' result >>= fun _ => performAll program (rest i)) j =
              performAll program (rest j) := by
            intro j
            rcases eq_or_ne j i with rfl | apart
            · simp only [Function.update_self, closing result]
              rfl
            · simp only [Function.update_of_ne apart]
              exact left j apart
          refine ⟨order ++ [(i, c)], _, .between ?_ ?_ all ?_⟩
          · exact moved.trans (by rw [taken])
          · simp [runs_append, made, runs, whole]
          · intro j
            rcases eq_or_ne j i with rfl | apart
            · rw [split, if_pos rfl, callsOf_self, List.append_assoc]
              rfl
            · rw [split, if_neg apart, callsOf_other apart]
        | other =>
          simp only [Closing, kind] at closing
          rw [kind] at moved
          refine ⟨order, reached, .inside (moved.symm.trans taken) made ?_ (closing result ⟨_, _, executed⟩) finishes ?_ split⟩
          · simp only [Function.update_self]
            rfl
          · intro j apart
            simp only [Function.update_of_ne apart]
            exact left j apart
    · -- The lock is taken, so no other thread has gone on.
      obtain ⟨_, _, _, shared, _, moved, _⟩ := starts sections (left i apart) stepped
      omega

/-- Threads that make calls which are critical sections of one lock do in any order of their operations
what whole calls do in some order that keeps each thread's. -/
theorem serial_of_runs (sections : ∀ c, Section exec lock.role (program c)) (free : lock.count s = 1)
    (ran : runs (Pool.step exec) ⟨fun i => performAll program (calls i), s⟩ schedule = some pool) :
    ∃ order reached, Serial lock program calls s order pool reached := by
  refine runs_invariant (I := fun pool => ∃ order reached, Serial lock program calls s order pool reached) ?_ ?_ ran
  · intro pool i t serial stepped
    obtain ⟨order, reached, serial⟩ := serial
    exact serial_step sections serial stepped
  · exact ⟨[], s, .between free rfl (fun _ => rfl) fun _ => rfl⟩

/-- Each thread has made its first calls. -/
theorem Serial.made (serial : Serial lock program calls s order pool reached) :
    runs (wholeCall exec program) s (order.map Prod.snd) = some reached ∧ ∀ i, callsOf i order <+: calls i := by
  cases serial with
  | between _ made _ split => exact ⟨made, fun i => ⟨_, (split i).symm⟩⟩
  | inside _ made _ _ _ _ split => exact ⟨made, fun i => ⟨_, (split i).symm⟩⟩

/-- Threads whose next calls would return are not stuck. -/
theorem Serial.progress (serial : Serial lock program calls s order pool reached)
    (sections : ∀ c, Section exec lock.role (program c))
    (takes : ∀ op s, lock.role op = .acquire → 0 < lock.count s → (exec op s).isSome)
    (returns : ∀ i c, callsOf i order ++ [c] <+: calls i → (wholeCall exec program reached c).isSome) :
    pool.Finished ∨ ∃ i, (pool.step exec i).isSome := by
  cases serial with
  | @between rest free made left split =>
    by_cases through : ∀ i, rest i = []
    · refine .inl fun i => ⟨(), ?_⟩
      rw [left, through]
      rfl
    · obtain ⟨i, more⟩ := not_forall.mp through
      obtain ⟨c, later, remaining⟩ := List.exists_cons_of_ne_nil more
      right
      refine ⟨i, ?_⟩
      have whole := sections c
      cases first : program c with
      | done value =>
        rw [first] at whole
        exact whole.elim
      | call op next =>
        rw [first] at whole
        rw [Pool.step, left, remaining, performAll, first]
        exact Option.isSome_map.trans (takes op _ whole.1 (by rw [free]; exact Nat.one_pos))
  | @inside rest i c reached body taken made current closing finishes left split =>
    have next : callsOf i order ++ [c] <+: calls i := ⟨rest i, by rw [split, if_pos rfl, List.append_assoc]; rfl⟩
    have returned := returns i c next
    rw [wholeCall, Option.isSome_map, ← finishes] at returned
    right
    refine ⟨i, ?_⟩
    rw [Pool.step, current]
    cases body with
    | done value => exact closing.elim
    | call op later =>
      obtain ⟨outcome, ran⟩ := Option.isSome_iff_exists.mp returned
      obtain ⟨answer, executed, _⟩ := Option.bind_eq_some_iff.mp ran
      refine Option.isSome_map.trans ?_
      rw [executed]
      rfl

end Serial

/-! ### The semaphore of a shared memory -/

section Cells
variable {A V : Type} {dom : A → Prop} [DecidablePred dom] [DecidableEq A]

def CellOp.role : CellOp A V → LockRole
  | .wait => .acquire
  | .post => .release
  | .load _ | .store _ _ => .other

def cellLock : Lock (cellMachine : Machine (CellOp A V) CellOp.Res (Shared dom V)) where
  role := CellOp.role
  count := Shared.sem
  counted := by
    intro op s result t executed
    cases op with
    | load a =>
      obtain ⟨_, rfl⟩ := cellMachine_load.mp executed
      rfl
    | store a v =>
      obtain ⟨_, rfl⟩ := cellMachine_store.mp executed
      rfl
    | wait =>
      obtain ⟨positive, rfl⟩ := cellMachine_wait.mp executed
      exact (Nat.sub_add_cancel positive).symm
    | post =>
      cases executed
      rfl

end Cells

end Foundation
