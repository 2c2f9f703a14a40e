import Mathlib.Tactic

/-!
# Programs over atomic operations

A program is a tree of atomic operations. `run` executes it alone on a machine;
a scheduler executes it one `call` at a time. An operation that the machine
cannot execute (an access outside memory, a semaphore that blocks) has no result,
so a program with a result has executed all of its operations.
-/

namespace Foundation

inductive Program (Op : Type) (Res : Op → Type) (α : Type) where
  | done (value : α)
  | call (op : Op) (next : Res op → Program Op Res α)

abbrev Machine (Op : Type) (Res : Op → Type) (σ : Type) :=
  (op : Op) → σ → Option (Res op × σ)

namespace Program
variable {Op : Type} {Res : Op → Type} {α β σ : Type}

def bind : Program Op Res α → (α → Program Op Res β) → Program Op Res β
  | .done value, rest => rest value
  | .call op next, rest => .call op fun result => (next result).bind rest

instance : Monad (Program Op Res) where
  pure := .done
  bind := bind

def perform (op : Op) : Program Op Res (Res op) := .call op .done

@[simp] theorem done_bind (value : α) (rest : α → Program Op Res β) :
    (Program.done value >>= rest) = rest value := rfl

@[simp] theorem pure_bind (value : α) (rest : α → Program Op Res β) :
    ((pure value : Program Op Res α) >>= rest) = rest value := rfl

@[simp] theorem call_bind (op : Op) (next : Res op → Program Op Res α)
    (rest : α → Program Op Res β) :
    (Program.call op next >>= rest) = .call op fun result => next result >>= rest := rfl

@[simp] theorem perform_bind (op : Op) (rest : Res op → Program Op Res β) :
    (perform op >>= rest) = .call op rest := rfl

theorem bind_assoc {γ : Type} (program : Program Op Res α) (rest : α → Program Op Res β) (last : β → Program Op Res γ) :
    (program >>= rest) >>= last = program >>= fun value => rest value >>= last := by
  induction program with
  | done value => rfl
  | call op next ih => exact congrArg (Program.call op) (funext ih)

def run (exec : Machine Op Res σ) : Program Op Res α → σ → Option (α × σ)
  | .done value, s => some (value, s)
  | .call op next, s => (exec op s).bind fun answer => (next answer.1).run exec answer.2

/-- What a program may do, whatever its operations return: the operations it calls with
their results, in order, and the value it ends with. -/
def Emits : Program Op Res α → List ((op : Op) × Res op) → α → Prop
  | .done value, log, final => log = [] ∧ value = final
  | .call op next, log, final => ∃ result rest, log = ⟨op, result⟩ :: rest ∧ (next result).Emits rest final

section Run
variable (exec : Machine Op Res σ)

@[simp] theorem run_done (value : α) (s : σ) :
    (Program.done value : Program Op Res α).run exec s = some (value, s) := rfl

@[simp] theorem run_pure (value : α) (s : σ) :
    (pure value : Program Op Res α).run exec s = some (value, s) := rfl

theorem run_call (op : Op) (next : Res op → Program Op Res α) (s : σ) :
    (Program.call op next).run exec s =
      (exec op s).bind fun answer => (next answer.1).run exec answer.2 := rfl

theorem run_bind (program : Program Op Res α) (rest : α → Program Op Res β) (s : σ) :
    (program >>= rest).run exec s =
      (program.run exec s).bind fun answer => (rest answer.1).run exec answer.2 := by
  induction program generalizing s with
  | done value => rfl
  | call op next ih =>
    simp only [call_bind, run_call, Option.bind_assoc]
    exact congrArg _ (funext fun answer => ih answer.1 answer.2)

theorem run_perform (op : Op) (s : σ) : (perform op : Program Op Res (Res op)).run exec s = exec op s := by
  cases executed : exec op s <;> simp [perform, run_call, executed]

theorem run_perform_bind {op : Op} {rest : Res op → Program Op Res α} {s t : σ} {result : Res op}
    (executed : exec op s = some (result, t)) :
    (perform op >>= rest).run exec s = (rest result).run exec t := by
  rw [perform_bind, run_call, executed, Option.bind_some]

/-- A machine that does all that another does runs a program as that one does. -/
theorem run_extend {exec' : Machine Op Res σ} (more : ∀ op s answer, exec op s = some answer → exec' op s = some answer)
    {program : Program Op Res α} {s : σ} {answer : α × σ} (ran : program.run exec s = some answer) :
    program.run exec' s = some answer := by
  induction program generalizing s with
  | done value => exact ran
  | call op next ih =>
    obtain ⟨result, executed, rest⟩ := Option.bind_eq_some_iff.mp ran
    rw [run_call, more op s result executed, Option.bind_some]
    exact ih result.1 rest

theorem run_isSome (total : ∀ op s, (exec op s).isSome) (program : Program Op Res α) (s : σ) :
    (program.run exec s).isSome := by
  induction program generalizing s with
  | done value => rfl
  | call op next ih =>
    obtain ⟨answer, executed⟩ := Option.isSome_iff_exists.mp (total op s)
    rw [run_call, executed]
    exact ih answer.1 answer.2

end Run

/-- The operations a run executes, up to and including the first that fails. -/
def trace (exec : Machine Op Res σ) : Program Op Res α → σ → List Op
  | .done _, _ => []
  | .call op next, s => op :: ((exec op s).map fun answer => (next answer.1).trace exec answer.2).getD []

section Trace
variable {exec : Machine Op Res σ}

@[simp] theorem trace_pure (value : α) (s : σ) : (pure value : Program Op Res α).trace exec s = [] := rfl

theorem trace_call {op : Op} {next : Res op → Program Op Res α} {s t : σ} {result : Res op}
    (executed : exec op s = some (result, t)) :
    (Program.call op next).trace exec s = op :: (next result).trace exec t := by
  simp [trace, executed]

theorem trace_bind {program : Program Op Res α} {rest : α → Program Op Res β} {s t : σ} {value : α}
    (ran : program.run exec s = some (value, t)) :
    (program >>= rest).trace exec s = program.trace exec s ++ (rest value).trace exec t := by
  induction program generalizing s with
  | done final =>
    cases ran
    rfl
  | call op next ih =>
    obtain ⟨⟨result, middle⟩, executed, ran⟩ := Option.bind_eq_some_iff.mp ran
    rw [call_bind, trace_call executed, trace_call executed, ih result ran, List.cons_append]

/-- A run that returns has executed every operation of its trace. -/
theorem trace_executed {program : Program Op Res α} {s : σ} (returns : (program.run exec s).isSome) :
    ∀ op ∈ program.trace exec s, ∃ u, (exec op u).isSome := by
  induction program generalizing s with
  | done value =>
    intro op member
    cases member
  | call op next ih =>
    obtain ⟨outcome, ran⟩ := Option.isSome_iff_exists.mp returns
    obtain ⟨⟨result, t⟩, executed, ran⟩ := Option.bind_eq_some_iff.mp ran
    intro op' member
    rw [trace_call executed] at member
    rcases List.mem_cons.mp member with rfl | later
    · exact ⟨s, by rw [executed]; rfl⟩
    · exact ih result (by rw [ran]; rfl) op' later

/-- Where a run breaks off: the operation that the machine does not execute, and the state reached by then. -/
def stuckAt (exec : Machine Op Res σ) : Program Op Res α → σ → Option (Op × σ)
  | .done _, _ => none
  | .call op next, s =>
    match exec op s with
    | none => some (op, s)
    | some answer => (next answer.1).stuckAt exec answer.2

theorem run_eq_none_iff {program : Program Op Res α} {s : σ} :
    program.run exec s = none ↔ ∃ op u, program.stuckAt exec s = some (op, u) := by
  induction program generalizing s with
  | done value => simp [stuckAt]
  | call op next ih =>
    rw [run_call, stuckAt]
    cases executed : exec op s with
    | none => simp
    | some answer => exact ih answer.1

theorem stuckAt_refused {program : Program Op Res α} {s u : σ} {op : Op}
    (stuck : program.stuckAt exec s = some (op, u)) : exec op u = none := by
  induction program generalizing s with
  | done value => cases stuck
  | call first next ih =>
    rw [stuckAt] at stuck
    cases executed : exec first s with
    | none =>
      rw [executed] at stuck
      cases stuck
      exact executed
    | some answer =>
      rw [executed] at stuck
      exact ih answer.1 stuck

end Trace

/-! ### Machines that execute fewer operations -/

def restrict (allowed : Op → Prop) [DecidablePred allowed] (exec : Machine Op Res σ) : Machine Op Res σ :=
  fun op s => if allowed op then exec op s else none

section Restrict
variable {allowed : Op → Prop} [DecidablePred allowed] {exec : Machine Op Res σ}

theorem restrict_eq_some {op : Op} {s : σ} {answer : Res op × σ} :
    restrict allowed exec op s = some answer ↔ allowed op ∧ exec op s = some answer := by
  unfold restrict
  split <;> simp [*]

/-- A program returns on the restricted machine when all that it executes on the other is allowed. -/
theorem run_restrict {program : Program Op Res α} {s : σ} {answer : α × σ} :
    program.run (restrict allowed exec) s = some answer ↔
      program.run exec s = some answer ∧ ∀ op ∈ program.trace exec s, allowed op := by
  induction program generalizing s with
  | done value => simp [trace]
  | call op next ih =>
    simp only [run_call, Option.bind_eq_some_iff, restrict_eq_some, ih]
    constructor
    · rintro ⟨outcome, ⟨here, executed⟩, ran, later⟩
      rw [trace_call executed, List.forall_mem_cons]
      exact ⟨⟨outcome, executed, ran⟩, here, later⟩
    · rintro ⟨⟨outcome, executed, ran⟩, every⟩
      rw [trace_call executed, List.forall_mem_cons] at every
      exact ⟨outcome, ⟨every.1, executed⟩, ran, every.2⟩

theorem run_restrict_none {program : Program Op Res α} {s : σ} (returns : (program.run exec s).isSome)
    (stuck : program.run (restrict allowed exec) s = none) : ∃ op ∈ program.trace exec s, ¬ allowed op := by
  obtain ⟨answer, ran⟩ := Option.isSome_iff_exists.mp returns
  by_contra every
  simp only [not_exists, not_and, not_not] at every
  rw [run_restrict.mpr ⟨ran, every⟩] at stuck
  cases stuck

end Restrict

section Emits
variable {log : List ((op : Op) × Res op)}

@[simp] theorem emits_pure {value final : α} :
    (pure value : Program Op Res α).Emits log final ↔ log = [] ∧ value = final := Iff.rfl

@[simp] theorem emits_call {op : Op} {next : Res op → Program Op Res α} {final : α} :
    (Program.call op next).Emits log final ↔
      ∃ result rest, log = ⟨op, result⟩ :: rest ∧ (next result).Emits rest final := Iff.rfl

theorem emits_bind {program : Program Op Res α} {rest : α → Program Op Res β} {final : β} :
    (program >>= rest).Emits log final ↔ ∃ before value after,
      log = before ++ after ∧ program.Emits before value ∧ (rest value).Emits after final := by
  induction program generalizing log with
  | done value =>
    constructor
    · exact fun emitted => ⟨[], value, log, rfl, ⟨rfl, rfl⟩, emitted⟩
    · rintro ⟨_, _, after, rfl, ⟨rfl, rfl⟩, emitted⟩
      exact emitted
  | call op next ih =>
    constructor
    · rintro ⟨result, later, rfl, emitted⟩
      obtain ⟨before, value, after, rfl, first, second⟩ := ih result |>.mp emitted
      exact ⟨⟨op, result⟩ :: before, value, after, rfl, ⟨result, before, rfl, first⟩, second⟩
    · rintro ⟨_, value, after, rfl, ⟨result, before, rfl, first⟩, second⟩
      exact ⟨result, before ++ after, rfl, ih result |>.mpr ⟨before, value, after, rfl, first, second⟩⟩

end Emits

/-! ### Programs that keep to some operations -/

def Calls (allowed : Op → Prop) : Program Op Res α → Prop
  | .done _ => True
  | .call op next => allowed op ∧ ∀ result, (next result).Calls allowed

theorem Calls.bind {allowed : Op → Prop} {program : Program Op Res α} {rest : α → Program Op Res β}
    (first : program.Calls allowed) (second : ∀ value, (rest value).Calls allowed) :
    (program >>= rest).Calls allowed := by
  induction program with
  | done value => exact second value
  | call op next ih => exact ⟨first.1, fun result => ih result (first.2 result)⟩

theorem Calls.mono {allowed allowed' : Op → Prop} (weaker : ∀ op, allowed op → allowed' op)
    {program : Program Op Res α} (calls : program.Calls allowed) : program.Calls allowed' := by
  induction program with
  | done value => trivial
  | call op next ih => exact ⟨weaker op calls.1, fun result => ih result (calls.2 result)⟩

theorem Calls.emitted {allowed : Op → Prop} {program : Program Op Res α} (calls : program.Calls allowed)
    {log : List ((op : Op) × Res op)} {value : α} (emitted : program.Emits log value) : ∀ event ∈ log, allowed event.1 := by
  induction program generalizing log with
  | done final =>
    obtain ⟨rfl, _⟩ := emitted
    exact fun _ member => (List.not_mem_nil member).elim
  | call op next ih =>
    obtain ⟨result, rest, rfl, emitted⟩ := emitted
    exact List.forall_mem_cons.mpr ⟨calls.1, ih result (calls.2 result) emitted⟩

theorem Calls.run_restrict {allowed : Op → Prop} [DecidablePred allowed] (exec : Machine Op Res σ)
    {program : Program Op Res α} (calls : program.Calls allowed) (s : σ) :
    program.run (restrict allowed exec) s = program.run exec s := by
  induction program generalizing s with
  | done value => rfl
  | call op next ih =>
    rw [run_call, run_call, restrict, if_pos calls.1]
    exact congrArg _ (funext fun answer => ih answer.1 (calls.2 answer.1) answer.2)

@[simp] theorem calls_perform {allowed : Op → Prop} {op : Op} :
    (perform op : Program Op Res (Res op)).Calls allowed ↔ allowed op := and_iff_left fun _ => trivial

theorem Calls.keeps {allowed : Op → Prop} {exec : Machine Op Res σ} {I : σ → Prop}
    (keep : ∀ op s result t, allowed op → exec op s = some (result, t) → I s → I t)
    {program : Program Op Res α} (calls : program.Calls allowed) {s t : σ} {value : α}
    (ran : program.run exec s = some (value, t)) (start : I s) : I t := by
  induction program generalizing s with
  | done value =>
    cases ran
    exact start
  | call op next ih =>
    obtain ⟨⟨result, middle⟩, executed, ran⟩ := Option.bind_eq_some_iff.mp ran
    exact ih result (calls.2 result) ran (keep op s result middle calls.1 executed start)

theorem run_keeps {exec : Machine Op Res σ} {I : σ → Prop}
    (keep : ∀ op s result t, exec op s = some (result, t) → I s → I t)
    {program : Program Op Res α} {s t : σ} {value : α}
    (ran : program.run exec s = some (value, t)) (start : I s) : I t := by
  induction program generalizing s with
  | done value =>
    cases ran
    exact start
  | call op next ih =>
    obtain ⟨⟨result, middle⟩, executed, ran⟩ := Option.bind_eq_some_iff.mp ran
    exact ih result ran (keep op s result middle executed start)

/-! ### Postconditions

`Ends exec program s Q`: the program, run alone from `s`, executes every operation
and ends with a value and a state that satisfy `Q`. -/

def Ends (exec : Machine Op Res σ) (program : Program Op Res α) (s : σ) (Q : α → σ → Prop) : Prop :=
  ∃ value t, program.run exec s = some (value, t) ∧ Q value t

section Ends
variable {exec : Machine Op Res σ}

theorem Ends.pure {value : α} {s : σ} {Q : α → σ → Prop} (h : Q value s) :
    Ends exec (Pure.pure value) s Q := ⟨value, s, rfl, h⟩

theorem Ends.call {op : Op} {next : Res op → Program Op Res α} {s t : σ} {result : Res op}
    {Q : α → σ → Prop} (executed : exec op s = some (result, t)) (rest : Ends exec (next result) t Q) :
    Ends exec (.call op next) s Q := by
  obtain ⟨value, u, ran, holds⟩ := rest
  exact ⟨value, u, by rw [run_call, executed]; exact ran, holds⟩

theorem Ends.bind {program : Program Op Res α} {rest : α → Program Op Res β} {s : σ}
    {R : α → σ → Prop} {Q : β → σ → Prop} (first : Ends exec program s R)
    (second : ∀ value t, R value t → Ends exec (rest value) t Q) : Ends exec (program >>= rest) s Q := by
  obtain ⟨value, t, ran, holds⟩ := first
  obtain ⟨result, u, later, final⟩ := second value t holds
  exact ⟨result, u, by rw [run_bind, ran]; exact later, final⟩

theorem Ends.mono {program : Program Op Res α} {s : σ} {R Q : α → σ → Prop}
    (first : Ends exec program s R) (weaker : ∀ value t, R value t → Q value t) :
    Ends exec program s Q := by
  obtain ⟨value, t, ran, holds⟩ := first
  exact ⟨value, t, ran, weaker value t holds⟩

theorem Ends.isSome {program : Program Op Res α} {s : σ} {Q : α → σ → Prop}
    (h : Ends exec program s Q) : (program.run exec s).isSome := by
  obtain ⟨value, t, ran, _⟩ := h
  rw [ran]; rfl

end Ends

/-! ### Operations in terms of others -/

section Lower
variable {Op' : Type} {Res' : Op' → Type} {τ : Type}

def lower (code : (op : Op) → Program Op' Res' (Res op)) : Program Op Res α → Program Op' Res' α
  | .done value => .done value
  | .call op next => code op >>= fun result => lower code (next result)

/-- Both runs have no result, or the same one in states that correspond. -/
def Alike (R : σ → τ → Prop) : Option (α × σ) → Option (α × τ) → Prop :=
  Option.Rel fun answer answer' => answer.1 = answer'.1 ∧ R answer.2 answer'.2

theorem lower_run {exec : Machine Op Res σ} {exec' : Machine Op' Res' τ} {R : σ → τ → Prop}
    {code : (op : Op) → Program Op' Res' (Res op)}
    (simulates : ∀ op s t, R s t → Alike R (exec op s) ((code op).run exec' t))
    (program : Program Op Res α) {s : σ} {t : τ} (related : R s t) :
    Alike R (program.run exec s) ((program.lower code).run exec' t) := by
  induction program generalizing s t with
  | done value => exact .some ⟨rfl, related⟩
  | call op next ih =>
    have first := simulates op s t related
    rw [lower, run_bind, run_call]
    generalize exec op s = executed at first
    generalize (code op).run exec' t = ran at first
    cases first with
    | none => exact .none
    | @some answer answer' same =>
      rw [Option.bind_some, Option.bind_some, ← same.1]
      exact ih answer.1 same.2

end Lower

/-! ### Counted loops

`for(i = start; i < stop; i++)` and `for(i = start; i >= last; i--)`. The body leaves
the loop with `ForInStep.done` and goes on with `ForInStep.yield`. -/

def loop (body : Int → β → Program Op Res (ForInStep β)) (stride : Int) :
    Nat → Int → β → Program Op Res β
  | 0, _, state => pure state
  | n + 1, i, state => do
    match ← body i state with
    | .done state => pure state
    | .yield state => loop body stride n (i + stride) state

def forUp (start stop : Int) (init : β) (body : Int → β → Program Op Res (ForInStep β)) :
    Program Op Res β := loop body 1 (stop - start).toNat start init

def forDown (start last : Int) (init : β) (body : Int → β → Program Op Res (ForInStep β)) :
    Program Op Res β := loop body (-1) (start - last + 1).toNat start init

/-- A loop in terms of the number of the round. -/
theorem loop_rounds (body : Int → β → Program Op Res (ForInStep β)) (stride start : Int) (n i : Nat) (init : β) :
    loop body stride n (start + i * stride) init = loop (fun k => body (start + k * stride)) 1 n i init := by
  induction n generalizing i init with
  | zero => rfl
  | succ n ih =>
    have following : start + i * stride + stride = start + ((i + 1 : Nat) : Int) * stride := by push_cast; ring
    have index : (i : Int) + 1 = ((i + 1 : Nat) : Int) := by push_cast; rfl
    unfold loop
    rw [following, index]
    simp only [ih]

/-- A loop that returns, and whose body never leaves it, has made every round. -/
theorem loop_round {exec : Machine Op Res σ} {body : Int → β → Program Op Res (ForInStep β)}
    (goes : ∀ i b s step t, (body i b).run exec s = some (step, t) → ∃ b', step = .yield b')
    {stride i : Int} {n : Nat} {init : β} {s : σ} (returns : ((loop body stride n i init).run exec s).isSome)
    {k : Nat} (round : k < n) : ∃ b u, ((body (i + k * stride) b).run exec u).isSome := by
  induction n generalizing i init s k with
  | zero => exact absurd round (Nat.not_lt_zero k)
  | succ n ih =>
    obtain ⟨answer, ran⟩ := Option.isSome_iff_exists.mp returns
    rw [loop, run_bind] at ran
    obtain ⟨⟨step, t⟩, first, rest⟩ := Option.bind_eq_some_iff.mp ran
    obtain ⟨b, rfl⟩ := goes i init s step t first
    cases k with
    | zero => exact ⟨init, s, by rw [Nat.cast_zero, zero_mul, add_zero, first]; rfl⟩
    | succ k =>
      obtain ⟨b', u, later⟩ := ih (Option.isSome_iff_exists.mpr ⟨answer, rest⟩) (Nat.lt_of_succ_lt_succ round)
      refine ⟨b', u, ?_⟩
      have index : i + ((k + 1 : Nat) : Int) * stride = i + stride + k * stride := by push_cast; ring
      rw [index]
      exact later

theorem Calls.loop {allowed : Op → Prop} {body : Int → β → Program Op Res (ForInStep β)}
    (calls : ∀ i state, (body i state).Calls allowed) (stride : Int) (n : Nat) (i : Int) (init : β) :
    (loop body stride n i init).Calls allowed := by
  induction n generalizing i init with
  | zero => trivial
  | succ n ih =>
    refine (calls i init).bind fun outcome => ?_
    cases outcome with
    | done state => trivial
    | yield state => exact ih (i + stride) state

/-- Only the rounds that the loop can make count. -/
theorem Calls.rounds {allowed : Op → Prop} {body : Int → β → Program Op Res (ForInStep β)} {stride i : Int} {n : Nat}
    (calls : ∀ k : Nat, k < n → ∀ state, (body (i + k * stride) state).Calls allowed) (init : β) :
    (Program.loop body stride n i init).Calls allowed := by
  induction n generalizing i init with
  | zero => trivial
  | succ n ih =>
    have first := calls 0 n.succ_pos init
    rw [Nat.cast_zero, zero_mul, add_zero] at first
    refine first.bind fun outcome => ?_
    cases outcome with
    | done state => trivial
    | yield state =>
      refine ih (fun k below state => ?_) state
      have index : i + stride + k * stride = i + ((k + 1 : Nat) : Int) * stride := by push_cast; ring
      rw [index]
      exact calls (k + 1) (by omega) state

/-- The postcondition of a round: one part for leaving the loop, one for going on. -/
def Outcome (leave go : β → σ → Prop) : ForInStep β → σ → Prop
  | .done state => leave state
  | .yield state => go state

theorem Outcome.mono {leave leave' go go' : β → σ → Prop} {step : ForInStep β} {s : σ}
    (holds : Outcome leave go step s) (left : ∀ b s, leave b s → leave' b s)
    (gone : ∀ b s, go b s → go' b s) : Outcome leave' go' step s := by
  cases step with
  | done state => exact left state s holds
  | yield state => exact gone state s holds

section Loops
variable {exec : Machine Op Res σ} {body : Int → β → Program Op Res (ForInStep β)}

/-- The loop rule: `I k` holds before the round `k` rounds from the start. -/
theorem Ends.loop {stride start : Int} {n : Nat} {init : β} {s : σ} (I : Nat → β → σ → Prop)
    {Q : β → σ → Prop} (first : I 0 init s)
    (round : ∀ k state t, k < n → I k state t →
      Ends exec (body (start + k * stride) state) t (Outcome Q (I (k + 1))))
    (last : ∀ state t, I n state t → Q state t) :
    Ends exec (loop body stride n start init) s Q := by
  induction n generalizing start init s I with
  | zero => exact Ends.pure (last init s first)
  | succ n ih =>
    refine Ends.bind (by simpa using round 0 init s (by omega) first) ?_
    intro outcome t holds
    cases outcome with
    | done state => exact Ends.pure holds
    | yield state =>
      -- The rest of the loop starts one round later.
      refine ih (fun k => I (k + 1)) holds ?_ last
      intro k state u bound inv
      have shifted := round (k + 1) state u (by omega) inv
      have index : start + stride + k * stride = start + ((k + 1 : Nat) : Int) * stride := by
        push_cast; ring
      rw [index]
      exact shifted

theorem Ends.forUp {start stop : Int} {init : β} {s : σ} (I : Int → β → σ → Prop)
    {Q : β → σ → Prop} (first : I start init s)
    (round : ∀ i state t, start ≤ i → i < stop → I i state t →
      Ends exec (body i state) t (Outcome Q (I (i + 1))))
    (last : ∀ state t, I (max start stop) state t → Q state t) :
    Ends exec (forUp start stop init body) s Q := by
  refine Ends.loop (fun k => I (start + k)) (by simpa using first) ?_ ?_
  · intro k state t bound inv
    have entered := round (start + k) state t (by omega) (by omega) inv
    have index : start + ((k + 1 : Nat) : Int) = start + k + 1 := by push_cast; ring
    rw [mul_one, index]
    exact entered
  · intro state t inv
    have index : start + (((stop - start).toNat : Nat) : Int) = max start stop := by omega
    exact last state t (by simpa only [index] using inv)

end Loops

end Program
end Foundation
