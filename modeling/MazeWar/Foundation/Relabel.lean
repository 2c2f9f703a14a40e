import MazeWar.Foundation.Memory

/-!
# Relabelled memory

A program whose addresses are renamed does on the renamed memory what the program does on the memory.
-/

namespace Foundation
variable {A B V α β : Type} {dom : A → Prop} {dom' : B → Prop}

/-- One-to-one names for the addresses, under which those of one domain are those of the other. -/
structure Relabelling (dom : A → Prop) (dom' : B → Prop) extends A ≃ B where
  inside : ∀ a, dom' (toEquiv a) ↔ dom a

namespace Relabelling

instance : CoeFun (Relabelling dom dom') fun _ => A → B := ⟨fun r => r.toEquiv⟩

theorem inside_symm (r : Relabelling dom dom') {b : B} (inside : dom' b) : dom (r.toEquiv.symm b) := by
  rw [← r.inside, Equiv.apply_symm_apply]
  exact inside

def memory (r : Relabelling dom dom') (m : Memory dom V) : Memory dom' V :=
  fun b => m ⟨r.toEquiv.symm b, r.inside_symm b.2⟩

def shared (r : Relabelling dom dom') (s : Shared dom V) : Shared dom' V := ⟨r.memory s.cells, s.sem⟩

section
variable (r : Relabelling dom dom') {m : Memory dom V} {s : Shared dom V} {a : A} {v : V}

theorem memory_get? [DecidablePred dom] [DecidablePred dom'] : (r.memory m).get? (r a) = m.get? a := by
  by_cases here : dom a
  · have there : dom' (r a) := (r.inside a).mpr here
    simp only [Memory.get?, dif_pos here, dif_pos there, memory, Equiv.symm_apply_apply]
  · have there : ¬ dom' (r a) := fun inside => here ((r.inside a).mp inside)
    simp only [Memory.get?, dif_neg here, dif_neg there]

theorem memory_put [DecidableEq A] [DecidableEq B] : (r.memory m).put (r a) v = r.memory (m.put a v) := by
  funext b
  have same : (b.1 = r a) = (r.toEquiv.symm b.1 = a) := propext r.toEquiv.symm_apply_eq.symm
  simp only [Memory.put, memory, same]

end

end Relabelling

def relabel (f : A → B) : CellProgram A V α → CellProgram B V α
  | .done value => .done value
  | .call (.load a) next => .call (.load (f a)) fun v => relabel f (next v)
  | .call (.store a v) next => .call (.store (f a) v) fun done => relabel f (next done)
  | .call .wait next => .call .wait fun done => relabel f (next done)
  | .call .post next => .call .post fun done => relabel f (next done)

section
variable {f : A → B}

theorem relabel_bind (program : CellProgram A V α) (rest : α → CellProgram A V β) :
    relabel f (program >>= rest) = relabel f program >>= fun value => relabel f (rest value) := by
  induction program with
  | done value => rfl
  | call op next ih =>
    cases op with
    | load a => exact congrArg (Program.call _) (funext ih)
    | store a v => exact congrArg (Program.call _) (funext ih)
    | wait => exact congrArg (Program.call _) (funext ih)
    | post => exact congrArg (Program.call _) (funext ih)

theorem relabel_loop {body : Int → β → CellProgram A V (ForInStep β)} (stride : Int) (n : Nat) (i : Int) (init : β) :
    relabel f (Program.loop body stride n i init) =
      Program.loop (fun i state => relabel f (body i state)) stride n i init := by
  induction n generalizing i init with
  | zero => rfl
  | succ n ih =>
    simp only [Program.loop, relabel_bind]
    refine congrArg _ (funext fun outcome => ?_)
    cases outcome with
    | done state => rfl
    | yield state => exact ih (i + stride) state

end

variable [DecidablePred dom] [DecidablePred dom'] [DecidableEq A] [DecidableEq B]

/-- The outcome of the renamed run. -/
def Relabelling.outcome (r : Relabelling dom dom') (answer : α × Shared dom V) : α × Shared dom' V :=
  (answer.1, r.shared answer.2)

theorem run_relabel (r : Relabelling dom dom') (program : CellProgram A V α) (s : Shared dom V) :
    (relabel r program).run cellMachine (r.shared s) = (program.run cellMachine s).map r.outcome := by
  induction program generalizing s with
  | done value => rfl
  | call op next ih =>
    cases op with
    | load a =>
      rw [relabel, run_load, run_load, Option.map_bind]
      have same : (r.shared s).cells.get? (r a) = s.cells.get? a := r.memory_get?
      rw [same]
      exact congrArg _ (funext fun v => ih v s)
    | store a v =>
      rw [relabel, run_store, run_store]
      have stored : ({ r.shared s with cells := (r.shared s).cells.put (r a) v } : Shared dom' V) =
          r.shared { s with cells := s.cells.put a v } := by
        show (⟨(r.memory s.cells).put (r a) v, s.sem⟩ : Shared dom' V) = ⟨r.memory (s.cells.put a v), s.sem⟩
        rw [r.memory_put]
      rw [stored]
      by_cases here : dom a
      · rw [if_pos here, if_pos ((r.inside a).mpr here)]
        exact ih () _
      · rw [if_neg here, if_neg fun inside => here ((r.inside a).mp inside)]
        rfl
    | wait =>
      rw [relabel, run_wait, run_wait]
      by_cases free : 0 < s.sem
      · rw [if_pos free, if_pos (show 0 < (r.shared s).sem from free)]
        exact ih () { s with sem := s.sem - 1 }
      · rw [if_neg free, if_neg (show ¬ 0 < (r.shared s).sem from free)]
        rfl
    | post =>
      rw [relabel, run_post, run_post]
      exact ih () { s with sem := s.sem + 1 }

/-! ### Loops whose states are renamed -/

def onState (f : α → β) : ForInStep α → ForInStep β
  | .done state => .done (f state)
  | .yield state => .yield (f state)

/-- Where every round of one loop does what the round of the other does, renamed, so does the loop. -/
theorem run_loop_onState {Op Op' σ τ : Type} {Res : Op → Type} {Res' : Op' → Type} {exec : Machine Op Res σ}
    {exec' : Machine Op' Res' τ} {f : α → β} {g : σ → τ} {body : Int → α → Program Op Res (ForInStep α)}
    {body' : Int → β → Program Op' Res' (ForInStep β)} {stride : Int}
    (round : ∀ i state s, (body' i (f state)).run exec' (g s) =
      ((body i state).run exec s).map fun answer => (onState f answer.1, g answer.2))
    (n : Nat) (i : Int) (state : α) (s : σ) :
    (Program.loop body' stride n i (f state)).run exec' (g s) =
      ((Program.loop body stride n i state).run exec s).map fun answer => (f answer.1, g answer.2) := by
  induction n generalizing i state s with
  | zero => rfl
  | succ n ih =>
    simp only [Program.loop, Program.run_bind, round, Option.bind_map, Option.map_bind]
    refine congrArg _ (funext fun answer => ?_)
    obtain ⟨outcome, t⟩ := answer
    cases outcome with
    | done state => rfl
    | yield state => exact ih (i + stride) state t

end Foundation
