import Mathlib.Tactic

/-!
# Runs of labelled partial steps

A system is a partial step function on states, labelled by the action taken.
A run is a list of actions. `Guarded` says that every action of a run meets a
condition on the state it is taken in.
-/

namespace Foundation
variable {S A : Type}

def runs (step : S → A → Option S) : S → List A → Option S
  | s, [] => some s
  | s, action :: rest => (step s action).bind fun t => runs step t rest

def Guarded (step : S → A → Option S) (guard : S → A → Prop) : S → List A → Prop
  | _, [] => True
  | s, action :: rest => guard s action ∧ ∀ t, step s action = some t → Guarded step guard t rest

instance decidableGuarded {step : S → A → Option S} {guard : S → A → Prop}
    [∀ s action, Decidable (guard s action)] : ∀ s actions, Decidable (Guarded step guard s actions)
  | _, [] => .isTrue trivial
  | s, action :: rest =>
    match stepped : step s action with
    | none => decidable_of_iff (guard s action) (by simp [Guarded, stepped])
    | some t =>
      have : Decidable (Guarded step guard t rest) := decidableGuarded t rest
      decidable_of_iff (guard s action ∧ Guarded step guard t rest) (by simp [Guarded, stepped])

section Runs
variable {step : S → A → Option S} {guard : S → A → Prop} {I : S → Prop} {s t u : S}
  {action : A} {actions : List A}

@[simp] theorem runs_nil : runs step s [] = some s := rfl

theorem runs_cons_iff :
    runs step s (action :: actions) = some u ↔ ∃ t, step s action = some t ∧ runs step t actions = some u :=
  Option.bind_eq_some_iff

theorem runs_guarded_invariant
    (keep : ∀ s action t, I s → guard s action → step s action = some t → I t)
    (start : I s) (guarded : Guarded step guard s actions) (ran : runs step s actions = some t) : I t := by
  induction actions generalizing s with
  | nil => cases ran; exact start
  | cons action rest ih =>
    obtain ⟨middle, first, ran⟩ := runs_cons_iff.mp ran
    exact ih (keep s action middle start guarded.1 first) (guarded.2 middle first) ran

theorem runs_invariant (keep : ∀ s action t, I s → step s action = some t → I t)
    (start : I s) (ran : runs step s actions = some t) : I t := by
  induction actions generalizing s with
  | nil => cases ran; exact start
  | cons action rest ih =>
    obtain ⟨middle, first, ran⟩ := runs_cons_iff.mp ran
    exact ih (keep s action middle start first) ran

theorem guarded_of_forall (always : ∀ action ∈ actions, ∀ s, guard s action) : Guarded step guard s actions := by
  induction actions generalizing s with
  | nil => trivial
  | cons action rest ih =>
    rw [List.forall_mem_cons] at always
    exact ⟨always.1 s, fun t _ => ih always.2⟩

/-- Under an invariant that a guard keeps, a guarded run also meets what the guard implies. -/
theorem Guarded.implies {guard' : S → A → Prop}
    (keep : ∀ s action t, I s → guard s action → step s action = some t → I t)
    (meets : ∀ s action, I s → guard s action → guard' s action) (start : I s)
    (guarded : Guarded step guard s actions) : Guarded step guard' s actions := by
  induction actions generalizing s with
  | nil => trivial
  | cons action rest ih =>
    exact ⟨meets s action start guarded.1,
      fun t stepped => ih (keep s action t start guarded.1 stepped) (guarded.2 t stepped)⟩

/-- A run that never meets a guard's violation with consequences that last is a guarded one. -/
theorem guarded_of_runs {D : S → Prop} (keep : ∀ s action t, I s → step s action = some t → I t)
    (breaks : ∀ s action t, I s → ¬ guard s action → step s action = some t → D t)
    (lasts : ∀ s action t, D s → step s action = some t → D t)
    (start : I s) (ran : runs step s actions = some u) (spared : ¬ D u) : Guarded step guard s actions := by
  induction actions generalizing s with
  | nil => trivial
  | cons action rest ih =>
    obtain ⟨t, stepped, ran⟩ := runs_cons_iff.mp ran
    have allowed : guard s action := by
      by_contra disallowed
      exact spared (runs_invariant lasts (breaks s action t start disallowed stepped) ran)
    refine ⟨allowed, fun t' stepped' => ?_⟩
    obtain rfl := Option.some.inj (stepped.symm.trans stepped')
    exact ih (keep s action t start stepped) ran

theorem runs_append {rest : List A} :
    runs step s (actions ++ rest) = (runs step s actions).bind fun t => runs step t rest := by
  induction actions generalizing s with
  | nil => rfl
  | cons action actions ih => simp only [List.cons_append, runs, ih, Option.bind_assoc]

/-- The states that runs lead to. -/
theorem runs_iff_reflTransGen :
    (∃ actions, runs step s actions = some t) ↔ Relation.ReflTransGen (fun a b => ∃ action, step a action = some b) s t := by
  constructor
  · rintro ⟨actions, ran⟩
    induction actions generalizing s with
    | nil =>
      cases ran
      exact .refl
    | cons action rest ih =>
      obtain ⟨middle, first, ran⟩ := runs_cons_iff.mp ran
      exact .head ⟨action, first⟩ (ih ran)
  · intro reached
    induction reached with
    | refl => exact ⟨[], rfl⟩
    | tail _ last ih =>
      obtain ⟨actions, ran⟩ := ih
      obtain ⟨action, stepped⟩ := last
      exact ⟨actions ++ [action], by rw [runs_append, ran]; simp [runs, stepped]⟩

theorem Guarded.earlier {rest : List A} (guarded : Guarded step guard s (actions ++ rest)) :
    Guarded step guard s actions := by
  induction actions generalizing s with
  | nil => trivial
  | cons action actions ih => exact ⟨guarded.1, fun t stepped => ih (guarded.2 t stepped)⟩

theorem Guarded.later {rest : List A} (guarded : Guarded step guard s (actions ++ rest))
    (ran : runs step s actions = some t) :
    Guarded step guard t rest := by
  induction actions generalizing s with
  | nil =>
    cases ran
    exact guarded
  | cons action actions ih =>
    obtain ⟨middle, first, ran⟩ := runs_cons_iff.mp ran
    exact ih (guarded.2 middle first) ran

/-- Where every step has an inverse step, a run is undone by the inverses, the last first. -/
theorem runs_undo {inverse : A → A}
    (undo : ∀ s action t, step s action = some t → step t (inverse action) = some s)
    (ran : runs step s actions = some t) : runs step t (actions.reverse.map inverse) = some s := by
  induction actions generalizing s with
  | nil => cases ran; rfl
  | cons action rest ih =>
    obtain ⟨middle, first, ran⟩ := runs_cons_iff.mp ran
    rw [List.reverse_cons, List.map_append, runs_append, ih ran, Option.bind_some]
    exact runs_cons_iff.mpr ⟨s, undo s action middle first, rfl⟩

/-- A system whose steps are, each, a step of another system or none of its steps, runs as that one does. -/
theorem runs_stutter {S' : Type} {step' : S' → A → Option S'} {R : S → S' → Prop}
    (simulates : ∀ s s' action t', R s s' → step' s' action = some t' →
      R s t' ∨ ∃ t, step s action = some t ∧ R t t') {s' t' : S'} (related : R s s')
    (ran : runs step' s' actions = some t') :
    ∃ order t, order.Sublist actions ∧ runs step s order = some t ∧ R t t' := by
  induction actions generalizing s s' with
  | nil =>
    cases ran
    exact ⟨[], s, .refl [], rfl, related⟩
  | cons action rest ih =>
    obtain ⟨middle', stepped, ran⟩ := runs_cons_iff.mp ran
    rcases simulates s s' action middle' related stepped with waited | ⟨middle, stepped, related⟩
    · obtain ⟨order, t, part, reached, final⟩ := ih waited ran
      exact ⟨order, t, part.cons action, reached, final⟩
    · obtain ⟨order, t, part, reached, final⟩ := ih related ran
      exact ⟨action :: order, t, part.cons_cons action, runs_cons_iff.mpr ⟨middle, stepped, reached⟩, final⟩

/-! ### Properties of every state of a run -/

/-- `P` holds in every state of the run, of the state and of the action taken there, if any. -/
def Along (step : S → A → Option S) (P : S → Option A → Prop) (s : S) (actions : List A) : Prop :=
  ∀ before after t, actions = before ++ after → runs step s before = some t → P t after.head?

variable {P : S → Option A → Prop}

theorem Along.here (along : Along step P s actions) : P s actions.head? := along [] actions s rfl rfl

theorem along_nil : Along step P s [] ↔ P s none := by
  constructor
  · exact Along.here
  · intro here before after t same ran
    obtain ⟨rfl, rfl⟩ := List.append_eq_nil_iff.mp same.symm
    cases ran
    exact here

theorem along_cons (stepped : step s action = some t) :
    Along step P s (action :: actions) ↔ P s (some action) ∧ Along step P t actions := by
  constructor
  · intro along
    refine ⟨along.here, fun before after u same ran => ?_⟩
    exact along (action :: before) after u (by rw [same]; rfl) (runs_cons_iff.mpr ⟨t, stepped, ran⟩)
  · intro ⟨here, later⟩ before after u same ran
    cases before with
    | nil =>
      cases ran
      obtain rfl : action :: actions = after := same
      exact here
    | cons first rest =>
      obtain ⟨rfl, rfl⟩ := List.cons.inj same
      obtain ⟨t', stepped', ran⟩ := runs_cons_iff.mp ran
      obtain rfl := Option.some.inj (stepped.symm.trans stepped')
      exact later rest after u rfl ran

/-- A guard that keeps an invariant under which `P` holds, and whose violation breaks `P` at once
or in the next state, is exactly the condition for `P` to hold along a run. -/
theorem along_iff_guarded (keep : ∀ s action t, I s → guard s action → step s action = some t → I t)
    (ended : ∀ s, I s → P s none) (meets : ∀ s action t, I s → guard s action → step s action = some t → P s (some action))
    (breaks : ∀ s action t, I s → ¬ guard s action → step s action = some t →
      P s (some action) → ∀ next, ¬ P t next)
    (start : I s) (ran : runs step s actions = some u) :
    Along step P s actions ↔ Guarded step guard s actions := by
  induction actions generalizing s with
  | nil => exact along_nil.trans (iff_of_true (ended s start) trivial)
  | cons action rest ih =>
    obtain ⟨t, stepped, ran⟩ := runs_cons_iff.mp ran
    rw [along_cons stepped]
    constructor
    · intro ⟨here, later⟩
      have allowed : guard s action := by
        by_contra disallowed
        exact breaks s action t start disallowed stepped here _ later.here
      refine ⟨allowed, fun t' stepped' => ?_⟩
      obtain rfl := Option.some.inj (stepped.symm.trans stepped')
      exact (ih (keep s action t start allowed stepped) ran).mp later
    · intro ⟨allowed, later⟩
      exact ⟨meets s action t start allowed stepped,
        (ih (keep s action t start allowed stepped) ran).mpr (later t stepped)⟩

/-! ### Runs that never get stuck -/

/-- Every action of the run has a result, and `Q` holds in every state. -/
def Throughout (step : S → A → Option S) (Q : S → Prop) (s : S) (actions : List A) : Prop :=
  ∀ count, ∃ t, runs step s (actions.take count) = some t ∧ Q t

variable {Q : S → Prop}

theorem Throughout.here (throughout : Throughout step Q s actions) : Q s := by
  obtain ⟨t, same, holds⟩ := throughout 0
  cases same
  exact holds

theorem throughout_cons : Throughout step Q s (action :: actions) ↔
    Q s ∧ ∃ t, step s action = some t ∧ Throughout step Q t actions := by
  constructor
  · intro throughout
    obtain ⟨_, first, _⟩ := throughout 1
    obtain ⟨t, stepped, _⟩ := runs_cons_iff.mp first
    refine ⟨throughout.here, t, stepped, fun count => ?_⟩
    obtain ⟨u, ran, holds⟩ := throughout (count + 1)
    obtain ⟨t', stepped', ran⟩ := runs_cons_iff.mp ran
    obtain rfl := Option.some.inj (stepped.symm.trans stepped')
    exact ⟨u, ran, holds⟩
  · intro ⟨here, t, stepped, later⟩ count
    cases count with
    | zero => exact ⟨s, rfl, here⟩
    | succ count =>
      obtain ⟨u, ran, holds⟩ := later count
      exact ⟨u, runs_cons_iff.mpr ⟨t, stepped, ran⟩, holds⟩

/-- The condition for `Q` to hold throughout a run: a guard under which steps have a result and keep
an invariant, and whose violation breaks `Q` in the next state. -/
theorem throughout_iff_guarded (meets : ∀ s, I s → Q s)
    (keep : ∀ s action, I s → guard s action → ∃ t, step s action = some t ∧ I t)
    (breaks : ∀ s action t, I s → ¬ guard s action → step s action = some t → ¬ Q t) (start : I s) :
    Throughout step Q s actions ↔ Guarded step guard s actions := by
  induction actions generalizing s with
  | nil => exact iff_of_true (fun count => ⟨s, by simp, meets s start⟩) trivial
  | cons action rest ih =>
    rw [throughout_cons]
    constructor
    · intro ⟨_, t, stepped, later⟩
      have allowed : guard s action := by
        by_contra disallowed
        exact breaks s action t start disallowed stepped later.here
      obtain ⟨t', stepped', kept⟩ := keep s action start allowed
      obtain rfl := Option.some.inj (stepped.symm.trans stepped')
      refine ⟨allowed, fun u stepped' => ?_⟩
      obtain rfl := Option.some.inj (stepped.symm.trans stepped')
      exact (ih kept).mp later
    · intro ⟨allowed, later⟩
      obtain ⟨t, stepped, kept⟩ := keep s action start allowed
      exact ⟨meets s start, t, stepped, (ih kept).mpr (later t stepped)⟩

end Runs

end Foundation
