import MazeWar.Foundation.Program
import Mathlib.Logic.Hydra

/-!
# Threads

Any number of threads, each with what is left of its program, execute one operation at a time on a
state that they share.
-/

namespace Foundation
variable {ι Op : Type} {Res : Op → Type} {α σ : Type}

structure Pool (ι Op : Type) (Res : Op → Type) (α σ : Type) where
  left : ι → Program Op Res α
  shared : σ

namespace Pool

def Finished (pool : Pool ι Op Res α σ) : Prop := ∀ i, ∃ value, pool.left i = .done value

section Steps
variable [DecidableEq ι] {exec : Machine Op Res σ} {pool t : Pool ι Op Res α σ} {i : ι}

/-- The next operation of one thread. -/
def step (exec : Machine Op Res σ) (pool : Pool ι Op Res α σ) (i : ι) : Option (Pool ι Op Res α σ) :=
  match pool.left i with
  | .done _ => none
  | .call op next => (exec op pool.shared).map fun answer =>
    ⟨Function.update pool.left i (next answer.1), answer.2⟩

theorem step_iff : pool.step exec i = some t ↔ ∃ op next result shared, pool.left i = .call op next ∧
    exec op pool.shared = some (result, shared) ∧ t = ⟨Function.update pool.left i (next result), shared⟩ := by
  unfold step
  cases left : pool.left i with
  | done value => simp
  | call op next =>
    constructor
    · intro stepped
      obtain ⟨⟨result, shared⟩, executed, same⟩ := Option.map_eq_some_iff.mp stepped
      exact ⟨op, next, result, shared, rfl, executed, same.symm⟩
    · rintro ⟨_, _, result, shared, same, executed, rfl⟩
      cases same
      simp only [executed, Option.map_some]

theorem step_none_iff : pool.step exec i = none ↔
    ∀ op next, pool.left i = .call op next → exec op pool.shared = none := by
  unfold step
  cases left : pool.left i with
  | done value => simp
  | call op next =>
    constructor
    · intro stuck op' next' same
      cases same
      exact Option.map_eq_none_iff.mp stuck
    · intro stuck
      exact Option.map_eq_none_iff.mpr (stuck op next rfl)

end Steps

/-! ### Every run ends -/

/-- What is left of a program after one operation. -/
def Next (after before : Program Op Res α) : Prop :=
  ∃ op next result, before = .call op next ∧ after = next result

theorem next_wellFounded : WellFounded (Next : Program Op Res α → Program Op Res α → Prop) := by
  refine ⟨fun program => ?_⟩
  induction program with
  | done value =>
    refine ⟨_, ?_⟩
    rintro _ ⟨_, _, _, same, _⟩
    cases same
  | call op next ih =>
    refine ⟨_, ?_⟩
    rintro _ ⟨_, _, result, same, rfl⟩
    cases same
    exact ih result

variable [DecidableEq ι] [Fintype ι]

/-- The programs of all threads, as a multiset. -/
def programs (pool : Pool ι Op Res α σ) : Multiset (Program Op Res α) := Finset.univ.val.map pool.left

theorem map_update (f : ι → Program Op Res α) (i : ι) (program : Program Op Res α) :
    Finset.univ.val.map (Function.update f i program) + {f i} = Finset.univ.val.map f + {program} := by
  have split : (Finset.univ : Finset ι).val = i ::ₘ (Finset.univ.erase i).val := by
    rw [← Finset.insert_val_of_notMem (Finset.notMem_erase i _), Finset.insert_erase (Finset.mem_univ i)]
  have others : (Finset.univ.erase i).val.map (Function.update f i program) = (Finset.univ.erase i).val.map f :=
    Multiset.map_congr rfl fun j member => Function.update_of_ne (Finset.ne_of_mem_erase member) program f
  rw [split, Multiset.map_cons, Multiset.map_cons, others, Function.update_self, ← Multiset.singleton_add,
    ← Multiset.singleton_add]
  abel

/-- There is no infinite run: every step takes one program to what is left of it. -/
theorem step_wellFounded (exec : Machine Op Res σ) :
    WellFounded fun t pool : Pool ι Op Res α σ => ∃ i, pool.step exec i = some t := by
  refine Subrelation.wf ?_ (InvImage.wf programs next_wellFounded.cutExpand)
  rintro t pool ⟨i, stepped⟩
  obtain ⟨op, next, result, shared, left, _, rfl⟩ := step_iff.mp stepped
  refine ⟨{next result}, pool.left i, ?_, map_update pool.left i (next result)⟩
  intro program member
  obtain rfl := Multiset.mem_singleton.mp member
  exact ⟨op, next, result, left, rfl⟩

end Pool
end Foundation
