import MazeWar.Foundation.Memory

/-!
# Tokens on a board

A board is a memory with blank cells and fixed cells. Owners put their token on a
blank cell, move it and take it back. `Shows` says that a memory shows exactly the
tokens at their locations, over the board they started on.
-/

namespace Foundation
variable {A V ι : Type} {dom : A → Prop}

theorem Memory.put_comm [DecidableEq A] {m : Memory dom V} {a b : A} {v w : V} (different : a ≠ b) :
    (m.put a v).put b w = (m.put b w).put a v := by
  funext c
  by_cases atA : c.1 = a
  · have notB : c.1 ≠ b := by rw [atA]; exact different
    simp [Memory.put, atA, different]
  · simp [Memory.put, atA]

variable [DecidablePred dom]

structure Tokens (blank : V) (token : ι → V) : Prop where
  injective : Function.Injective token
  visible : ∀ i, token i ≠ blank

structure Shows (blank : V) (token : ι → V) (board : Memory dom V) (loc : ι → Option A)
    (m : Memory dom V) : Prop where
  tracked : ∀ i a, loc i = some a → m.get? a = some (token i)
  rest : ∀ a, (∀ i, loc i ≠ some a) → m.get? a = board.get? a
  onBlank : ∀ i a, loc i = some a → board.get? a = some blank

namespace Shows
variable {blank : V} {token : ι → V} {board m : Memory dom V} {loc : ι → Option A} {i : ι} {a b : A} {v : V}

theorem initial : Shows blank token board (fun _ => none) board :=
  ⟨by simp, fun _ _ => rfl, by simp⟩

/-- No token lies on a blank cell, and a blank cell was blank from the start. -/
theorem nobody (tokens : Tokens blank token) (shows_ : Shows blank token board loc m)
    (clear : m.get? a = some blank) : (∀ i, loc i ≠ some a) ∧ board.get? a = some blank := by
  have absent : ∀ i, loc i ≠ some a := by
    intro i located
    exact tokens.visible i (Option.some.inj ((shows_.tracked i a located).symm.trans clear))
  exact ⟨absent, (shows_.rest a absent).symm.trans clear⟩

theorem apart (tokens : Tokens blank token) (shows_ : Shows blank token board loc m) {j : ι}
    (here : loc i = some a) (there : loc j = some a) : i = j :=
  tokens.injective (Option.some.inj ((shows_.tracked i a here).symm.trans (shows_.tracked j a there)))

theorem fixed (shows_ : Shows blank token board loc m) (present : board.get? a = some v) (solid : v ≠ blank) :
    m.get? a = some v := by
  rw [shows_.rest a, present]
  intro i located
  exact solid (Option.some.inj (present.symm.trans (shows_.onBlank i a located)))

theorem exactly (tokens : Tokens blank token) (shows_ : Shows blank token board loc m)
    (bare : ∀ b j, board.get? b ≠ some (token j)) (located : loc i = some a) :
    m.get? b = some (token i) ↔ b = a := by
  constructor
  · intro seen
    by_contra elsewhere
    by_cases taken : ∃ j, loc j = some b
    · obtain ⟨j, there⟩ := taken
      have same := tokens.injective (Option.some.inj ((shows_.tracked j b there).symm.trans seen))
      subst same
      exact elsewhere (Option.some.inj (there.symm.trans located))
    · rw [shows_.rest b fun j there => taken ⟨j, there⟩] at seen
      exact bare b i seen
  · rintro rfl
    exact shows_.tracked i b located

/-! ### Operations of the owners -/

variable [DecidableEq A] [DecidableEq ι]

theorem place (tokens : Tokens blank token) (shows_ : Shows blank token board loc m)
    (out : loc i = none) (clear : m.get? a = some blank) :
    Shows blank token board (Function.update loc i (some a)) (m.put a (token i)) := by
  obtain ⟨absent, wasBlank⟩ := shows_.nobody tokens clear
  have inside := Memory.mem_of_get? clear
  refine ⟨?_, ?_, ?_⟩
  · intro j b located
    by_cases same : j = i
    · subst same
      rw [Function.update_self] at located
      cases located
      exact Memory.get?_put_self inside
    · rw [Function.update_of_ne same] at located
      have elsewhere : b ≠ a := by rintro rfl; exact absent j located
      rw [Memory.get?_put_ne elsewhere]
      exact shows_.tracked j b located
  · intro b free
    have elsewhere : b ≠ a := by
      rintro rfl
      exact free i (by rw [Function.update_self])
    rw [Memory.get?_put_ne elsewhere]
    refine shows_.rest b fun j located => ?_
    have other : j ≠ i := by rintro rfl; rw [out] at located; cases located
    exact free j (by rw [Function.update_of_ne other]; exact located)
  · intro j b located
    by_cases same : j = i
    · subst same
      rw [Function.update_self] at located
      cases located
      exact wasBlank
    · rw [Function.update_of_ne same] at located
      exact shows_.onBlank j b located

theorem vacate (tokens : Tokens blank token) (shows_ : Shows blank token board loc m)
    (located : loc i = some a) :
    Shows blank token board (Function.update loc i none) (m.put a blank) := by
  have inside := Memory.mem_of_get? (shows_.tracked i a located)
  have others : ∀ {j b}, Function.update loc i none j = some b → j ≠ i ∧ loc j = some b := by
    intro j b there
    have other : j ≠ i := by rintro rfl; simp at there
    exact ⟨other, by rwa [Function.update_of_ne other] at there⟩
  refine ⟨?_, ?_, ?_⟩
  · intro j b there
    obtain ⟨other, there⟩ := others there
    have elsewhere : b ≠ a := by rintro rfl; exact other (shows_.apart tokens there located)
    rw [Memory.get?_put_ne elsewhere]
    exact shows_.tracked j b there
  · intro b free
    by_cases same : b = a
    · subst same
      rw [Memory.get?_put_self inside]
      exact (shows_.onBlank i b located).symm
    · rw [Memory.get?_put_ne same]
      refine shows_.rest b fun j there => ?_
      have other : j ≠ i := by rintro rfl; exact same (Option.some.inj (there.symm.trans located))
      exact free j (by rw [Function.update_of_ne other]; exact there)
  · intro j b there
    exact shows_.onBlank j b (others there).2

theorem move (tokens : Tokens blank token) (shows_ : Shows blank token board loc m)
    (located : loc i = some a) (clear : m.get? b = some blank) :
    Shows blank token board (Function.update loc i (some b)) ((m.put b (token i)).put a blank) := by
  have different : b ≠ a := by
    rintro rfl
    exact (shows_.nobody tokens clear).1 i located
  have left := shows_.vacate tokens located
  have stillClear : (m.put a blank).get? b = some blank := by
    rw [Memory.get?_put_ne different]; exact clear
  have placed := left.place tokens (Function.update_self i none loc) stillClear
  rw [Function.update_idem] at placed
  rw [Memory.put_comm different]
  exact placed

end Shows
end Foundation
