import Mathlib.Logic.Function.Basic
import Mathlib.Tactic.Common

/-!
# The owner of a mutex and the threads that hold it

A mutex has a word that names its owner, and each thread has a program point that says whether it
holds the mutex. `Guards owner holds` says that the two agree. It is kept by a thread that stays
inside or outside, by one that acquires the free mutex and by one that releases it, and while it
holds no two threads are inside (`Guards.unique`).
-/

namespace CPStudy.Lib

open Function (update)

variable {ι : Type*} {owner : Option ι} {holds : ι → Bool} {t u : ι} {b : Bool}

/-- The owner is the one thread that holds the mutex, if any. -/
def Guards (owner : Option ι) (holds : ι → Bool) : Prop := ∀ t, owner = some t ↔ holds t = true

namespace Guards

/-- A free mutex that nobody holds. -/
theorem free : Guards (none : Option ι) fun _ => false := fun _ => by simp

/-- Mutual exclusion. -/
theorem unique (h : Guards owner holds) (ht : holds t = true) (hu : holds u = true) : t = u := by
  have hto : owner = some t := (h t).mpr ht
  have huo : owner = some u := (h u).mpr hu
  rw [hto] at huo
  exact Option.some.inj huo

/-- While one thread holds the mutex, another does not. -/
theorem eq_false_of_ne (h : Guards owner holds) (ht : holds t = true) (hne : u ≠ t) :
    holds u = false := by
  by_contra hu
  exact hne (h.unique ((Bool.not_eq_false _).mp hu) ht)

/-- Nobody holds a free mutex. -/
theorem eq_false (h : Guards none holds) (t : ι) : holds t = false := by
  by_contra ht
  have hown := (h t).mpr ((Bool.not_eq_false _).mp ht)
  cases hown

/-- Somebody holds a mutex that is not free. -/
theorem exists_of_ne_none (h : Guards owner holds) (hne : owner ≠ none) : ∃ t, holds t = true := by
  obtain ⟨t, ht⟩ := Option.ne_none_iff_exists'.mp hne
  exact ⟨t, (h t).mp ht⟩

variable [DecidableEq ι]

/-- A thread goes on, inside or outside. -/
theorem keep (h : Guards owner holds) (hb : b = holds t) : Guards owner (update holds t b) := by
  rw [hb, Function.update_eq_self]
  exact h

/-- A thread acquires the free mutex. -/
theorem acquire (h : Guards none holds) (hb : b = true) :
    Guards (some t) (update holds t b) := by
  intro u
  by_cases hu : u = t
  · rw [hu, Function.update_self]
    exact ⟨fun _ => hb, fun _ => rfl⟩
  · rw [Function.update_of_ne hu, h.eq_false u]
    constructor
    · intro hown
      exact absurd (Option.some.inj hown).symm hu
    · intro hfalse
      cases hfalse

/-- The owner releases the mutex. -/
theorem release (h : Guards owner holds) (ht : holds t = true) (hb : b = false) :
    Guards none (update holds t b) := by
  intro u
  constructor
  · intro hown
    cases hown
  · intro hu
    by_cases hut : u = t
    · rw [hut, Function.update_self, hb] at hu
      cases hu
    · rw [Function.update_of_ne hut, h.eq_false_of_ne ht hut] at hu
      cases hu

end Guards

end CPStudy.Lib
