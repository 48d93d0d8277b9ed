import Mathlib.Data.Set.Insert
import Mathlib.Order.Basic

/-!
# A set that is looked after up to a bound

A component keeps members of a linear order and goes through them up to a bound. It moves the bound
to each member that comes, and leaves it where it is when a member goes. `covers_put` says when the
bound still covers all members after that, and `not_covers_drop` that a member once beyond the bound
stays there as long as only members within the bound go.
-/

namespace CPStudy.Lib

/-- A set with a bound. -/
structure Watch (α : Type*) where
  /-- The members. -/
  members : Set α
  /-- The bound. -/
  bound : α

namespace Watch

variable {α : Type*}

/-- A member comes, and the bound moves to it. -/
def put (w : Watch α) (x : α) : Watch α := { members := insert x w.members, bound := x }

/-- A member goes. -/
def drop (w : Watch α) (x : α) : Watch α := { w with members := w.members \ {x} }

variable [Preorder α] {w : Watch α} {x : α}

/-- All members are within the bound. -/
def Covers (w : Watch α) : Prop := ∀ x ∈ w.members, x ≤ w.bound

/-- A new member leaves all members within the bound exactly where it is above the others. -/
theorem covers_put : (w.put x).Covers ↔ ∀ y ∈ w.members, y ≤ x := by
  unfold Covers put
  dsimp only
  rw [Set.forall_mem_insert]
  exact and_iff_right le_rfl

/-- When a member goes the others stay within the bound. -/
theorem Covers.drop (h : w.Covers) : (w.drop x).Covers := fun y hy => h y hy.1

/-- When a member within the bound goes, one that is not within it stays. -/
theorem not_covers_drop (h : ¬w.Covers) (hx : x ≤ w.bound) : ¬(w.drop x).Covers := by
  intro hcon
  refine h fun y hy => ?_
  by_cases hyx : y = x
  · exact hyx ▸ hx
  · exact hcon y ⟨hy, hyx⟩

end Watch

end CPStudy.Lib
