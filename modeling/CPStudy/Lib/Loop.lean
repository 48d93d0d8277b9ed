import Mathlib.Tactic.Common

/-!
# Loops that may not end

A loop is given by what one pass over its body does with the state: it goes round again with
another state, or leaves with a result. `loop body fuel s` makes at most `fuel` passes and gives
`none` where that is not enough. `loop_of_variant` is the rule of total correctness: an invariant
with a number that every further pass makes smaller. It gives the result for every sufficient number
of passes.
-/

namespace CPStudy.Lib

variable {σ β : Type*}

/-- What one pass over the body of a loop does. -/
inductive Pass (σ β : Type*)
  /-- The loop goes round again. -/
  | again (s : σ)
  /-- The loop is left with a result. -/
  | leave (b : β)

/-- The loop with at most `fuel` passes over its body. -/
def loop (body : σ → Pass σ β) : ℕ → σ → Option β
  | 0, _ => none
  | fuel + 1, s => match body s with
    | .again s' => loop body fuel s'
    | .leave b => some b

variable {body : σ → Pass σ β} {s s' : σ} {b : β} {fuel : ℕ}

/-- A pass that goes round again. -/
theorem loop_again (h : body s = .again s') : loop body (fuel + 1) s = loop body fuel s' := by
  rw [loop, h]

/-- A pass that leaves the loop. -/
theorem loop_leave (h : body s = .leave b) : loop body (fuel + 1) s = some b := by
  rw [loop, h]

/-- Total correctness. `I n s` says that the invariant holds in `s` with at most `n` further passes
to come. Then the loop leaves within `fuel > n` passes, with a result of which `Q` holds. -/
theorem loop_of_variant {I : ℕ → σ → Prop} {Q : β → Prop} {n : ℕ}
    (hagain : ∀ n s s', I n s → body s = .again s' → ∃ m < n, I m s')
    (hleave : ∀ n s b, I n s → body s = .leave b → Q b) (hs : I n s) (hfuel : n < fuel) :
    ∃ b, loop body fuel s = some b ∧ Q b := by
  induction fuel generalizing s n with
  | zero => omega
  | succ fuel ih =>
    cases hb : body s with
    | again s' =>
      obtain ⟨m, hlt, hs'⟩ := hagain n s s' hs hb
      obtain ⟨b, hloop, hq⟩ := ih hs' (by omega)
      exact ⟨b, by rw [loop_again hb, hloop], hq⟩
    | leave b => exact ⟨b, loop_leave hb, hleave n s b hs hb⟩

end CPStudy.Lib
