import Mathlib.Data.Fintype.Card
import Mathlib.Data.Fintype.Sum
import Mathlib.Algebra.Order.BigOperators.Group.Finset

/-!
# Counting threads by what they are doing

A component with any number of threads keeps a program point for each of them, as a function of
the thread. `countOf p f` is the number of threads whose program point satisfies `p`; one step of
one thread is `Function.update`, and `countOf_update` says what it does to the number.
-/

namespace CPStudy.Lib

variable {ι β : Type*} [Fintype ι]

/-- The number of indices at which `f` satisfies `p`. -/
def countOf (p : β → Bool) (f : ι → β) : ℕ :=
  (Finset.univ.filter fun i => p (f i) = true).card

variable (p : β → Bool) (f : ι → β)

/-- Moving the index `i` from `f i` to `b` takes it out of the count where it was in it, and puts
it in where `b` is. -/
theorem countOf_update [DecidableEq ι] (i : ι) (b : β) :
    countOf p (Function.update f i b) + (p (f i)).toNat = countOf p f + (p b).toNat := by
  have split : ∀ g : ι → β, countOf p g =
      (p (g i)).toNat + ((Finset.univ.erase i).filter fun j => p (g j) = true).card := by
    intro g
    rw [countOf, ← Finset.insert_erase (Finset.mem_univ i), Finset.filter_insert]
    cases hg : p (g i) <;> simp [hg, Nat.add_comm]
  have others : ((Finset.univ.erase i).filter fun j => p (Function.update f i b j) = true) =
      (Finset.univ.erase i).filter fun j => p (f j) = true := by
    apply Finset.filter_congr
    intro j hj
    rw [Function.update_of_ne (Finset.ne_of_mem_erase hj)]
  rw [split (Function.update f i b), split f, others, Function.update_self]
  omega

/-- The count is positive exactly when some index is in it. -/
theorem countOf_pos : 0 < countOf p f ↔ ∃ i, p (f i) = true := by
  simp [countOf, Finset.card_pos, Finset.Nonempty]

/-- The count is zero exactly when no index is in it. -/
theorem countOf_eq_zero : countOf p f = 0 ↔ ∀ i, p (f i) = false := by
  simp [countOf, Finset.filter_eq_empty_iff]

/-- The count is one where exactly one index is in it. -/
theorem countOf_eq_one {i : ι} (hi : p (f i) = true) (ho : ∀ j, p (f j) = true → j = i) :
    countOf p f = 1 := by
  unfold countOf
  rw [Finset.card_eq_one]
  refine ⟨i, Finset.ext fun j => ?_⟩
  simp only [Finset.mem_filter, Finset.mem_univ, true_and, Finset.mem_singleton]
  exact ⟨ho j, fun hj => hj ▸ hi⟩

/-- The sum of a weight over all threads. -/
def sumOf (w : β → ℕ) (f : ι → β) : ℕ := ∑ i, w (f i)

variable (w : β → ℕ)

/-- Moving the index `i` from `f i` to `b` takes the weight of the one out of the sum and puts that
of the other in. -/
theorem sumOf_update [DecidableEq ι] (i : ι) (b : β) :
    sumOf w (Function.update f i b) + w (f i) = sumOf w f + w b := by
  have split : ∀ g : ι → β, sumOf w g = ∑ j ∈ Finset.univ.erase i, w (g j) + w (g i) := fun g =>
    (Finset.sum_erase_add Finset.univ (fun j => w (g j)) (Finset.mem_univ i)).symm
  have others : ∑ j ∈ Finset.univ.erase i, w (Function.update f i b j) =
      ∑ j ∈ Finset.univ.erase i, w (f j) := by
    apply Finset.sum_congr rfl
    intro j hj
    rw [Function.update_of_ne (Finset.ne_of_mem_erase hj)]
  rw [split (Function.update f i b), split f, others, Function.update_self]
  omega

/-- Where no weight grows by more than `c`, the sum grows by no more than `c` for each index. -/
theorem sumOf_le {g : ι → β} {c : ℕ} (h : ∀ i, w (g i) ≤ w (f i) + c) :
    sumOf w g ≤ sumOf w f + Fintype.card ι * c := by
  have hsum : sumOf w g ≤ ∑ i, (w (f i) + c) := Finset.sum_le_sum fun i _ => h i
  rwa [Finset.sum_add_distrib, Finset.sum_const_nat fun _ _ => rfl, Finset.card_univ] at hsum

end CPStudy.Lib
