import Mathlib.Algebra.BigOperators.GroupWithZero.Action
import Mathlib.Algebra.BigOperators.Ring.Finset
import Mathlib.Algebra.Order.BigOperators.Group.Finset
import Mathlib.Data.Finset.Prod
import Mathlib.Tactic.Ring

/-!
# Bins that no two of which could be one

Finitely many bins of a capacity `c` are filled, and what is in any two of them is more than would
go into one. Then they are more than half full on the average (`card_mul_lt_of_pairwise`).
-/

namespace CPStudy.Lib

open Finset

variable {ι : Type*} [DecidableEq ι] {s : Finset ι} {f : ι → ℕ} {c : ℕ}

/-- Over all pairs of two bins each bin is counted once with every other, on either side. -/
theorem sum_offDiag_add (s : Finset ι) (f : ι → ℕ) :
    ∑ p ∈ s.offDiag, (f p.1 + f p.2) = 2 * (s.card - 1) * ∑ i ∈ s, f i := by
  have hdiag : ∑ p ∈ s.diag, (f p.1 + f p.2) = 2 * ∑ i ∈ s, f i := by
    rw [Finset.sum_diag, mul_sum]
    exact sum_congr rfl fun i _ => (two_mul (f i)).symm
  have hall : ∑ p ∈ s ×ˢ s, (f p.1 + f p.2) = 2 * s.card * ∑ i ∈ s, f i := by
    rw [sum_product]
    simp only [sum_add_distrib, sum_const, smul_eq_mul, mul_comm _ s.card, ← mul_sum]
    ring
  have hsplit : ∑ p ∈ s ×ˢ s, (f p.1 + f p.2) =
      ∑ p ∈ s.diag, (f p.1 + f p.2) + ∑ p ∈ s.offDiag, (f p.1 + f p.2) := by
    rw [← Finset.diag_union_offDiag, sum_union (Finset.disjoint_diag_offDiag s)]
  rcases Nat.eq_zero_or_pos s.card with h0 | hpos
  · rw [Finset.card_eq_zero.mp h0]
    rfl
  · obtain ⟨n, hn⟩ := Nat.exists_eq_add_of_lt hpos
    rw [hall, hdiag, hn] at hsplit
    rw [hn]
    have : 2 * (0 + n + 1) * ∑ i ∈ s, f i =
        2 * ∑ i ∈ s, f i + 2 * (0 + n + 1 - 1) * ∑ i ∈ s, f i := by
      rw [Nat.add_sub_cancel]
      ring
    omega

/-- With more than `c` in any two bins, two bins or more hold more than half of what would fill
them. -/
theorem card_mul_lt_of_pairwise (hs : 1 < s.card)
    (h : ∀ i ∈ s, ∀ j ∈ s, i ≠ j → c < f i + f j) : s.card * c < 2 * ∑ i ∈ s, f i := by
  have hpairs : s.offDiag.card * c < ∑ p ∈ s.offDiag, (f p.1 + f p.2) := by
    rw [← smul_eq_mul]
    obtain ⟨i, j, hi, hj, hij⟩ := Finset.one_lt_card_iff.mp hs
    have hne : s.offDiag.Nonempty := ⟨(i, j), Finset.mem_offDiag.mpr ⟨hi, hj, hij⟩⟩
    rw [← Finset.sum_const]
    refine Finset.sum_lt_sum_of_nonempty hne fun p hp => ?_
    obtain ⟨hi, hj, hij⟩ := Finset.mem_offDiag.mp hp
    exact h p.1 hi p.2 hj hij
  rw [sum_offDiag_add, Finset.offDiag_card] at hpairs
  -- There are `card * (card - 1)` pairs, and `card - 1` can be cancelled.
  have hcard : s.card * s.card - s.card = (s.card - 1) * s.card := by
    rw [Nat.sub_mul, one_mul]
  rw [hcard, mul_assoc, Nat.mul_comm 2, mul_assoc] at hpairs
  exact lt_of_mul_lt_mul_left hpairs (Nat.zero_le _)

end CPStudy.Lib
