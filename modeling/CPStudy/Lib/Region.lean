import Mathlib.Order.Interval.Set.Basic

/-!
# Regions of memory

A region is a base address and a number of bytes. Two regions are apart when one ends before the
other begins, which is how allocators keep them; `Apart.notMem` is what it is for. A region that
lies within another keeps whatever the larger one is apart from.
-/

namespace CPStudy.Lib

/-- A region of memory. -/
@[ext]
structure Region where
  /-- The address of the first byte. -/
  base : ℕ
  /-- The number of bytes. -/
  size : ℕ
deriving DecidableEq

namespace Region

variable {r r' s s' : Region}

/-- The addresses of the region's bytes. -/
def bytes (r : Region) : Set ℕ := Set.Ico r.base (r.base + r.size)

/-- One region ends before the other begins. -/
def Apart (r r' : Region) : Prop := r.base + r.size ≤ r'.base ∨ r'.base + r'.size ≤ r.base

/-- The region lies within the other. -/
def Within (r r' : Region) : Prop := r'.base ≤ r.base ∧ r.base + r.size ≤ r'.base + r'.size

/-- The address of one of the region's bytes. -/
theorem mem_bytes {x : ℕ} : x ∈ r.bytes ↔ r.base ≤ x ∧ x < r.base + r.size := Set.mem_Ico

/-- When two regions given by address and size are apart. -/
theorem apart_mk {a b n m : ℕ} :
    (⟨a, n⟩ : Region).Apart ⟨b, m⟩ ↔ a + n ≤ b ∨ b + m ≤ a := Iff.rfl

/-- Regions that are apart share no byte. -/
theorem Apart.notMem (h : r.Apart r') {x : ℕ} (hx : x ∈ r.bytes) : x ∉ r'.bytes := by
  intro hx'
  rw [mem_bytes] at hx hx'
  unfold Apart at h
  omega

/-- What lies within regions that are apart is apart. -/
theorem Apart.mono (h : r.Apart r') (hs : s.Within r) (hs' : s'.Within r') : s.Apart s' := by
  unfold Apart at *
  unfold Within at *
  omega

/-- Regions that are not empty and apart begin at different addresses. -/
theorem Apart.base_ne (h : r.Apart r') (hr : 0 < r.size) (hr' : 0 < r'.size) :
    r.base ≠ r'.base := by
  unfold Apart at h
  omega

end Region

end CPStudy.Lib
