import Mathlib.Data.List.Basic

/-!
# Buffers of a fixed size

A buffer is a list with its length. Data is written at an offset, a buffer is read from its start,
and one buffer is copied into another; each operation asks for the proof that it stays within the
buffer, so that a buffer of another length cannot come about.
-/

namespace CPStudy.Lib

variable {α : Type*} {n offset k : ℕ} {data : List α}

/-- A buffer of `n` elements. -/
structure Buffer (α : Type*) (n : ℕ) where
  /-- The elements. -/
  toList : List α
  /-- There are `n` of them. -/
  length_eq : toList.length = n

namespace Buffer

/-- A buffer of equal elements. -/
def fill (a : α) (n : ℕ) : Buffer α n where
  toList := List.replicate n a
  length_eq := List.length_replicate

/-- The first `k` elements. -/
def read (b : Buffer α n) (k : ℕ) : List α := b.toList.take k

/-- Writes data at an offset. -/
def write (b : Buffer α n) (offset : ℕ) (data : List α) (h : offset + data.length ≤ n) :
    Buffer α n where
  toList := b.toList.take offset ++ data ++ b.toList.drop (offset + data.length)
  length_eq := by
    simp only [List.length_append, List.length_take, List.length_drop, b.length_eq]
    omega

/-- The number of elements read. -/
theorem length_read (b : Buffer α n) (h : k ≤ n) : (b.read k).length = k := by
  unfold read
  rw [List.length_take, b.length_eq, Nat.min_eq_left h]

/-- Copies the first `k` elements of another buffer. -/
def copy (b b' : Buffer α n) (k : ℕ) (h : k ≤ n) : Buffer α n :=
  b.write 0 (b'.read k) (by rw [length_read b' h]; omega)

/-- What is read up to the end of the data written is what stood before it and the data. -/
theorem read_write (b : Buffer α n) (h : offset + data.length ≤ n) (hk : offset + data.length = k) :
    (b.write offset data h).read k = b.read offset ++ data := by
  have hlen : (b.toList.take offset ++ data).length = k := by
    rw [List.length_append, List.length_take, b.length_eq]
    omega
  exact List.take_left' hlen

/-- What is read of a copy is what was copied. -/
theorem read_copy (b b' : Buffer α n) (h : k ≤ n) : (b.copy b' k h).read k = b'.read k := by
  have hlen : 0 + (b'.read k).length = k := by rw [length_read b' h, Nat.zero_add]
  exact read_write b _ hlen

end Buffer

end CPStudy.Lib
