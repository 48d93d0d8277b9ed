import Mathlib.Data.List.Basic
import Mathlib.Logic.Function.Basic
import Mathlib.Tactic.Ring

/-!
# Words in a memory of bytes

A memory gives a byte for each address. A word of `w` bytes is kept with its lowest byte first
(`load`, `store`), and what is loaded is what was stored, cut to `w` bytes (`load_store`). A store
changes the bytes of its word alone (`store_of_notMem`), and a load depends on the bytes of its
word alone (`load_congr`).

`Links mem p xs` says that the words at the addresses `xs` form a list that is entered at `p`: each
word holds the address of the next one. Nothing is said about the last word, so that such a list is
of use only together with a count of its elements.
-/

namespace CPStudy.Lib

open Function (update)

/-- A memory of bytes. -/
abbrev Memory := ℕ → UInt8

namespace Memory

variable {mem mem' : Memory} {w a b v p : ℕ} {xs : List ℕ}

/-- The word of `w` bytes at `a`. -/
def load : ℕ → Memory → ℕ → ℕ
  | 0, _, _ => 0
  | w + 1, mem, a => (mem a).toNat + 256 * load w mem (a + 1)

/-- Stores `v` in the `w` bytes at `a`. -/
def store : ℕ → Memory → ℕ → ℕ → Memory
  | 0, mem, _, _ => mem
  | w + 1, mem, a, v => store w (update mem a (UInt8.ofNat v)) (a + 1) (v / 256)

/-- A store changes the bytes of its word alone. -/
theorem store_of_notMem {x : ℕ} (h : x < a ∨ a + w ≤ x) : store w mem a v x = mem x := by
  induction w generalizing mem a v with
  | zero => rfl
  | succ w ih =>
    rw [store, ih (by omega), Function.update_of_ne (by omega)]

/-- A load depends on the bytes of its word alone. -/
theorem load_congr (h : ∀ x, a ≤ x → x < a + w → mem' x = mem x) :
    load w mem' a = load w mem a := by
  induction w generalizing a with
  | zero => rfl
  | succ w ih =>
    rw [load, load, h a (le_refl a) (by omega), ih fun x hx hx' => h x (by omega) (by omega)]

/-- What is loaded is what was stored, cut to the bytes of the word. -/
theorem load_store : load w (store w mem a v) a = v % 256 ^ w := by
  induction w generalizing mem a v with
  | zero => rw [load, pow_zero, Nat.mod_one]
  | succ w ih =>
    -- The later bytes are stored behind the lowest one and leave it alone.
    have hbyte : store (w + 1) mem a v a = UInt8.ofNat v := by
      rw [store, store_of_notMem (by omega), Function.update_self]
    have hval : (UInt8.ofNat v).toNat = v % 256 := UInt8.toNat_ofNat'
    rw [load, hbyte, hval, store, ih, pow_succ', Nat.mod_mul]

/-- A store leaves a word alone that shares no byte with it. -/
theorem load_store_of_apart {w' : ℕ} (h : b + w' ≤ a ∨ a + w ≤ b) :
    load w' (store w mem a v) b = load w' mem b :=
  load_congr fun x hx hx' => store_of_notMem (by omega)

/-- A byte outside a word leaves the word alone. -/
theorem load_update {x : ℕ} {byte : UInt8} (h : x < a ∨ a + w ≤ x) :
    load w (update mem x byte) a = load w mem a :=
  load_congr fun y hy hy' => Function.update_of_ne (by omega) byte mem

/-- The words of `w` bytes at the addresses `xs` form a list that is entered at `p`. -/
def Links (w : ℕ) (mem : Memory) : ℕ → List ℕ → Prop
  | _, [] => True
  | p, x :: xs => p = x ∧ Links w mem (load w mem x) xs

/-- A list depends on its own words alone. -/
theorem Links.congr (h : Links w mem p xs) (hx : ∀ x ∈ xs, load w mem' x = load w mem x) :
    Links w mem' p xs := by
  induction xs generalizing p with
  | nil => trivial
  | cons x xs ih =>
    obtain ⟨hp, h⟩ := h
    refine ⟨hp, ?_⟩
    rw [hx x (List.mem_cons_self ..)]
    exact ih h fun y hy => hx y (List.mem_cons_of_mem _ hy)

/-- A new first element, whose word is set to the old entry. -/
theorem Links.push (h : Links w mem p xs) (hp : p < 256 ^ w)
    (ha : ∀ x ∈ xs, x + w ≤ a ∨ a + w ≤ x) : Links w (store w mem a p) a (a :: xs) := by
  refine ⟨rfl, ?_⟩
  rw [load_store, Nat.mod_eq_of_lt hp]
  exact h.congr fun x hx => load_store_of_apart (ha x hx)

end Memory

end CPStudy.Lib
