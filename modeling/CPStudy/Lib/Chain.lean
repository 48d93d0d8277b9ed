import Mathlib.Data.List.Nodup
import Mathlib.Logic.Function.Basic
import Mathlib.Tactic.Common

/-!
# Chains that end in a null pointer

`Chain null next p l` says that following `next` from `p` visits the elements of `l` in order and
ends in `null`. The start determines the list (`Chain.unique`), so that no element is visited twice
(`Chain.nodup`): from there on the chain would go on for ever.
-/

namespace CPStudy.Lib

variable {α : Type*} {null : α} {next : α → α} {p a : α} {l l' : List α}

/-- Following `next` from `p` visits the elements of the list in order and ends in `null`. -/
def Chain (null : α) (next : α → α) : α → List α → Prop
  | p, [] => p = null
  | p, q :: l => p = q ∧ q ≠ null ∧ Chain null next (next q) l

namespace Chain

/-- A chain is entered at its first element, or at `null` where it has none. -/
theorem entry (h : Chain null next p l) : p = l.headD null := by
  cases l with
  | nil => exact h
  | cons q l => exact h.1

/-- A chain has no element exactly when it is entered at `null`. -/
theorem eq_null_iff (h : Chain null next p l) : p = null ↔ l = [] := by
  cases l with
  | nil => exact ⟨fun _ => rfl, fun _ => h⟩
  | cons q l =>
    obtain ⟨rfl, hq, -⟩ := h
    exact ⟨fun hp => absurd hp hq, fun hl => absurd hl (List.cons_ne_nil _ _)⟩

/-- Behind the last element stands `null`. -/
theorem last (h : Chain null next p l) (ha : l.getLast? = some a) : next a = null := by
  induction l generalizing p with
  | nil => cases ha
  | cons q l ih =>
    obtain ⟨-, -, h⟩ := h
    cases l with
    | nil =>
      obtain rfl : q = a := by simpa using ha
      exact h
    | cons r l => exact ih h (by rwa [List.getLast?_cons_cons] at ha)

/-- What follows an element of a chain is a chain. -/
theorem suffix (h : Chain null next p (l ++ a :: l')) : Chain null next a (a :: l') := by
  induction l generalizing p with
  | nil => exact ⟨rfl, h.2⟩
  | cons q l ih => exact ih h.2.2

/-- Where a chain is entered determines what it visits. -/
theorem unique (h : Chain null next p l) (h' : Chain null next p l') : l = l' := by
  induction l generalizing p l' with
  | nil => exact (h'.eq_null_iff.mp h).symm
  | cons q l ih =>
    obtain ⟨rfl, hq, h⟩ := h
    cases l' with
    | nil => exact absurd h' hq
    | cons q' l' =>
      obtain ⟨rfl, -, h'⟩ := h'
      rw [ih h h']

/-- No element is visited twice. -/
theorem nodup (h : Chain null next p l) : l.Nodup := by
  induction l generalizing p with
  | nil => exact List.nodup_nil
  | cons q l ih =>
    obtain ⟨rfl, hp, h⟩ := h
    refine List.nodup_cons.mpr ⟨fun hmem => ?_, ih h⟩
    -- The chain from the second visit on would be the one from the first visit on.
    obtain ⟨l₁, l₂, rfl⟩ := List.append_of_mem hmem
    have hfirst : Chain null next p (p :: (l₁ ++ p :: l₂)) := ⟨rfl, hp, h⟩
    have heq := congrArg List.length (hfirst.unique h.suffix)
    simp only [List.length_cons, List.length_append] at heq
    omega

/-- Only the links of the elements matter. -/
theorem congr {next' : α → α} (h : Chain null next p l) (heq : ∀ a ∈ l, next' a = next a) :
    Chain null next' p l := by
  induction l generalizing p with
  | nil => exact h
  | cons q l ih =>
    obtain ⟨hp, hq, h⟩ := h
    have hl : ∀ a ∈ l, next' a = next a := fun a ha => heq a (List.mem_cons_of_mem q ha)
    rw [← heq q List.mem_cons_self] at h
    exact ⟨hp, hq, ih h hl⟩

variable [DecidableEq α]

/-- An element is linked in behind the last one of the chain that hangs at `a`. -/
theorem concat {x : α} (h : Chain null next (next a) l) (hal : a ∉ l) (hx : x ≠ null)
    (hnull : next x = null) (hxl : x ∉ a :: l) :
    Chain null (Function.update next (l.getLastD a) x)
      (Function.update next (l.getLastD a) x a) (l ++ [x]) := by
  induction l generalizing a with
  | nil =>
    have hxa : x ≠ a := List.ne_of_not_mem_cons hxl
    rw [List.getLastD_nil, Function.update_self]
    refine ⟨rfl, hx, ?_⟩
    rw [Function.update_of_ne hxa]
    exact hnull
  | cons b l ih =>
    have hbl : b ∉ l := (List.nodup_cons.mp h.nodup).1
    obtain ⟨hab, hb, h⟩ := h
    -- The last cell is one of `b :: l`, and `a` is not.
    have hlast : a ≠ l.getLastD b := by
      intro heq
      apply hal
      rw [heq]
      exact List.getLastD_mem_cons
    rw [List.getLastD_cons, Function.update_of_ne hlast, hab]
    exact ⟨rfl, hb, ih h hbl (List.not_mem_of_not_mem_cons hxl)⟩

/-- The first element is taken out of the chain that hangs at `a`. -/
theorem unlink {b : α} (h : Chain null next (next a) (b :: l)) (hal : a ∉ l) :
    Chain null (Function.update next a (next b)) (Function.update next a (next b) a) l := by
  obtain ⟨-, -, h⟩ := h
  rw [Function.update_self]
  refine h.congr fun c hc => ?_
  rw [Function.update_of_ne (ne_of_mem_of_not_mem hc hal)]

end Chain

end CPStudy.Lib
