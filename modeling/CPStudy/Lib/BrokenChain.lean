import Mathlib.Data.List.Chain
import Mathlib.Data.List.Infix
import Mathlib.Data.List.Nodup
import Mathlib.Logic.Function.Basic

/-!
# Linked chains with announced links

A queue that is extended in two steps, first by moving the end of the chain to the new node and
then by storing the old end's link, is broken wherever the second step is still to come.
`BrokenChain stored announced first last c` says that the nodes `c` lead from `first` to `last`
by links that are stored in memory or announced by a thread that will store them. The three
operations on such a chain are to announce a node after the last one (`exchange`), to store an
announced link (`link`), and to drop the first node over a stored link (`advance`).
-/

namespace CPStudy.Lib

open Function (update)

variable {α : Type*} {a b x y : α} {c c' : List α}

/-- `a` and `b` stand next to each other in the list, in this order. -/
def Adj (c : List α) (a b : α) : Prop := [a, b] <:+: c

/-- The left of two neighbours is in the list. -/
theorem Adj.mem_left (h : Adj c a b) : a ∈ c := h.subset (by simp)

/-- The right of two neighbours is in the list. -/
theorem Adj.mem_right (h : Adj c a b) : b ∈ c := h.subset (by simp)

/-- Nothing has a neighbour in the empty list. -/
@[simp]
theorem not_adj_nil : ¬Adj ([] : List α) a b := by
  simp [Adj]

/-- The neighbours in a list with one more element in front. -/
theorem adj_cons : Adj (x :: c) a b ↔ (x = a ∧ c.head? = some b) ∨ Adj c a b := by
  unfold Adj
  rw [List.infix_cons_iff, List.cons_prefix_cons, eq_comm]
  cases c with
  | nil => simp
  | cons y c => simp [List.cons_prefix_cons, eq_comm]

/-- Nothing has a neighbour in a list of one element. -/
@[simp]
theorem not_adj_singleton : ¬Adj [x] a b := by
  simp [adj_cons]

/-- The neighbours in a list with one more element at the end. -/
theorem adj_concat : Adj (c ++ [x]) a b ↔ Adj c a b ∨ (c.getLast? = some a ∧ x = b) := by
  induction c with
  | nil => simp
  | cons y c ih =>
    rw [List.cons_append, adj_cons, adj_cons, ih]
    cases c with
    | nil => simp
    | cons z c => simp [List.getLast?_cons_cons, or_assoc]

/-- In a list without repetition an element has at most one right neighbour. -/
theorem Adj.right_unique (hc : c.Nodup) (h : Adj c a x) (h' : Adj c a y) : x = y := by
  induction c with
  | nil => simp [Adj] at h
  | cons z c ih =>
    rw [List.nodup_cons] at hc
    rw [adj_cons] at h h'
    rcases h with ⟨rfl, h⟩ | h
    · rcases h' with ⟨-, h'⟩ | h'
      · exact Option.some.inj (h.symm.trans h')
      · exact absurd h'.mem_left hc.1
    · rcases h' with ⟨rfl, -⟩ | h'
      · exact absurd h.mem_left hc.1
      · exact ih hc.2 h h'

/-- In a list without repetition the last element has no right neighbour. -/
theorem Adj.ne_getLast (hc : c.Nodup) (h : Adj c a b) (hl : c.getLast? = some x) : a ≠ x := by
  induction c with
  | nil => simp at hl
  | cons z c ih =>
    rw [List.nodup_cons] at hc
    rw [adj_cons] at h
    cases c with
    | nil => simp [Adj] at h
    | cons w c =>
      rw [List.getLast?_cons_cons] at hl
      -- The first element has a right neighbour; were it the last too, it would stand twice.
      rcases h with ⟨rfl, -⟩ | h
      · rintro rfl
        exact hc.1 (List.mem_of_getLast? hl)
      · exact ih hc.2 h hl

/-- In a list without repetition the first element has no left neighbour. -/
theorem Adj.ne_head (hc : c.Nodup) (h : Adj c a b) (hx : c.head? = some x) : b ≠ x := by
  cases c with
  | nil => simp at hx
  | cons z c =>
    obtain rfl : z = x := by simpa using hx
    rcases adj_cons.mp h with ⟨rfl, hb⟩ | hadj
    · rintro rfl
      exact (List.nodup_cons.mp hc).1 (List.mem_of_mem_head? hb)
    · rintro rfl
      exact (List.nodup_cons.mp hc).1 hadj.mem_right

/-- Two lists that follow the same functional relation from the same element to one without
successor are equal. -/
theorem eq_of_isChain {r : α → α → Prop} {last : α} (hr : ∀ a b b', r a b → r a b' → b = b')
    (hlast : ∀ b, ¬r last b) (hh : c.head? = c'.head?) (hc : c.getLast? = some last)
    (hc' : c'.getLast? = some last) (h : c.IsChain r) (h' : c'.IsChain r) : c = c' := by
  induction c generalizing c' with
  | nil => simp at hc
  | cons x c ih =>
    obtain ⟨d, rfl⟩ : ∃ d, c' = x :: d := by
      cases c' with
      | nil => simp at hh
      | cons z d => exact ⟨d, by simpa using hh.symm⟩
    cases c with
    | nil =>
      obtain rfl : x = last := by simpa using hc
      cases d with
      | nil => rfl
      | cons z d => exact absurd (List.isChain_cons_cons.mp h').1 (hlast z)
    | cons y c =>
      obtain ⟨hxy, h⟩ := List.isChain_cons_cons.mp h
      cases d with
      | nil =>
        obtain rfl : x = last := by simpa using hc'
        exact absurd hxy (hlast y)
      | cons z d =>
        obtain ⟨hxz, h'⟩ := List.isChain_cons_cons.mp h'
        rw [List.getLast?_cons_cons] at hc hc'
        rw [ih (by simpa using hr x y z hxy hxz) hc hc' h h']

/-- The nodes `c` lead from `first` to `last` by stored and announced links. -/
structure BrokenChain (stored : α → Option α) (announced : α → α → Prop) (first last : α)
    (c : List α) : Prop where
  /-- No node occurs twice. -/
  nodup : c.Nodup
  /-- The chain starts at `first`. -/
  head : c.head? = some first
  /-- The chain ends at `last`. -/
  getLast : c.getLast? = some last
  /-- Each node's link to the next one is stored or announced. -/
  edge : ∀ a b, Adj c a b → stored a = some b ∨ announced a b
  /-- An announced link joins neighbours and is not stored yet. -/
  pending : ∀ a b, announced a b → Adj c a b ∧ stored a = none
  /-- The last node has no link. -/
  ending : stored last = none

namespace BrokenChain

variable {stored stored' : α → Option α} {announced announced' : α → α → Prop} {first last : α}

/-- The first node is in the chain. -/
theorem first_mem (h : BrokenChain stored announced first last c) : first ∈ c :=
  List.mem_of_mem_head? h.head

/-- The last node is in the chain. -/
theorem last_mem (h : BrokenChain stored announced first last c) : last ∈ c :=
  List.mem_of_getLast? h.getLast

/-- A chain of one node. -/
theorem singleton (hs : stored x = none) (ha : ∀ a b, ¬announced a b) :
    BrokenChain stored announced x x [x] where
  nodup := List.nodup_singleton x
  head := rfl
  getLast := rfl
  edge := fun _ _ h => absurd h not_adj_singleton
  pending := fun a b h => absurd h (ha a b)
  ending := hs

/-- A node has at most one announced successor. -/
theorem announced_unique (h : BrokenChain stored announced first last c) (hx : announced a x)
    (hy : announced a y) : x = y :=
  (h.pending a x hx).1.right_unique h.nodup (h.pending a y hy).1

/-- Links of nodes outside the chain do not matter. -/
theorem congr (h : BrokenChain stored announced first last c)
    (hs : ∀ a ∈ c, stored' a = stored a) (ha : ∀ a b, announced' a b ↔ announced a b) :
    BrokenChain stored' announced' first last c where
  nodup := h.nodup
  head := h.head
  getLast := h.getLast
  edge := fun a b hab => by
    rw [hs a hab.mem_left, ha]
    exact h.edge a b hab
  pending := fun a b hab => by
    obtain ⟨hadj, hn⟩ := h.pending a b ((ha a b).mp hab)
    exact ⟨hadj, (hs a hadj.mem_left).trans hn⟩
  ending := (hs last h.last_mem).trans h.ending

/-- A node without a link is announced after the last one and becomes the last. -/
theorem exchange (h : BrokenChain stored announced first last c) (hx : x ∉ c)
    (hs : stored x = none)
    (ha : ∀ a b, announced' a b ↔ announced a b ∨ (a = last ∧ b = x)) :
    BrokenChain stored announced' first x (c ++ [x]) where
  nodup := by
    rw [List.nodup_append]
    exact ⟨h.nodup, List.nodup_singleton x, by grind⟩
  head := by rw [List.head?_append, h.head]; rfl
  getLast := by simp
  edge := fun a b hab => by
    rw [ha]
    rcases adj_concat.mp hab with hab | ⟨hl, rfl⟩
    · exact (h.edge a b hab).imp_right .inl
    · exact .inr (.inr ⟨Option.some.inj (hl.symm.trans h.getLast), rfl⟩)
  pending := fun a b hab => by
    rw [adj_concat]
    rcases (ha a b).mp hab with hab | ⟨rfl, rfl⟩
    · exact ⟨.inl (h.pending a b hab).1, (h.pending a b hab).2⟩
    · exact ⟨.inr ⟨h.getLast, rfl⟩, h.ending⟩
  ending := hs

/-- An announced link is stored. -/
theorem link [DecidableEq α] (h : BrokenChain stored announced first last c) (hab : announced a b)
    (ha : ∀ a' b', announced' a' b' ↔ announced a' b' ∧ ¬(a' = a ∧ b' = b)) :
    BrokenChain (update stored a (some b)) announced' first last c := by
  have hadj := (h.pending a b hab).1
  refine { nodup := h.nodup, head := h.head, getLast := h.getLast, edge := ?_, pending := ?_,
           ending := ?_ }
  · intro a' b' hab'
    by_cases heq : a' = a
    · subst heq
      obtain rfl := hadj.right_unique h.nodup hab'
      exact .inl (by simp)
    · rw [Function.update_of_ne heq, ha]
      exact (h.edge a' b' hab').imp_right fun hn => ⟨hn, fun hc => heq hc.1⟩
  · intro a' b' hab'
    obtain ⟨hann, hne⟩ := (ha a' b').mp hab'
    -- A node has one announced successor, so the links that stay announced start elsewhere.
    have heq : a' ≠ a := by
      rintro rfl
      exact hne ⟨rfl, h.announced_unique hann hab⟩
    rw [Function.update_of_ne heq]
    exact h.pending a' b' hann
  · rw [Function.update_of_ne (hadj.ne_getLast h.nodup h.getLast).symm]
    exact h.ending

/-- The first node is dropped over its stored link. No thread is about to store that link any
more. -/
theorem advance (h : BrokenChain stored announced first last c) (hx : stored first = some x) :
    ∃ c', c = first :: c' ∧ first ∉ c' ∧ BrokenChain stored announced x last c' ∧
      ∀ b, ¬announced first b := by
  have hann : ∀ b, ¬announced first b := by
    intro b hb
    have := (h.pending first b hb).2
    rw [hx] at this
    cases this
  obtain ⟨c', rfl⟩ : ∃ c', c = first :: c' := by
    cases c with
    | nil => simpa using h.head
    | cons z c' => exact ⟨c', by simpa using h.head⟩
  have hnd := List.nodup_cons.mp h.nodup
  cases c' with
  | nil =>
    -- The first node would be the last one, which has no link.
    have hl : first = last := by simpa using h.getLast
    have := h.ending
    rw [← hl, hx] at this
    cases this
  | cons y c' =>
    have hy : x = y := by
      rcases h.edge first y (adj_cons.mpr (.inl ⟨rfl, rfl⟩)) with hy | hy
      · exact Option.some.inj (hx.symm.trans hy)
      · exact absurd hy (hann y)
    subst hy
    refine ⟨x :: c', rfl, hnd.1, ?_, hann⟩
    exact
      { nodup := hnd.2
        head := rfl
        getLast := by simpa [List.getLast?_cons_cons] using h.getLast
        edge := fun a b hab => h.edge a b (adj_cons.mpr (.inr hab))
        pending := fun a b hab => by
          obtain ⟨hadj, hn⟩ := h.pending a b hab
          rcases adj_cons.mp hadj with ⟨rfl, -⟩ | hadj
          · exact absurd hab (hann b)
          · exact ⟨hadj, hn⟩
        ending := h.ending }

/-- The node that the first node's stored link leads to is in the chain. -/
theorem next_mem (h : BrokenChain stored announced first last c) (hx : stored first = some x) :
    x ∈ c := by
  obtain ⟨c', rfl, -, hc', -⟩ := h.advance hx
  exact List.mem_cons_of_mem _ hc'.first_mem

/-- Where the first node has no stored link, it is the last one or its link is announced. -/
theorem stuck (h : BrokenChain stored announced first last c) (hs : stored first = none) :
    (c = [first] ∧ first = last) ∨ ∃ y c', c = first :: y :: c' ∧ announced first y := by
  cases c with
  | nil => simpa using h.head
  | cons z c =>
    obtain rfl : z = first := by simpa using h.head
    cases c with
    | nil => exact .inl ⟨rfl, by simpa using h.getLast⟩
    | cons y c =>
      refine .inr ⟨y, c, rfl, ?_⟩
      rcases h.edge z y (adj_cons.mpr (.inl ⟨rfl, rfl⟩)) with hy | hy
      · rw [hs] at hy; cases hy
      · exact hy

/-- A chain whose first node is its last one has one node. -/
theorem eq_singleton (h : BrokenChain stored announced x x c) : c = [x] := by
  rcases h.stuck h.ending with ⟨hc, -⟩ | ⟨y, c', rfl, ha⟩
  · exact hc
  · have hadj := (h.pending x y ha).1
    exact absurd rfl (hadj.ne_getLast h.nodup h.getLast)

/-- The chain is the only one: from the first node to the last there is no other way over stored
and announced links. -/
theorem unique (h : BrokenChain stored announced first last c) (hh : c'.head? = some first)
    (hl : c'.getLast? = some last)
    (he : c'.IsChain fun a b => stored a = some b ∨ announced a b) : c' = c := by
  -- A link is stored or announced and never both, so that each node has one successor.
  refine eq_of_isChain ?_ ?_ (hh.trans h.head.symm) hl h.getLast he
    ((List.isChain_isInfix c).imp fun a b hab => h.edge a b hab)
  · rintro a b b' (hb | hb) (hb' | hb')
    · exact Option.some.inj (hb.symm.trans hb')
    · exact absurd ((h.pending a b' hb').2.symm.trans hb) (by simp)
    · exact absurd ((h.pending a b hb).2.symm.trans hb') (by simp)
    · exact h.announced_unique hb hb'
  · rintro b (hb | hb)
    · exact absurd (h.ending.symm.trans hb) (by simp)
    · exact (h.pending last b hb).1.ne_getLast h.nodup h.getLast rfl

end BrokenChain

end CPStudy.Lib
