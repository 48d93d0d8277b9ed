import CPStudy.MemPool.PagePool.Blocks

/-!
# `mp_dest` of the page pool frees nothing

The loop of `mp_dest` runs while `m->first` is `NULL`. After `mp_init` it never is, so that the loop
is left before its first pass and no page is passed to `free`.
-/

namespace CPStudy.MemPool.PagePool

open Lib (loop_leave)

variable {malloc : ℕ → ℕ} {max : ℕ} {s : State}

/-- Every page of the pool was passed to `free` exactly once. -/
def FreesEveryPage (malloc : ℕ → ℕ) (s : State) (freed : List ℕ) : Prop :=
  ∀ p ∈ s.pages malloc, freed.count p = 1

/-- The first page is one of the pool's. -/
theorem first_mem_pages (hs : Shape malloc max s) : malloc 0 ∈ s.pages malloc := by
  unfold State.pages
  exact List.mem_map_of_mem (List.mem_range.mpr hs.pos)

/-- With `first` set, `mp_dest` returns at once and frees nothing. -/
theorem mpDest_eq (hm : MallocOk malloc max) (hs : Shape malloc max s) (fuel : ℕ) :
    mpDest (fuel + 1) s = some (s, []) := by
  have hfirst : s.pool.first ≠ 0 := by
    rw [hs.first]
    exact hm.ne_null 0
  have hbody : destBody s.node (s.pool.first, []) = .leave (s.pool.first, []) := by
    unfold destBody
    rw [if_neg hfirst]
  unfold mpDest
  rw [loop_leave hbody]
  rfl

/-- For every page size, every sequence of calls of `mp_alloc` after `mp_init` and every `malloc`
that succeeds, `mp_dest` returns without having freed a single page, although the pool has one at
least. -/
theorem mp_dest_frees_nothing (hm : MallocOk malloc max) (hmax : sizeofNode ≤ max)
    (memory : ℕ → MpNode) (sizes : List ℕ) (hsizes : ∀ size ∈ sizes, size ≤ max - sizeofNode)
    (fuel : ℕ) (hfuel : sizes.length < fuel) :
    ∃ s blocks t freed, mpAllocs malloc fuel (mpInit malloc memory max) sizes = some (s, blocks) ∧
      mpDest fuel s = some (t, freed) ∧ freed = [] ∧ s.pages malloc ≠ [] ∧
      ¬FreesEveryPage malloc s freed := by
  -- One pass of the loop is bound enough, since the test fails at once.
  obtain ⟨n, rfl⟩ : ∃ n, fuel = n + 1 := ⟨fuel - 1, by omega⟩
  have hstart : (mpInit malloc memory max).mallocs + sizes.length ≤ n + 1 := by
    show 1 + sizes.length ≤ n + 1
    omega
  obtain ⟨s, blocks, hallocs, h⟩ :=
    mpAllocs_spec hm hmax hsizes (shape_mpInit memory hmax) hstart
  have hmem := first_mem_pages h.shape
  refine ⟨s, blocks, s, [], hallocs, mpDest_eq hm h.shape n, rfl, List.ne_nil_of_mem hmem, ?_⟩
  intro hfree
  have hcount := hfree _ hmem
  rw [List.count_nil] at hcount
  cases hcount

/-- A pool of which two blocks were taken keeps both of its pages. -/
theorem mp_dest_frees_nothing_two_pages : ∃ s blocks t freed,
    mpAllocs (rowMalloc 4096) 3 (mpInit (rowMalloc 4096) (fun _ => ⟨0, 0, 0⟩) 4096)
      [4000, 100] = some (s, blocks) ∧
    mpDest 3 s = some (t, freed) ∧ freed = [] ∧ s.pages (rowMalloc 4096) ≠ [] ∧
    ¬FreesEveryPage (rowMalloc 4096) s freed :=
  mp_dest_frees_nothing (rowMalloc_ok (by decide)) (by decide) _ [4000, 100] (by decide) 3
    (by decide)

/-- `mp_init` with one page of 4096 bytes at address 4096 and `mp_dest` right after it: the page is
not freed. -/
theorem mp_dest_frees_nothing_fresh :
    (mpInit (rowMalloc 4096) (fun _ => ⟨0, 0, 0⟩) 4096).pages (rowMalloc 4096) = [4096] ∧
    ∃ t freed, mpDest 1 (mpInit (rowMalloc 4096) (fun _ => ⟨0, 0, 0⟩) 4096) = some (t, freed) ∧
      ¬FreesEveryPage (rowMalloc 4096) (mpInit (rowMalloc 4096) (fun _ => ⟨0, 0, 0⟩) 4096) freed :=
  ⟨by decide, _, _, rfl, fun h => absurd (h 4096 (by decide)) (by decide)⟩

end CPStudy.MemPool.PagePool
