import Mathlib.Logic.Function.Basic
import CPStudy.Lib.Loop
import CPStudy.Lib.Region

/-!
# The page pool of `3_pool/3.1.2-mempool-main/mempool.c`

A pool of pages from which blocks are cut one after another. Each page begins with its header
`mp_node_t`; the headers are linked from `current` on, and a new page is put in front. Addresses are
numbers and `NULL` is `0`. The memory holds a header for each address at which one may stand, and
`malloc k` is the address that the `k`-th call of `malloc` returns, so that a run is a function of
what `malloc` does.

The walk of `mp_alloc` and the loop of `mp_dest` are loops with a bound on the passes, `fuel`; a
result `none` says that the bound was too small and nothing else.
-/

namespace CPStudy.MemPool.PagePool

open Function (update)
open Lib (Pass loop Region)

/-- `mp_node_t`, the header of a page. -/
structure MpNode where
  /-- `free_ptr`, the first byte not handed out. -/
  freePtr : ℕ
  /-- `end`, the first byte after the page. -/
  «end» : ℕ
  /-- `next`, the header of the next page. -/
  next : ℕ
deriving DecidableEq

/-- `node->free_ptr += size`. -/
def MpNode.advance (node : MpNode) (size : ℕ) : MpNode :=
  { node with freePtr := node.freePtr + size }

/-- `mp_pool_t`. -/
structure MpPool where
  /-- `first`. -/
  first : ℕ
  /-- `current`, the header of the newest page. -/
  current : ℕ
  /-- `max`, the size of a page. -/
  max : ℕ

/-- `sizeof(mp_node_t)`: three pointers of eight bytes. -/
def sizeofNode : ℕ := 24

/-- The memory and the pool. -/
structure State where
  /-- The header at each address. -/
  node : ℕ → MpNode
  /-- The pool. -/
  pool : MpPool
  /-- The number of calls of `malloc` so far. -/
  mallocs : ℕ

variable (malloc : ℕ → ℕ)

/-- `mp_init(m, size)` on a memory with arbitrary contents. -/
def mpInit (memory : ℕ → MpNode) (size : ℕ) : State :=
  let addr := malloc 0
  { node := update memory addr { freePtr := addr + sizeofNode, «end» := addr + size, next := 0 }
    pool := { first := addr, current := addr, max := size }
    mallocs := 1 }

/-- One pass of the `do`-`while` of `mp_alloc` at a header: it is left at a page with room, and
after the last page. -/
def findBody (node : ℕ → MpNode) (size : ℕ) (p : ℕ) : Pass ℕ (Option ℕ) :=
  -- The difference of the two pointers is signed, so that a full page gives no large number.
  if (size : ℤ) ≤ ((node p).end : ℤ) - ((node p).freePtr : ℤ) then .leave (some p)
  else if (node p).next = 0 then .leave none
  else .again (node p).next

/-- `ptr = node->free_ptr; node->free_ptr += size; return ptr;`. -/
def bump (s : State) (p : ℕ) (size : ℕ) : State × ℕ :=
  ({ s with node := update s.node p ((s.node p).advance size) }, (s.node p).freePtr)

/-- A new page from `malloc`, put in front of `current`. -/
def newNode (s : State) : State :=
  let addr := malloc s.mallocs
  { node := update s.node addr
      -- `first` stays where it is: the new page is in front of it in the chain.
      { freePtr := addr + sizeofNode, «end» := addr + s.pool.max, next := s.pool.current }
    pool := { s.pool with current := addr }
    mallocs := s.mallocs + 1 }

/-- `mp_alloc(m, size)`, with the address it returns. -/
def mpAlloc (fuel : ℕ) (s : State) (size : ℕ) : Option (State × ℕ) :=
  match loop (findBody s.node size) fuel s.pool.current with
  | none => none
  | some (some p) => some (bump s p size)
  | some none =>
    let t := newNode malloc s
    some (bump t t.pool.current size)

/-- Calls of `mp_alloc` one after another, with the blocks they return. -/
def mpAllocs (fuel : ℕ) : State → List ℕ → Option (State × List Region)
  | s, [] => some (s, [])
  | s, size :: sizes =>
    (mpAlloc malloc fuel s size).bind fun r =>
      (mpAllocs fuel r.1 sizes).map fun q => (q.1, ⟨r.2, size⟩ :: q.2)

/-- One pass of the loop of `mp_dest`, on `m->first` and the addresses passed to `free` so far. The
test is the source's, `while (!m->first)`, so that the body runs on `m->first == NULL`. -/
def destBody (node : ℕ → MpNode) (s : ℕ × List ℕ) :
    Pass (ℕ × List ℕ) (ℕ × List ℕ) :=
  if s.1 = 0 then .again ((node s.1).next, s.2 ++ [s.1]) else .leave s

/-- `mp_dest(m)`, with the addresses it passes to `free`. -/
def mpDest (fuel : ℕ) (s : State) : Option (State × List ℕ) :=
  (loop (destBody s.node) fuel (s.pool.first, [])).map fun r =>
    ({ s with pool := { s.pool with first := r.1 } }, r.2)

/-- The pages that `malloc` has given the pool. -/
def State.pages (s : State) : List ℕ := (List.range s.mallocs).map malloc

/-- The region that the `k`-th call of `malloc` returns. -/
def page (max k : ℕ) : Region := ⟨malloc k, max⟩

/-- What `malloc` promises: it does not return `NULL`, and each region it returns is apart from the
others. -/
structure MallocOk (max : ℕ) : Prop where
  /-- `malloc` succeeds. -/
  ne_null : ∀ k, malloc k ≠ 0
  /-- The regions are apart. -/
  apart : ∀ j k, j ≠ k → (page malloc max j).Apart (page malloc max k)

/-- Two calls of `malloc` return different addresses. -/
theorem MallocOk.ne {malloc : ℕ → ℕ} {max j k : ℕ} (h : MallocOk malloc max)
    (hmax : sizeofNode ≤ max) (hjk : j ≠ k) : malloc j ≠ malloc k := by
  have hpos : 0 < max := lt_of_lt_of_le (by decide) hmax
  exact (h.apart j k hjk).base_ne hpos hpos

end CPStudy.MemPool.PagePool
