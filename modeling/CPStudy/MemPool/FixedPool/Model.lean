import CPStudy.Lib.ByteMemory
import CPStudy.Lib.Transition

/-!
# The fixed-block pool of `3_pool/3.1.2-mempool-main/mempool-v1.c`

A page of `MEM_PAGE_SIZE` bytes is cut into blocks of one size. The free blocks are a list whose
links are kept in the first eight bytes of the blocks themselves, in the memory that the client of
the pool writes to. Addresses are numbers and `NULL` is `0`.

A run makes calls of `mp_alloc` and `mp_free`, and the client overwrites bytes of the blocks that it
was given and has not freed, the `live` ones. The fields `live` and `stores` are history: no
function of the pool reads them.
-/

namespace CPStudy.MemPool.FixedPool

open Function (update)
open Lib (Memory)
open Lib.Memory (load store)

/-- `MEM_PAGE_SIZE`. -/
def memPageSize : ℕ := 4096

/-- `sizeof(char *)`. -/
def sizeofPtr : ℕ := 8

/-- `mempool_t`. -/
structure Mempool where
  /-- `block_size`. -/
  blockSize : ℕ
  /-- `free_count`. -/
  freeCount : ℕ
  /-- `free_ptr`, the first free block. -/
  freePtr : ℕ
  /-- `mem`, the page. -/
  mem : ℕ

/-- The memory, the pool and what the client holds. -/
structure State where
  /-- The memory. -/
  memory : Memory
  /-- The pool. -/
  pool : Mempool
  /-- The blocks that `mp_alloc` has returned and `mp_free` has not been given since. -/
  live : List ℕ
  /-- The addresses of the pointers that `mp_init` has stored, in order. -/
  stores : List ℕ

/-- The `block_size` that `mp_init` takes for its argument. -/
def clampSize (size : ℤ) : ℕ := if size < 16 then 16 else size.toNat

/-- The memory, the position `ptr` and the stores made so far, in the loop of `mp_init`. -/
structure Linking where
  /-- The memory. -/
  memory : Memory
  /-- `ptr`. -/
  ptr : ℕ
  /-- The addresses stored to so far. -/
  stores : List ℕ

/-- `*(char **)ptr = value`. -/
def Linking.store (l : Linking) (value : ℕ) : Linking :=
  { l with memory := Memory.store sizeofPtr l.memory l.ptr value, stores := l.stores ++ [l.ptr] }

/-- The body of the loop of `mp_init`: `*(char **)ptr = ptr + size; ptr += size;`. -/
def Linking.pass (l : Linking) (size : ℕ) : Linking :=
  { l.store (l.ptr + size) with ptr := l.ptr + size }

/-- The loop of `mp_init`, with `n` passes to come. -/
def linkBlocks (size : ℕ) : ℕ → Linking → Linking
  | 0, l => l
  | n + 1, l => linkBlocks size n (l.pass size)

/-- `mp_init(m, size)` where `malloc` returns `addr`; `none` is the return of `-1`. -/
def mpInit (memory : Memory) (size : ℤ) (addr : ℕ) : Option State :=
  let size := clampSize size
  if addr = 0 then none
  else
    let freeCount := memPageSize / size
    -- The terminator is stored where the loop has left `ptr`, behind the last block.
    let l := (linkBlocks size freeCount { memory := memory, ptr := addr, stores := [] }).store 0
    some
      { memory := l.memory
        pool := { blockSize := size, freeCount := freeCount, freePtr := addr, mem := addr }
        live := []
        stores := l.stores }

/-- `mp_alloc(m)`, with the address it returns. -/
def mpAlloc (s : State) : State × ℕ :=
  if s.pool.freeCount = 0 then (s, 0)
  else
    let ptr := s.pool.freePtr
    ({ s with pool := { s.pool with
        freePtr := load sizeofPtr s.memory ptr
        freeCount := s.pool.freeCount - 1 } }, ptr)

/-- `mp_free(m, ptr)`. -/
def mpFree (s : State) (ptr : ℕ) : State :=
  { s with
    memory := store sizeofPtr s.memory ptr s.pool.freePtr
    pool := { s.pool with freePtr := ptr, freeCount := s.pool.freeCount + 1 } }

/-- What the client does next. -/
inductive Action
  /-- `mp_alloc`. -/
  | alloc
  /-- `mp_free` of a live block. -/
  | free (ptr : ℕ)
  /-- The client writes a byte at an offset in a live block. -/
  | write (ptr offset : ℕ) (byte : UInt8)

/-- A step of a run. -/
def step (s : State) : Action → Option State
  | .alloc =>
    let r := mpAlloc s
    -- A `NULL` gives the client nothing.
    some (if r.2 = 0 then r.1 else { r.1 with live := r.2 :: r.1.live })
  | .free ptr =>
    if ptr ∈ s.live then some { mpFree s ptr with live := s.live.erase ptr } else none
  | .write ptr offset byte =>
    if ptr ∈ s.live ∧ offset < s.pool.blockSize then
      some { s with memory := update s.memory (ptr + offset) byte }
    else none

/-- A state that some run from `s₀` reaches. -/
def ReachableFrom (s₀ s : State) : Prop := Lib.Reaches step (fun _ _ => True) s₀ s

/-- The block size is at least 16. -/
theorem le_clampSize (size : ℤ) : 16 ≤ clampSize size := by
  unfold clampSize
  split <;> omega

/-- The block size is the larger of the argument and 16. -/
theorem clampSize_eq (size : ℤ) : (clampSize size : ℤ) = max size 16 := by
  unfold clampSize
  split <;> omega

end CPStudy.MemPool.FixedPool
