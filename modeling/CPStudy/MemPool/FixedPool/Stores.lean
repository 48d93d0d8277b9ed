import CPStudy.MemPool.FixedPool.FreeList

/-!
# Where `mp_init` of the fixed-block pool stores

The loop of `mp_init` stores a pointer at the beginning of each block, and these stores lie in the
page. The `NULL` behind the loop is stored where the loop has left `ptr`, behind the last block. The
blocks leave `MEM_PAGE_SIZE % size` bytes at the end of the page, and that store needs eight.
-/

namespace CPStudy.MemPool.FixedPool

open Lib (Memory)

variable {addr : ℕ} {s : State}

/-- Where the loop leaves `ptr`, and the addresses it stores to: one for each block. -/
theorem linkBlocks_stores (size n : ℕ) (l : Linking) :
    (linkBlocks size n l).ptr = l.ptr + n * size ∧
      (linkBlocks size n l).stores = l.stores ++ blocks l.ptr size n := by
  induction n generalizing l with
  | zero => exact ⟨by simp [linkBlocks], by simp [linkBlocks, blocks]⟩
  | succ n ih =>
    obtain ⟨hptr, hstores⟩ := ih (l.pass size)
    have hnext : (l.pass size).ptr = l.ptr + size := rfl
    have hstored : (l.pass size).stores = l.stores ++ [l.ptr] := rfl
    rw [linkBlocks]
    constructor
    · rw [hptr, hnext, Nat.succ_mul]
      omega
    · -- The first pass stores at the first block, the passes after it at the blocks behind.
      rw [hstores, hnext, hstored, List.append_assoc]
      rfl

/-- `mp_init` stores at the beginning of each block, and behind the last one. -/
theorem stores_mpInit {memory : Memory} {size : ℤ} (h : mpInit memory size addr = some s) :
    s.pool.mem = addr ∧
      s.stores = blocks addr (clampSize size) (memPageSize / clampSize size) ++
        [addr + memPageSize / clampSize size * clampSize size] := by
  unfold mpInit at h
  dsimp only at h
  obtain ⟨-, h⟩ := Option.ite_none_left_eq_some.mp h
  obtain ⟨hptr, hstores⟩ := linkBlocks_stores (clampSize size) (memPageSize / clampSize size)
    { memory := memory, ptr := addr, stores := [] }
  rw [← Option.some.inj h]
  refine ⟨rfl, ?_⟩
  show (linkBlocks _ _ _).stores ++ [(linkBlocks _ _ _).ptr] = _
  rw [hstores, hptr, List.nil_append]

/-- The eight bytes of a pointer stored at `p` lie in the page. -/
def InPage (mem p : ℕ) : Prop := mem ≤ p ∧ p + sizeofPtr ≤ mem + memPageSize

/-- A pointer at the beginning of a block lies in the page. -/
theorem inPage_of_block {size n p : ℕ} (hsize : sizeofPtr ≤ size) (hn : n * size ≤ memPageSize)
    (hp : p ∈ blocks addr size n) : InPage addr p := by
  obtain ⟨hbase, hend⟩ := block_le hp
  exact ⟨hbase, by omega⟩

/-- Whatever the argument, the pointers that `mp_init` stores lie in its page if and only if the
blocks leave the eight bytes of a pointer at the end of the page. -/
theorem stores_inPage_iff {memory : Memory} {size : ℤ} (h : mpInit memory size addr = some s) :
    (∀ p ∈ s.stores, InPage s.pool.mem p) ↔ sizeofPtr ≤ memPageSize % clampSize size := by
  obtain ⟨hmem, hstores⟩ := stores_mpInit h
  have hsize := le_clampSize size
  have hdiv : memPageSize / clampSize size * clampSize size + memPageSize % clampSize size =
      memPageSize := Nat.div_add_mod' _ _
  rw [hmem, hstores]
  constructor
  · intro hall
    -- The store behind the last block is the one that may not fit.
    obtain ⟨-, hlast⟩ := hall _ (List.mem_append_right _ (List.mem_singleton_self _))
    omega
  · intro hrem p hp
    rcases List.mem_append.mp hp with hblock | hlast
    · exact inPage_of_block (by unfold sizeofPtr; omega) (by omega) hblock
    · rw [List.mem_singleton.mp hlast]
      exact ⟨Nat.le_add_right _ _, by omega⟩

/-- Blocks of 1000 bytes leave 96 bytes at the end of the page, where the terminator fits. -/
theorem stores_inPage_1000 : ∃ s, mpInit (fun _ => 0) 1000 4096 = some s ∧
    ∀ p ∈ s.stores, InPage s.pool.mem p := by
  have hsome : (mpInit (fun _ => 0) 1000 4096).isSome = true := by decide
  obtain ⟨s, hs⟩ := Option.isSome_iff_exists.mp hsome
  exact ⟨s, hs, (stores_inPage_iff hs).mpr (by decide)⟩

/-- Blocks of 32 bytes, the size that `main` asks for, fill the page, and the terminator is stored
in the eight bytes after it. -/
theorem stores_not_inPage_32 : ∃ s, mpInit (fun _ => 0) 32 4096 = some s ∧
    ∃ p ∈ s.stores, ¬InPage s.pool.mem p := by
  have hsome : (mpInit (fun _ => 0) 32 4096).isSome = true := by decide
  obtain ⟨s, hs⟩ := Option.isSome_iff_exists.mp hsome
  refine ⟨s, hs, 8192, ?_, ?_⟩
  · rw [(stores_mpInit hs).2]
    exact List.mem_append_right _ (List.mem_singleton.mpr rfl)
  · rw [(stores_mpInit hs).1]
    unfold InPage memPageSize sizeofPtr
    omega

end CPStudy.MemPool.FixedPool
