import CPStudy.MemPool.FixedPool.FreeList

/-!
# Runs of the fixed-block pool

`mp_init` links the blocks of the page into one list (`linkBlocks_spec`), and every call of
`mp_alloc` and `mp_free` and every write of the client keep the shape. So in every run each block
has one owner, and the count of the free blocks says how many are live.
-/

namespace CPStudy.MemPool.FixedPool

open Lib (Memory)
open Lib.Memory (load store Links load_store load_store_of_apart store_of_notMem load_congr)

variable {addr size n : ℕ} {s s' : State} {free : List ℕ}

/-- The loop of `mp_init` links the blocks from `ptr` on and writes nothing before it. -/
theorem linkBlocks_spec (hsize : 16 ≤ size) (l : Linking)
    (hfits : l.ptr + n * size ≤ 256 ^ sizeofPtr) :
    (linkBlocks size n l).ptr = l.ptr + n * size ∧
      Links sizeofPtr (linkBlocks size n l).memory l.ptr (blocks l.ptr size n) ∧
      ∀ x < l.ptr, (linkBlocks size n l).memory x = l.memory x := by
  induction n generalizing l with
  | zero => exact ⟨by simp [linkBlocks], trivial, fun _ _ => rfl⟩
  | succ n ih =>
    -- The first pass stores one link, and the passes after it link the blocks from the next one on.
    have hstep : (n + 1) * size = n * size + size := Nat.succ_mul n size
    rw [hstep] at hfits ⊢
    have hnext : (l.pass size).ptr = l.ptr + size := rfl
    obtain ⟨hptr, hlinks, hbefore⟩ := ih (l.pass size) (by rw [hnext]; omega)
    rw [hnext] at hptr hlinks hbefore
    rw [linkBlocks]
    refine ⟨by omega, ⟨rfl, ?_⟩, fun x hx => ?_⟩
    · -- The later passes leave the pointer stored here alone.
      have hload : load sizeofPtr (linkBlocks size n (l.pass size)).memory l.ptr =
          load sizeofPtr (store sizeofPtr l.memory l.ptr (l.ptr + size)) l.ptr :=
        load_congr fun x _ hx => hbefore x (by unfold sizeofPtr at hx; omega)
      rw [hload, load_store]
      cases n with
      | zero => trivial
      | succ n =>
        have hlt : l.ptr + size < 256 ^ sizeofPtr := by
          have : (n + 1) * size = n * size + size := Nat.succ_mul n size
          omega
        rw [Nat.mod_eq_of_lt hlt]
        exact hlinks
    · rw [hbefore x (by omega)]
      exact store_of_notMem (.inl hx)

/-- The number of blocks of a page. -/
def blockCount (size : ℤ) : ℕ := memPageSize / clampSize size

/-- The blocks lie in the page. -/
theorem blockCount_mul_le (size : ℤ) : blockCount size * clampSize size ≤ memPageSize :=
  Nat.div_mul_le_self _ _

/-- After `mp_init` every block of the page is free. -/
theorem shape_mpInit {memory : Memory} {size : ℤ} (hfits : addr + memPageSize ≤ 256 ^ sizeofPtr)
    (h : mpInit memory size addr = some s) :
    addr ≠ 0 ∧ Shape addr (clampSize size) (blockCount size) s
      (blocks addr (clampSize size) (blockCount size)) := by
  have hmul := blockCount_mul_le size
  unfold mpInit at h
  dsimp only at h
  obtain ⟨haddr, h⟩ := Option.ite_none_left_eq_some.mp h
  obtain ⟨hptr, hlinks, -⟩ := linkBlocks_spec (n := blockCount size) (le_clampSize size)
    { memory := memory, ptr := addr, stores := [] } (by dsimp only; omega)
  refine ⟨haddr, ?_⟩
  rw [← Option.some.inj h]
  refine { blockSize := rfl, mem := rfl, freeCount := ?_, links := ?_, perm := ?_ }
  · exact (List.length_range').symm
  · -- The terminator is stored behind the last block.
    refine hlinks.congr fun x hx => load_store_of_apart (.inl ?_)
    have hx' := (block_le hx).2
    have hsize := le_clampSize size
    show x + sizeofPtr ≤ (linkBlocks (clampSize size) (blockCount size) _).ptr
    rw [hptr]
    unfold sizeofPtr
    omega
  · rw [List.append_nil]

/-- Every step keeps the shape, with another free list. -/
theorem Shape.step (hsize : 16 ≤ size) (hfits : addr + n * size ≤ 256 ^ sizeofPtr)
    (haddr : addr ≠ 0) {a : Action} (hs : Shape addr size n s free) (h : step s a = some s') :
    ∃ free', Shape addr size n s' free' := by
  cases a with
  | alloc =>
    rw [← Option.some.inj h]
    cases free with
    | nil =>
      rw [hs.alloc_nil]
      exact ⟨[], hs⟩
    | cons p free =>
      obtain ⟨hp, hs'⟩ := hs.alloc_cons
      -- A block is never at `NULL`, so the one returned becomes live.
      have hpos := (block_le (hs.mem_of_free (List.mem_cons_self ..))).1
      dsimp only
      rw [hp, if_neg (by omega)]
      exact ⟨free, hs'⟩
  | free p =>
    obtain ⟨hp, h⟩ := Option.ite_none_right_eq_some.mp h
    rw [← Option.some.inj h]
    exact ⟨p :: free, hs.free_live hsize hfits hp⟩
  | write p offset byte =>
    obtain ⟨⟨hp, hoffset⟩, h⟩ := Option.ite_none_right_eq_some.mp h
    rw [← Option.some.inj h]
    rw [hs.blockSize] at hoffset
    exact ⟨free, hs.write hsize hp hoffset⟩

/-- What `mp_alloc` returns in a state of the shape. -/
theorem Shape.alloc_result (hs : Shape addr size n s free) (hsize : 0 < size) (haddr : addr ≠ 0) :
    ((mpAlloc s).2 ≠ 0 → (mpAlloc s).2 ∈ blocks addr size n ∧ (mpAlloc s).2 ∉ s.live) ∧
      ((mpAlloc s).2 = 0 ↔ s.live.length = n) := by
  have hlength := hs.length
  cases free with
  | nil =>
    rw [List.length_nil] at hlength
    rw [hs.alloc_nil]
    exact ⟨fun h => absurd rfl h, by simpa using hlength⟩
  | cons p free =>
    have hmem := hs.mem_of_free (List.mem_cons_self ..)
    have hlive : p ∉ s.live := fun hp =>
      (List.nodup_append.mp (hs.nodup hsize)).2.2 p (List.mem_cons_self ..) p hp rfl
    have hne : p ≠ 0 := by
      have := (block_le hmem).1
      omega
    rw [List.length_cons] at hlength
    rw [hs.alloc_cons.1]
    exact ⟨fun _ => ⟨hmem, hlive⟩, ⟨fun h => absurd h hne, fun h => by omega⟩⟩

/-- In every state that a run of calls and writes of the client reaches after `mp_init`: what
`mp_alloc` returns is `NULL` or the address of one of the `4096 / max(size, 16)` blocks, different
from every live one; `free_count` is their number less that of the live blocks; and `mp_alloc`
returns `NULL` exactly when all of them are live. -/
theorem one_owner_per_block {memory : Memory} {size : ℤ} {s₀ : State}
    (hfits : addr + memPageSize ≤ 256 ^ sizeofPtr) (h₀ : mpInit memory size addr = some s₀)
    (hrun : ReachableFrom s₀ s) :
    (s.pool.mem = addr ∧ (s.pool.blockSize : ℤ) = max size 16) ∧
    ((mpAlloc s).2 ≠ 0 →
      (∃ k < memPageSize / s.pool.blockSize, (mpAlloc s).2 = s.pool.mem + k * s.pool.blockSize) ∧
        (mpAlloc s).2 ∉ s.live) ∧
    s.live.Nodup ∧
    s.pool.freeCount + s.live.length = memPageSize / s.pool.blockSize ∧
    ((mpAlloc s).2 = 0 ↔ s.live.length = memPageSize / s.pool.blockSize) := by
  obtain ⟨haddr, hshape⟩ := shape_mpInit hfits h₀
  have hsize := le_clampSize size
  have hmul := blockCount_mul_le size
  obtain ⟨free, hs⟩ : ∃ free, Shape addr (clampSize size) (blockCount size) s free := by
    refine Lib.Reaches.invariant
      (I := fun s => ∃ free, Shape addr (clampSize size) (blockCount size) s free)
      ⟨_, hshape⟩ ?_ hrun
    rintro t a u ⟨free, ht⟩ - hstep
    exact ht.step hsize (by omega) haddr hstep
  obtain ⟨hresult, hnull⟩ := hs.alloc_result (by omega) haddr
  rw [hs.blockSize, hs.mem]
  refine ⟨⟨rfl, clampSize_eq size⟩, fun h => ?_, ?_, ?_, hnull⟩
  · exact ⟨mem_blocks.mp (hresult h).1, (hresult h).2⟩
  · exact (List.nodup_append.mp (hs.nodup (by omega))).2.1
  · rw [hs.freeCount]
    exact hs.length

/-- A list of actions after `mp_init` that ends in a state where `p` holds. -/
theorem exists_run (memory : Memory) (size : ℤ) (addr : ℕ) (as : List Action) (p : State → Bool)
    (h : ((mpInit memory size addr).bind fun s₀ =>
      Lib.replay step (fun _ _ => true) s₀ as).any p = true) :
    ∃ s₀ s, mpInit memory size addr = some s₀ ∧ ReachableFrom s₀ s ∧ p s = true := by
  cases h₀ : mpInit memory size addr with
  | none => simp [h₀] at h
  | some s₀ =>
    rw [h₀, Option.bind_some] at h
    obtain ⟨s, hrun, hp⟩ := Lib.exists_reaches step (fun _ _ => true) s₀ as p h
    exact ⟨s₀, s, rfl, hrun.mono fun _ _ _ => trivial, hp⟩

/-- Two blocks are taken, the client overwrites the link in the first and frees it. -/
def overwrittenRun (p : ℕ) : List Action := [.alloc, .alloc, .write p 0 255, .free p]

/-- A block that was overwritten and freed is handed out again. -/
theorem one_owner_per_block_overwritten : ∃ s : State, s.live = [5120] ∧ (mpAlloc s).2 = 4096 ∧
    (mpAlloc s).2 ∉ s.live ∧
    s.pool.freeCount + s.live.length = memPageSize / s.pool.blockSize := by
  obtain ⟨s₀, s, h₀, hrun, hp⟩ := exists_run (fun _ => 0) 1024 4096 (overwrittenRun 4096)
    (fun s => decide (s.live = [5120] ∧ (mpAlloc s).2 = 4096)) (by decide)
  obtain ⟨hlive, hresult⟩ := of_decide_eq_true hp
  obtain ⟨-, howner, -, hcount, -⟩ := one_owner_per_block (by decide) h₀ hrun
  exact ⟨s, hlive, hresult, (howner (by rw [hresult]; decide)).2, hcount⟩

end CPStudy.MemPool.FixedPool
