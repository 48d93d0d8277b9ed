import CPStudy.Lib.Region
import CPStudy.MemPool.FixedPool.Model

/-!
# Each block of the fixed-block pool has one owner

The page is cut into `n` blocks at distances of the block size. `Shape` says that each of them is
either live or on the free list, which is entered at `free_ptr` and has `free_count` blocks. Where
the list goes on behind its last block is not said: `mp_init` leaves the address just past the page
there, and only the count keeps `mp_alloc` from following it.

The links stand in free blocks and the client writes to live ones, which are apart.
-/

namespace CPStudy.MemPool.FixedPool

open Function (update)
open Lib (Memory Region)
open Lib.Memory (load store Links load_store load_store_of_apart load_update store_of_notMem
  load_congr)

variable {addr size n : ℕ} {s s' : State}

/-- The addresses of the `n` blocks of a page. -/
def blocks (addr size n : ℕ) : List ℕ := List.range' addr n size

/-- An address is a block's exactly when it lies at a multiple of the block size. -/
theorem mem_blocks {p : ℕ} : p ∈ blocks addr size n ↔ ∃ k < n, p = addr + k * size := by
  unfold blocks
  rw [List.mem_range']
  simp only [Nat.mul_comm size]

/-- Two blocks are equal or at least the block size apart. -/
theorem blocks_apart {p q : ℕ} (hp : p ∈ blocks addr size n) (hq : q ∈ blocks addr size n)
    (hne : p ≠ q) : (⟨p, size⟩ : Region).Apart ⟨q, size⟩ := by
  obtain ⟨j, hj, rfl⟩ := mem_blocks.mp hp
  obtain ⟨k, hk, rfl⟩ := mem_blocks.mp hq
  have hjk : j ≠ k := by
    rintro rfl
    exact hne rfl
  rw [Region.apart_mk]
  -- The block of the smaller number ends before the other begins.
  rcases Nat.lt_or_gt_of_ne hjk with hlt | hgt
  · left
    calc addr + j * size + size = addr + (j + 1) * size := by rw [Nat.succ_mul, Nat.add_assoc]
      _ ≤ addr + k * size := Nat.add_le_add_left (Nat.mul_le_mul_right size hlt) addr
  · right
    calc addr + k * size + size = addr + (k + 1) * size := by rw [Nat.succ_mul, Nat.add_assoc]
      _ ≤ addr + j * size := Nat.add_le_add_left (Nat.mul_le_mul_right size hgt) addr

/-- Every block ends within the `n * size` bytes of the blocks. -/
theorem block_le {p : ℕ} (hp : p ∈ blocks addr size n) : addr ≤ p ∧ p + size ≤ addr + n * size := by
  obtain ⟨k, hk, rfl⟩ := mem_blocks.mp hp
  refine ⟨Nat.le_add_right _ _, ?_⟩
  calc addr + k * size + size = addr + (k + 1) * size := by rw [Nat.succ_mul, Nat.add_assoc]
    _ ≤ addr + n * size := Nat.add_le_add_left (Nat.mul_le_mul_right size hk) addr

/-- Each of the `n` blocks is live or on the free list. -/
structure Shape (addr size n : ℕ) (s : State) (free : List ℕ) : Prop where
  /-- `block_size`. -/
  blockSize : s.pool.blockSize = size
  /-- `mem`. -/
  mem : s.pool.mem = addr
  /-- `free_count`. -/
  freeCount : s.pool.freeCount = free.length
  /-- The free blocks are linked from `free_ptr` on. -/
  links : Links sizeofPtr s.memory s.pool.freePtr free
  /-- The free and the live blocks are all the blocks of the page, each once. -/
  perm : (free ++ s.live).Perm (blocks addr size n)

namespace Shape

variable {free : List ℕ}

/-- No block is both free and live, and none is so twice. -/
theorem nodup (h : Shape addr size n s free) (hsize : 0 < size) : (free ++ s.live).Nodup :=
  h.perm.nodup_iff.mpr (List.nodup_range' size hsize)

/-- The free and the live blocks are `n` in number. -/
theorem length (h : Shape addr size n s free) : free.length + s.live.length = n := by
  rw [← List.length_append, h.perm.length_eq]
  exact List.length_range'

/-- A free block is a block of the page. -/
theorem mem_of_free (h : Shape addr size n s free) {p : ℕ} (hp : p ∈ free) :
    p ∈ blocks addr size n := h.perm.mem_iff.mp (List.mem_append_left _ hp)

/-- A live block is a block of the page. -/
theorem mem_of_live (h : Shape addr size n s free) {p : ℕ} (hp : p ∈ s.live) :
    p ∈ blocks addr size n := h.perm.mem_iff.mp (List.mem_append_right _ hp)

/-- A free block and a live one are apart. -/
theorem apart (h : Shape addr size n s free) (hsize : 0 < size) {p q : ℕ} (hp : p ∈ free)
    (hq : q ∈ s.live) : (⟨p, size⟩ : Region).Apart ⟨q, size⟩ := by
  refine blocks_apart (h.mem_of_free hp) (h.mem_of_live hq) ?_
  rintro rfl
  exact (List.nodup_append.mp (h.nodup hsize)).2.2 p hp p hq rfl

/-- With the free list empty, `mp_alloc` returns `NULL`. -/
theorem alloc_nil (h : Shape addr size n s []) : mpAlloc s = (s, 0) := by
  unfold mpAlloc
  exact if_pos h.freeCount

/-- Otherwise it returns the first free block, and the rest of the list is left. -/
theorem alloc_cons {p : ℕ} (h : Shape addr size n s (p :: free)) :
    (mpAlloc s).2 = p ∧
      Shape addr size n { (mpAlloc s).1 with live := p :: (mpAlloc s).1.live } free := by
  have hcount : s.pool.freeCount = free.length + 1 := h.freeCount
  obtain ⟨hp, hlinks⟩ := h.links
  unfold mpAlloc
  rw [if_neg (by omega)]
  refine ⟨hp, ?_⟩
  refine { blockSize := h.blockSize, mem := h.mem, freeCount := ?_, links := ?_, perm := ?_ }
  · show s.pool.freeCount - 1 = free.length
    omega
  -- The link stored in the block that is handed out leads to the rest of the list.
  · show Links sizeofPtr s.memory (load sizeofPtr s.memory s.pool.freePtr) free
    rw [hp]
    exact hlinks
  · exact List.perm_middle.trans h.perm

/-- The address in `free_ptr` fits in a pointer, unless nothing is free. -/
theorem links_push (h : Shape addr size n s free) (hsize : 16 ≤ size)
    (hfits : addr + n * size ≤ 256 ^ sizeofPtr) {p : ℕ} (hp : p ∈ s.live) :
    Links sizeofPtr (store sizeofPtr s.memory p s.pool.freePtr) p (p :: free) := by
  cases free with
  | nil => exact ⟨rfl, trivial⟩
  | cons q free =>
    have hq := block_le (h.mem_of_free (List.mem_cons_self ..))
    -- The pointer is stored in the block that comes free, so no link of the list is overwritten.
    refine h.links.push ?_ fun x hx => ?_
    · rw [h.links.1]
      omega
    · have hapart := h.apart (by omega) hx hp
      rw [Region.apart_mk] at hapart
      unfold sizeofPtr
      omega

/-- `mp_free` puts a live block in front of the free list. -/
theorem free_live (h : Shape addr size n s free) (hsize : 16 ≤ size)
    (hfits : addr + n * size ≤ 256 ^ sizeofPtr) {p : ℕ} (hp : p ∈ s.live) :
    Shape addr size n { mpFree s p with live := s.live.erase p } (p :: free) where
  blockSize := h.blockSize
  mem := h.mem
  freeCount := by
    show s.pool.freeCount + 1 = free.length + 1
    rw [h.freeCount]
  links := h.links_push hsize hfits hp
  perm := by
    -- The block moves from the live ones to the front of the list.
    have hperm : (free ++ p :: s.live.erase p).Perm (free ++ s.live) :=
      List.Perm.append_left free (List.perm_cons_erase hp).symm
    exact (List.perm_middle.symm.trans hperm).trans h.perm

/-- Writing in a live block leaves the free list alone. -/
theorem write (h : Shape addr size n s free) (hsize : 16 ≤ size) {p offset : ℕ} {byte : UInt8}
    (hp : p ∈ s.live) (hoffset : offset < size) :
    Shape addr size n { s with memory := update s.memory (p + offset) byte } free where
  blockSize := h.blockSize
  mem := h.mem
  freeCount := h.freeCount
  links := by
    refine h.links.congr fun x hx => load_update ?_
    have hapart := h.apart (by omega) hx hp
    rw [Region.apart_mk] at hapart
    unfold sizeofPtr
    omega
  perm := h.perm

end Shape

end CPStudy.MemPool.FixedPool
