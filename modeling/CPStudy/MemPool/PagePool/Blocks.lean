import CPStudy.MemPool.PagePool.Alloc

/-!
# The blocks of the page pool never overlap

A block that `mp_alloc` has returned is `Placed`: it lies in one page of the pool, between the
header and `free_ptr`. It stays so, since `free_ptr` only grows and the page is never given back.
A new block begins at `free_ptr` of its page, behind every block of that page, and the other pages
are apart from it.
-/

namespace CPStudy.MemPool.PagePool

open Function (update)
open Lib (Region)

variable {malloc : ℕ → ℕ} {max : ℕ} {s s' : State} {size ptr : ℕ} {b : Region}

/-- The block lies in a page of the pool, between the header and `free_ptr`. -/
def Placed (malloc : ℕ → ℕ) (s : State) (b : Region) : Prop :=
  ∃ k < s.mallocs, malloc k + sizeofNode ≤ b.base ∧
    b.base + b.size ≤ (s.node (malloc k)).freePtr

/-- The block lies in the page `k`, after the header. -/
def InPage (malloc : ℕ → ℕ) (max k : ℕ) (b : Region) : Prop :=
  malloc k + sizeofNode ≤ b.base ∧ b.base + b.size ≤ malloc k + max

/-- A block in a page lies within the region of that page. -/
theorem InPage.within {k : ℕ} (h : InPage malloc max k b) : b.Within (page malloc max k) := by
  exact ⟨le_trans (Nat.le_add_right _ _) h.1, h.2⟩

/-- A placed block lies in a page. -/
theorem Placed.inPage (hs : Shape malloc max s) (h : Placed malloc s b) :
    ∃ k < s.mallocs, InPage malloc max k b := by
  obtain ⟨k, hk, hbase, hend⟩ := h
  exact ⟨k, hk, hbase, le_trans hend (hs.room k hk)⟩

/-- `free_ptr` of a page of the pool never goes back. -/
theorem AllocEffect.freePtr_le (hm : MallocOk malloc max) (hmax : sizeofNode ≤ max)
    (h : AllocEffect malloc s size s' ptr) {k : ℕ} (hk : k < s.mallocs) :
    k < s'.mallocs ∧ (s.node (malloc k)).freePtr ≤ (s'.node (malloc k)).freePtr := by
  cases h with
  | reuse j hj hfit =>
    refine ⟨hk, ?_⟩
    show _ ≤ (update s.node (malloc j) _ (malloc k)).freePtr
    -- The block is cut from one page `j`, and the other pages stay as they are.
    rcases eq_or_ne k j with rfl | hkj
    · rw [Function.update_self]
      exact Nat.le_add_right _ _
    · rw [Function.update_of_ne (hm.ne hmax hkj)]
  | fresh hfull =>
    refine ⟨Nat.lt_succ_of_lt hk, ?_⟩
    show _ ≤ (update s.node (malloc s.mallocs) _ (malloc k)).freePtr
    rw [Function.update_of_ne (hm.ne hmax (by omega))]

/-- A placed block stays placed. -/
theorem Placed.mono (hm : MallocOk malloc max) (hmax : sizeofNode ≤ max) (hb : Placed malloc s b)
    (h : AllocEffect malloc s size s' ptr) : Placed malloc s' b := by
  obtain ⟨k, hk, hbase, hend⟩ := hb
  obtain ⟨hk', hle⟩ := h.freePtr_le hm hmax hk
  exact ⟨k, hk', hbase, le_trans hend hle⟩

/-- The new block is placed. -/
theorem placed_of_alloc (hs : Shape malloc max s) (h : AllocEffect malloc s size s' ptr) :
    Placed malloc s' ⟨ptr, size⟩ := by
  cases h with
  | reuse k hk hfit =>
    refine ⟨k, hk, hs.header k hk, ?_⟩
    show _ ≤ (update s.node (malloc k) _ (malloc k)).freePtr
    rw [Function.update_self]
    exact le_rfl
  | fresh hfull =>
    refine ⟨s.mallocs, Nat.lt_succ_self _, le_rfl, ?_⟩
    show _ ≤ (update s.node (malloc s.mallocs) _ (malloc s.mallocs)).freePtr
    rw [Function.update_self]

/-- The new block lies in a page, of which the placed blocks end before it begins. -/
theorem alloc_inPage (hs : Shape malloc max s) (hmax : sizeofNode ≤ max)
    (hsize : size ≤ max - sizeofNode) (h : AllocEffect malloc s size s' ptr) :
    ∃ k, InPage malloc max k ⟨ptr, size⟩ ∧
      (k < s.mallocs → (s.node (malloc k)).freePtr ≤ ptr) := by
  cases h with
  | reuse k hk hfit =>
    unfold Fits at hfit
    rw [hs.end k hk] at hfit
    exact ⟨k, ⟨hs.header k hk, hfit⟩, fun _ => le_rfl⟩
  | fresh hfull =>
    refine ⟨s.mallocs, ⟨le_rfl, ?_⟩, fun hk => absurd hk (lt_irrefl _)⟩
    show malloc s.mallocs + sizeofNode + size ≤ malloc s.mallocs + max
    omega

/-- A placed block is apart from the new one. -/
theorem Placed.apart (hm : MallocOk malloc max) (hmax : sizeofNode ≤ max)
    (hsize : size ≤ max - sizeofNode) (hs : Shape malloc max s) (hb : Placed malloc s b)
    (h : AllocEffect malloc s size s' ptr) : b.Apart ⟨ptr, size⟩ := by
  obtain ⟨j, hj, hbase, hend⟩ := hb
  obtain ⟨k, hnew, hafter⟩ := alloc_inPage hs hmax hsize h
  -- In the same page the new block begins behind the old one, and two pages are apart.
  rcases eq_or_ne j k with rfl | hjk
  · exact .inl (le_trans hend (hafter hj))
  · have hold : InPage malloc max j b := ⟨hbase, le_trans hend (hs.room j hj)⟩
    exact (hm.apart j k hjk).mono hold.within hnew.within

/-- What a sequence of calls of `mp_alloc` gives from a state of the pool. -/
structure Allocated (malloc : ℕ → ℕ) (max : ℕ) (s : State) (sizes : List ℕ) (t : State)
    (blocks : List Region) : Prop where
  /-- The pages still stand as they should. -/
  shape : Shape malloc max t
  /-- Every call has returned a block of the size it was asked for. -/
  sizes : blocks.map Region.size = sizes
  /-- The blocks placed before are still placed. -/
  keeps : ∀ b, Placed malloc s b → Placed malloc t b
  /-- The new blocks are placed. -/
  placed : ∀ b ∈ blocks, Placed malloc t b
  /-- The new blocks are apart from those placed before. -/
  old : ∀ b, Placed malloc s b → ∀ b' ∈ blocks, b.Apart b'
  /-- The new blocks are apart from one another. -/
  apart : blocks.Pairwise Region.Apart

/-- A call of `mp_alloc` followed by others. -/
theorem Allocated.cons {sizes : List ℕ} {t : State} {blocks : List Region}
    (hm : MallocOk malloc max) (hmax : sizeofNode ≤ max) (hsize : size ≤ max - sizeofNode)
    (hs : Shape malloc max s) (h : AllocEffect malloc s size s' ptr)
    (ht : Allocated malloc max s' sizes t blocks) :
    Allocated malloc max s (size :: sizes) t (⟨ptr, size⟩ :: blocks) where
  shape := ht.shape
  sizes := by rw [List.map_cons, ht.sizes]
  keeps := fun b hb => ht.keeps b (hb.mono hm hmax h)
  placed := fun b hb => by
    rcases List.mem_cons.mp hb with rfl | hb
    · exact ht.keeps _ (placed_of_alloc hs h)
    · exact ht.placed b hb
  old := fun b hb b' hb' => by
    rcases List.mem_cons.mp hb' with rfl | hb'
    · exact hb.apart hm hmax hsize hs h
    · exact ht.old b (hb.mono hm hmax h) b' hb'
  apart := List.pairwise_cons.mpr ⟨ht.old _ (placed_of_alloc hs h), ht.apart⟩

/-- A call of `mp_alloc` takes at most one page. -/
theorem AllocEffect.mallocs_le (h : AllocEffect malloc s size s' ptr) :
    s'.mallocs ≤ s.mallocs + 1 := by
  cases h with
  | reuse k hk hfit => exact Nat.le_succ _
  | fresh hfull => exact le_rfl

/-- A sequence of calls of `mp_alloc` returns, and gives what it should. -/
theorem mpAllocs_spec (hm : MallocOk malloc max) (hmax : sizeofNode ≤ max) {sizes : List ℕ}
    (hsizes : ∀ size ∈ sizes, size ≤ max - sizeofNode) {fuel : ℕ} (hs : Shape malloc max s)
    (hfuel : s.mallocs + sizes.length ≤ fuel) :
    ∃ t blocks, mpAllocs malloc fuel s sizes = some (t, blocks) ∧
      Allocated malloc max s sizes t blocks := by
  induction sizes generalizing s with
  | nil =>
    exact ⟨s, [], rfl, hs, rfl, fun _ hb => hb, by simp, by simp, List.Pairwise.nil⟩
  | cons size sizes ih =>
    rw [List.length_cons] at hfuel
    obtain ⟨s', ptr, halloc, heff⟩ := mpAlloc_spec hm hs (show s.mallocs ≤ fuel by omega) size
    have hsize : size ≤ max - sizeofNode := hsizes size (List.mem_cons_self ..)
    -- The bound on the passes covers the pages there can be by the last call: one more a call.
    have hmallocs := heff.mallocs_le
    obtain ⟨t, blocks, hallocs, ht⟩ := ih (fun n hn => hsizes n (List.mem_cons_of_mem _ hn))
      (hs.alloc hm hmax hsize heff) (by omega)
    refine ⟨t, ⟨ptr, size⟩ :: blocks, ?_, ht.cons hm hmax hsize hs heff⟩
    rw [mpAllocs, halloc, Option.bind_some, hallocs, Option.map_some]

/-- After `mp_init`, every sequence of calls of `mp_alloc` with sizes within the documented bound
returns. Each block has the size it was asked for and lies inside one page after that page's
header, and the blocks of any two calls share no byte. -/
theorem blocks_disjoint (hm : MallocOk malloc max) (hmax : sizeofNode ≤ max)
    (memory : ℕ → MpNode) (sizes : List ℕ) (hsizes : ∀ size ∈ sizes, size ≤ max - sizeofNode)
    (fuel : ℕ) (hfuel : sizes.length < fuel) :
    ∃ s blocks, mpAllocs malloc fuel (mpInit malloc memory max) sizes = some (s, blocks) ∧
      blocks.map Region.size = sizes ∧
      (∀ b ∈ blocks, ∃ k < s.mallocs, InPage malloc max k b) ∧
      blocks.Pairwise fun b b' => ∀ x ∈ b.bytes, x ∉ b'.bytes := by
  have hstart : (mpInit malloc memory max).mallocs + sizes.length ≤ fuel := by
    show 1 + sizes.length ≤ fuel
    omega
  obtain ⟨s, blocks, hallocs, h⟩ :=
    mpAllocs_spec hm hmax hsizes (shape_mpInit memory hmax) hstart
  refine ⟨s, blocks, hallocs, h.sizes, fun b hb => (h.placed b hb).inPage h.shape, ?_⟩
  refine h.apart.imp ?_
  intro b b' hab x hx
  exact hab.notMem hx

/-- A `malloc` that returns one page behind the other. -/
def rowMalloc (max : ℕ) (k : ℕ) : ℕ := (k + 1) * max

/-- Pages in a row are apart. -/
theorem rowMalloc_ok {max : ℕ} (hmax : 0 < max) : MallocOk (rowMalloc max) max where
  ne_null := fun k => Nat.ne_of_gt (Nat.mul_pos (Nat.succ_pos k) hmax)
  apart := fun j k hjk => by
    unfold Region.Apart page rowMalloc
    rcases Nat.lt_or_gt_of_ne hjk with hlt | hgt
    · left
      calc (j + 1) * max + max = (j + 2) * max := by rw [← Nat.succ_mul]
        _ ≤ (k + 1) * max := Nat.mul_le_mul_right max (by omega)
    · right
      calc (k + 1) * max + max = (k + 2) * max := by rw [← Nat.succ_mul]
        _ ≤ (j + 1) * max := Nat.mul_le_mul_right max (by omega)

/-- Three requests on pages of 4096 bytes, the second of which needs a page of its own. -/
theorem blocks_disjoint_second_page : ∃ s blocks,
    mpAllocs (rowMalloc 4096) 4 (mpInit (rowMalloc 4096) (fun _ => ⟨0, 0, 0⟩) 4096)
      [4000, 100, 60] = some (s, blocks) ∧
    blocks.map Region.size = [4000, 100, 60] ∧
    (∀ b ∈ blocks, ∃ k < s.mallocs, InPage (rowMalloc 4096) 4096 k b) ∧
    blocks.Pairwise fun b b' => ∀ x ∈ b.bytes, x ∉ b'.bytes :=
  blocks_disjoint (rowMalloc_ok (by decide)) (by decide) _ [4000, 100, 60] (by decide) 4 (by decide)

end CPStudy.MemPool.PagePool
