import CPStudy.Lib.Chain
import CPStudy.Lib.Packing
import CPStudy.MemPool.PagePool.Blocks

/-!
# The page pool wastes no page

`mp_alloc` looks through all pages before it takes a new one, so the first block of a page is one
that no older page had room for. As `free_ptr` only grows, any two pages hold together more than
would go into one (`Tight`), and by `Lib.card_mul_lt_of_pairwise` the pages are more than half full
on the average.
-/

namespace CPStudy.MemPool.PagePool

open Function (update)
open Lib (Region)

variable {malloc : ℕ → ℕ} {max : ℕ} {s s' : State} {size ptr : ℕ}

/-- The headers of the list form a chain that is entered at the address and ends in `NULL`. -/
def HeaderChain (node : ℕ → MpNode) (p : ℕ) (headers : List ℕ) : Prop :=
  Lib.Chain 0 (fun q => (node q).next) p headers

/-- From each page the chain leads through all the older ones. -/
theorem Shape.chain (hm : MallocOk malloc max) (hs : Shape malloc max s) {k : ℕ}
    (hk : k < s.mallocs) :
    HeaderChain s.node (malloc k) ((List.range (k + 1)).map malloc).reverse := by
  induction k with
  | zero => exact ⟨rfl, hm.ne_null 0, hs.last⟩
  | succ k ih =>
    rw [List.range_succ, List.map_append, List.reverse_append]
    refine ⟨rfl, hm.ne_null (k + 1), ?_⟩
    dsimp only
    rw [hs.next k hk]
    exact ih (by omega)

/-- The chain from `current` is made of all pages. -/
theorem Shape.chain_current (hm : MallocOk malloc max) (hs : Shape malloc max s) :
    HeaderChain s.node s.pool.current (s.pages malloc).reverse := by
  have hpos := hs.pos
  obtain ⟨n, hn⟩ : ∃ n, s.mallocs = n + 1 := ⟨s.mallocs - 1, by omega⟩
  have hchain := hs.chain hm (k := n) (by omega)
  rw [hs.current]
  unfold State.pages
  rw [hn]
  exact hchain

/-- How many bytes of the page `k` lie between the header and `free_ptr`. -/
def used (malloc : ℕ → ℕ) (s : State) (k : ℕ) : ℕ :=
  if k < s.mallocs then (s.node (malloc k)).freePtr - (malloc k + sizeofNode) else 0

/-- Any two pages of the pool hold together more than goes into one. -/
def Tight (malloc : ℕ → ℕ) (max : ℕ) (s : State) : Prop :=
  ∀ j < s.mallocs, ∀ k < s.mallocs, j ≠ k → max - sizeofNode < used malloc s j + used malloc s k

/-- What a call of `mp_alloc` does to the bytes handed out: the block is cut from one page, and
where that is a new one, no older page had room for the block. -/
structure Cut (malloc : ℕ → ℕ) (max : ℕ) (s : State) (size : ℕ) (s' : State) (ptr k : ℕ) :
    Prop where
  /-- The page is in the pool. -/
  lt : k < s'.mallocs
  /-- The block lies in the page. -/
  inPage : InPage malloc max k ⟨ptr, size⟩
  /-- The bytes of the block are counted in that page, and the other pages are as before. -/
  counted : ∀ j, used malloc s' j = used malloc s j + if j = k then size else 0
  /-- There are no fewer pages than before. -/
  le : s.mallocs ≤ s'.mallocs
  /-- The page is an old one, and there is no new one, or it is the new one. -/
  fresh : s'.mallocs = s.mallocs ∨ (s'.mallocs = s.mallocs + 1 ∧ k = s.mallocs ∧
    ∀ j < s.mallocs, max - sizeofNode < used malloc s j + size)

/-- Every call cuts its block from a page. -/
theorem AllocEffect.cut (hm : MallocOk malloc max) (hmax : sizeofNode ≤ max)
    (hsize : size ≤ max - sizeofNode) (hs : Shape malloc max s)
    (h : AllocEffect malloc s size s' ptr) : ∃ k, Cut malloc max s size s' ptr k := by
  cases h with
  | reuse k hk hfit =>
    have hheader := hs.header k hk
    unfold Fits at hfit
    rw [hs.end k hk] at hfit
    refine ⟨k, hk, ⟨hheader, hfit⟩, fun j => ?_, le_rfl, .inl rfl⟩
    -- The page has the block more, and the other pages are as they were.
    unfold used
    dsimp only
    rcases eq_or_ne j k with rfl | hjk
    · rw [if_pos hk, if_pos hk, if_pos rfl, Function.update_self]
      show (s.node (malloc j)).freePtr + size - _ = _
      omega
    · rw [Function.update_of_ne (hm.ne hmax hjk), if_neg hjk, Nat.add_zero]
  | fresh hfull =>
    refine ⟨s.mallocs, Nat.lt_succ_self _, ⟨le_rfl, ?_⟩, fun j => ?_, Nat.le_succ _,
      .inr ⟨rfl, rfl, fun j hj => ?_⟩⟩
    · show malloc s.mallocs + sizeofNode + size ≤ malloc s.mallocs + max
      omega
    · unfold used
      dsimp only
      -- The new page holds the block alone.
      rcases Nat.lt_trichotomy j s.mallocs with hlt | rfl | hgt
      · rw [Function.update_of_ne (hm.ne hmax (by omega)), if_pos (by omega), if_pos hlt,
          if_neg (by omega), Nat.add_zero]
      · rw [Function.update_self, if_pos (Nat.lt_succ_self _), if_neg (lt_irrefl _), if_pos rfl]
        dsimp only
        omega
      · rw [if_neg (by omega), if_neg (by omega), if_neg (by omega)]
    · -- A page without room for the block has less than that left.
      have hj' := hfull j hj
      have hheader := hs.header j hj
      unfold Fits at hj'
      rw [hs.end j hj] at hj'
      unfold used
      rw [if_pos hj]
      omega

/-- The pages stay tight: what a page holds never shrinks, and a new page holds what no other had
room for. -/
theorem Tight.cut (ht : Tight malloc max s) {k : ℕ} (h : Cut malloc max s size s' ptr k) :
    Tight malloc max s' := by
  intro i hi j hj hij
  have hui := h.counted i
  have huj := h.counted j
  rcases h.fresh with hsame | ⟨hnew, rfl, hfull⟩
  · rw [hsame] at hi hj
    have := ht i hi j hj hij
    omega
  · rcases eq_or_ne i s.mallocs with rfl | hi'
    · have := hfull j (by omega)
      rw [if_pos rfl] at hui
      omega
    · have hil := hfull i (by omega)
      rcases eq_or_ne j s.mallocs with rfl | hj'
      · rw [if_pos rfl] at huj
        omega
      · have := ht i (by omega) j (by omega) hij
        omega

/-- Beyond the pages of the pool nothing is handed out. -/
theorem sum_used_of_le {n : ℕ} (hn : s.mallocs ≤ n) :
    ∑ k ∈ Finset.range n, used malloc s k = ∑ k ∈ Finset.range s.mallocs, used malloc s k := by
  refine (Finset.sum_subset (Finset.range_mono hn) fun k _ hk => ?_).symm
  rw [Finset.mem_range] at hk
  exact if_neg hk

/-- A call hands out as many bytes as it was asked for. -/
theorem Cut.sum_used {k : ℕ} (h : Cut malloc max s size s' ptr k) :
    ∑ j ∈ Finset.range s'.mallocs, used malloc s' j =
      ∑ j ∈ Finset.range s.mallocs, used malloc s j + size := by
  rw [← sum_used_of_le h.le, Finset.sum_congr rfl fun j _ => h.counted j, Finset.sum_add_distrib,
    Finset.sum_ite_eq', if_pos (Finset.mem_range.mpr h.lt)]

instance (k : ℕ) : DecidablePred (InPage malloc max k) := fun _ =>
  inferInstanceAs (Decidable (_ ∧ _))

/-- The bytes of those of the blocks that lie in the page `k`. -/
def handedOut (malloc : ℕ → ℕ) (max : ℕ) (blocks : List Region) (k : ℕ) : ℕ :=
  ((blocks.filter fun b => InPage malloc max k b).map Region.size).sum

/-- The bytes of the block that a call returns are counted in the page it is cut from. -/
theorem Cut.handedOut_cons (hm : MallocOk malloc max) {k : ℕ} (h : Cut malloc max s size s' ptr k)
    (blocks : List Region) (j : ℕ) : handedOut malloc max (⟨ptr, size⟩ :: blocks) j =
      (if j = k then size else 0) + handedOut malloc max blocks j := by
  unfold handedOut
  rw [List.filter_cons]
  rcases eq_or_ne j k with rfl | hjk
  · rw [if_pos (decide_eq_true h.inPage), if_pos rfl, List.map_cons, List.sum_cons]
  · rw [if_neg hjk, Nat.zero_add]
    split
    case isTrue hj =>
      -- A block in two pages is empty, for the pages are apart.
      have hj' : InPage malloc max j ⟨ptr, size⟩ := of_decide_eq_true hj
      have hapart := (hm.apart j k hjk).mono hj'.within h.inPage.within
      rw [Region.apart_mk] at hapart
      have hsize : size = 0 := by omega
      rw [List.map_cons, List.sum_cons, hsize, Nat.zero_add]
    case isFalse => rfl

/-- What calls of `mp_alloc` hand out, one after another. -/
theorem mpAllocs_used (hm : MallocOk malloc max) (hmax : sizeofNode ≤ max) {sizes : List ℕ}
    (hsizes : ∀ size ∈ sizes, size ≤ max - sizeofNode) {fuel : ℕ} (hs : Shape malloc max s)
    (hfuel : s.mallocs + sizes.length ≤ fuel) {t : State} {blocks : List Region}
    (h : mpAllocs malloc fuel s sizes = some (t, blocks)) (htight : Tight malloc max s) :
    Tight malloc max t ∧ t.mallocs ≤ s.mallocs + sizes.length ∧
      (∀ k, used malloc t k = used malloc s k + handedOut malloc max blocks k) ∧
      ∑ k ∈ Finset.range t.mallocs, used malloc t k =
        ∑ k ∈ Finset.range s.mallocs, used malloc s k + sizes.sum := by
  induction sizes generalizing s blocks with
  | nil =>
    simp only [mpAllocs, Option.some.injEq, Prod.mk.injEq] at h
    obtain ⟨rfl, rfl⟩ := h
    exact ⟨htight, Nat.le_refl _, fun k => rfl, by rw [List.sum_nil, Nat.add_zero]⟩
  | cons size sizes ih =>
    rw [List.length_cons] at hfuel
    obtain ⟨s', ptr, halloc, heff⟩ := mpAlloc_spec hm hs (show s.mallocs ≤ fuel by omega) size
    have hsize : size ≤ max - sizeofNode := hsizes size (List.mem_cons_self ..)
    obtain ⟨k, hcut⟩ := heff.cut hm hmax hsize hs
    have hmallocs := heff.mallocs_le
    rw [mpAllocs, halloc, Option.bind_some] at h
    obtain ⟨⟨t', blocks'⟩, hrest, heq⟩ := Option.map_eq_some_iff.mp h
    cases heq
    obtain ⟨ht, hle, hused, hsum⟩ := ih (fun n hn => hsizes n (List.mem_cons_of_mem _ hn))
      (hs.alloc hm hmax hsize heff) (by omega) hrest (htight.cut hcut)
    refine ⟨ht, by rw [List.length_cons]; omega, fun j => ?_, ?_⟩
    · rw [hused j, hcut.counted j, hcut.handedOut_cons hm, Nat.add_assoc]
    · rw [hsum, hcut.sum_used, List.sum_cons, Nat.add_assoc]

/-- Nothing is handed out in the one page of `mp_init`. -/
theorem used_mpInit (malloc : ℕ → ℕ) (memory : ℕ → MpNode) (max k : ℕ) :
    used malloc (mpInit malloc memory max) k = 0 := by
  unfold used
  split
  case isTrue hk =>
    obtain rfl : k = 0 := Nat.lt_one_iff.mp hk
    simp [mpInit]
  case isFalse => rfl

/-- After `mp_init` and any sequence of calls of `mp_alloc` with sizes up to the capacity of a page:
the chain from `current` goes through all pages, through each once, to `NULL`; a further call takes
a new page only where no page has room for the size; the blocks handed out from any two pages are
together larger than the capacity; and with two pages or more, more than half of the capacity of
all pages was asked for. -/
theorem no_page_wasted (hm : MallocOk malloc max) (hmax : sizeofNode ≤ max)
    (memory : ℕ → MpNode) (sizes : List ℕ) (hsizes : ∀ size ∈ sizes, size ≤ max - sizeofNode)
    (fuel : ℕ) (hfuel : sizes.length < fuel) :
    ∃ s blocks, mpAllocs malloc fuel (mpInit malloc memory max) sizes = some (s, blocks) ∧
      (HeaderChain s.node s.pool.current (s.pages malloc).reverse ∧ (s.pages malloc).Nodup) ∧
      (∀ size ≤ max - sizeofNode, ∃ s' ptr, mpAlloc malloc fuel s size = some (s', ptr) ∧
        (s'.mallocs ≠ s.mallocs →
          ∀ p ∈ s.pages malloc, (s.node p).end < (s.node p).freePtr + size)) ∧
      (∀ j < s.mallocs, ∀ k < s.mallocs, j ≠ k →
        max - sizeofNode < handedOut malloc max blocks j + handedOut malloc max blocks k) ∧
      (2 ≤ s.mallocs → s.mallocs * (max - sizeofNode) < 2 * sizes.sum) := by
  have hinit : Shape malloc max (mpInit malloc memory max) := shape_mpInit memory hmax
  have hstart : (mpInit malloc memory max).mallocs + sizes.length ≤ fuel := by
    show 1 + sizes.length ≤ fuel
    omega
  obtain ⟨s, blocks, hallocs, hall⟩ := mpAllocs_spec hm hmax hsizes hinit hstart
  -- With one page there is nothing to compare.
  have htight₀ : Tight malloc max (mpInit malloc memory max) := by
    intro j hj k hk hjk
    have hone : (mpInit malloc memory max).mallocs = 1 := rfl
    omega
  obtain ⟨htight, hle, hused, hsum⟩ :=
    mpAllocs_used hm hmax hsizes hinit hstart hallocs htight₀
  rw [Finset.sum_eq_zero fun k _ => used_mpInit malloc memory max k, Nat.zero_add] at hsum
  have hout : ∀ k, handedOut malloc max blocks k = used malloc s k := by
    intro k
    rw [hused k, used_mpInit, Nat.zero_add]
  have hchain := hall.shape.chain_current hm
  refine ⟨s, blocks, hallocs, ⟨hchain, List.nodup_reverse.mp hchain.nodup⟩, fun size _ => ?_,
    fun j hj k hk hjk => ?_, fun htwo => ?_⟩
  · obtain ⟨s', ptr, halloc, heff⟩ :=
      mpAlloc_spec hm hall.shape (show s.mallocs ≤ fuel by omega) size
    refine ⟨s', ptr, halloc, fun hnew p hp => ?_⟩
    obtain ⟨k, hk, rfl⟩ := List.mem_map.mp hp
    cases heff with
    | reuse => exact absurd rfl hnew
    | fresh hfull => exact Nat.lt_of_not_le (hfull k (List.mem_range.mp hk))
  · rw [hout j, hout k]
    exact htight j hj k hk hjk
  · have hhalf := Lib.card_mul_lt_of_pairwise (s := Finset.range s.mallocs)
      (f := used malloc s) (c := max - sizeofNode) (by rw [Finset.card_range]; omega)
      fun j hj k hk hjk => htight j (Finset.mem_range.mp hj) k (Finset.mem_range.mp hk) hjk
    rw [Finset.card_range, hsum] at hhalf
    exact hhalf

/-- Three requests that need two pages of 4096 bytes. -/
theorem no_page_wasted_second_page : ∃ s blocks,
    mpAllocs (rowMalloc 4096) 4 (mpInit (rowMalloc 4096) (fun _ => ⟨0, 0, 0⟩) 4096)
      [4000, 100, 60] = some (s, blocks) ∧
    HeaderChain s.node s.pool.current (s.pages (rowMalloc 4096)).reverse ∧
    (2 ≤ s.mallocs → s.mallocs * (4096 - sizeofNode) < 2 * [4000, 100, 60].sum) := by
  obtain ⟨s, blocks, h, hchain, -, -, hhalf⟩ := no_page_wasted
    (rowMalloc_ok (show 0 < 4096 by decide)) (by decide) (fun _ => ⟨0, 0, 0⟩) [4000, 100, 60]
    (by decide) 4 (by decide)
  exact ⟨s, blocks, h, hchain.1, hhalf⟩

end CPStudy.MemPool.PagePool
