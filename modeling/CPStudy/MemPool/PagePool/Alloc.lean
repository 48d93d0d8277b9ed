import CPStudy.MemPool.PagePool.Model

/-!
# What `mp_alloc` does to the page pool

The pages of a pool are numbered by the calls of `malloc` that gave them. `Shape` says how they
stand in memory: the chain from `current` leads from the newest page to the oldest one, to which
`first` still points, and in each page `free_ptr` lies between the header and the end. So the walk
of `mp_alloc` visits every page once and comes to an end (`find_spec`). `AllocEffect` lists what
`mp_alloc` can then do, and the shape is kept by each.
-/

namespace CPStudy.MemPool.PagePool

open Function (update)
open Lib (loop loop_of_variant)

variable {malloc : ℕ → ℕ} {max : ℕ} {s s' : State} {size : ℕ} {ptr : ℕ}

/-- How the pages of the pool stand in memory. -/
structure Shape (malloc : ℕ → ℕ) (max : ℕ) (s : State) : Prop where
  /-- `mp_init` has taken a page. -/
  pos : 0 < s.mallocs
  /-- `max` is the size that `mp_init` was given. -/
  size : s.pool.max = max
  /-- `first` points to the first page. -/
  first : s.pool.first = malloc 0
  /-- `current` points to the newest page. -/
  current : s.pool.current = malloc (s.mallocs - 1)
  /-- The chain ends with the first page. -/
  last : (s.node (malloc 0)).next = 0
  /-- Each other page is linked to the one before it. -/
  next : ∀ k, k + 1 < s.mallocs → (s.node (malloc (k + 1))).next = malloc k
  /-- `end` is the end of the page. -/
  «end» : ∀ k < s.mallocs, (s.node (malloc k)).end = malloc k + max
  /-- `free_ptr` lies behind the header. -/
  header : ∀ k < s.mallocs, malloc k + sizeofNode ≤ (s.node (malloc k)).freePtr
  /-- `free_ptr` lies within the page. -/
  room : ∀ k < s.mallocs, (s.node (malloc k)).freePtr ≤ malloc k + max

/-- The header at `p` has room for `size` bytes. -/
def Fits (s : State) (size : ℕ) (p : ℕ) : Prop := (s.node p).freePtr + size ≤ (s.node p).end

/-- The changes `mp_alloc` can make, with the address it returns. -/
inductive AllocEffect (malloc : ℕ → ℕ) (s : State) (size : ℕ) : State → ℕ → Prop
  /-- The block is cut from a page of the pool. -/
  | reuse (k : ℕ) (hk : k < s.mallocs) (hfit : Fits s size (malloc k)) :
      AllocEffect malloc s size
        { s with node := update s.node (malloc k) ((s.node (malloc k)).advance size) }
        (s.node (malloc k)).freePtr
  /-- No page has room, and the block is cut from a new one. -/
  | fresh (hfull : ∀ k < s.mallocs, ¬Fits s size (malloc k)) :
      AllocEffect malloc s size
        { node := update s.node (malloc s.mallocs)
            { freePtr := malloc s.mallocs + sizeofNode + size
              «end» := malloc s.mallocs + s.pool.max
              next := s.pool.current }
          pool := { s.pool with current := malloc s.mallocs }
          mallocs := s.mallocs + 1 }
        (malloc s.mallocs + sizeofNode)

/-- The test of the walk. -/
theorem fits_iff {p : ℕ} :
    (size : ℤ) ≤ ((s.node p).end : ℤ) - ((s.node p).freePtr : ℤ) ↔ Fits s size p := by
  unfold Fits
  omega

/-- What the walk finds: a page with room, or that no page has room. -/
def Found (malloc : ℕ → ℕ) (s : State) (size : ℕ) : Option ℕ → Prop
  | some p => ∃ k < s.mallocs, p = malloc k ∧ Fits s size (malloc k)
  | none => ∀ k < s.mallocs, ¬Fits s size (malloc k)

/-- The walk at the page `k`, with the newer pages behind it. -/
def WalkAt (malloc : ℕ → ℕ) (s : State) (size k : ℕ) (p : ℕ) : Prop :=
  k < s.mallocs ∧ p = malloc k ∧ ∀ j, k < j → j < s.mallocs → ¬Fits s size (malloc j)

/-- The walk goes on to the page before. -/
theorem WalkAt.again (hs : Shape malloc max s) {k : ℕ} {p p' : ℕ}
    (h : WalkAt malloc s size k p) (hb : findBody s.node size p = .again p') :
    ∃ m < k, WalkAt malloc s size m p' := by
  obtain ⟨hk, rfl, hnewer⟩ := h
  unfold findBody at hb
  split at hb
  case isTrue => cases hb
  case isFalse hfit =>
    rw [fits_iff] at hfit
    split at hb
    case isTrue => cases hb
    case isFalse hnext =>
      cases hb
      cases k with
      | zero => exact absurd hs.last hnext
      | succ k =>
        -- The page `k + 1`, which has no room, joins the newer ones.
        refine ⟨k, Nat.lt_succ_self k, by omega, hs.next k hk, fun j hj hj' => ?_⟩
        rcases Nat.lt_or_ge (k + 1) j with hlt | hge
        · exact hnewer j hlt hj'
        · obtain rfl : j = k + 1 := by omega
          exact hfit

/-- Where the walk is left, it has found a page with room, or there is none. -/
theorem WalkAt.leave (hm : MallocOk malloc max) (hs : Shape malloc max s) {k : ℕ} {p : ℕ}
    {r : Option ℕ} (h : WalkAt malloc s size k p) (hb : findBody s.node size p = .leave r) :
    Found malloc s size r := by
  obtain ⟨hk, rfl, hnewer⟩ := h
  unfold findBody at hb
  split at hb
  case isTrue hfit =>
    cases hb
    exact ⟨k, hk, rfl, fits_iff.mp hfit⟩
  case isFalse hfit =>
    rw [fits_iff] at hfit
    split at hb
    case isTrue hnext =>
      cases hb
      cases k with
      | zero =>
        intro j hj
        rcases Nat.eq_zero_or_pos j with rfl | hpos
        · exact hfit
        · exact hnewer j hpos hj
      -- Only the first page is the last of the chain.
      | succ k => exact absurd ((hs.next k hk).symm.trans hnext) (hm.ne_null k)
    case isFalse => cases hb

/-- The walk of `mp_alloc` ends within as many passes as there are pages. -/
theorem find_spec (hm : MallocOk malloc max) (hs : Shape malloc max s) {fuel : ℕ}
    (hfuel : s.mallocs ≤ fuel) (size : ℕ) :
    ∃ r, loop (findBody s.node size) fuel s.pool.current = some r ∧ Found malloc s size r := by
  have hpos := hs.pos
  have hstart : WalkAt malloc s size (s.mallocs - 1) s.pool.current :=
    ⟨by omega, hs.current, fun j hj hj' => by omega⟩
  exact loop_of_variant (fun _ _ _ h hb => h.again hs hb) (fun _ _ _ h hb => h.leave hm hs hb)
    hstart (by omega)

/-- `mp_alloc` returns, with one of the effects. -/
theorem mpAlloc_spec (hm : MallocOk malloc max) (hs : Shape malloc max s) {fuel : ℕ}
    (hfuel : s.mallocs ≤ fuel) (size : ℕ) :
    ∃ s' ptr, mpAlloc malloc fuel s size = some (s', ptr) ∧
      AllocEffect malloc s size s' ptr := by
  obtain ⟨r, hloop, hfound⟩ := find_spec hm hs hfuel size
  unfold mpAlloc
  rw [hloop]
  cases r with
  | some p =>
    obtain ⟨k, hk, rfl, hfit⟩ := hfound
    exact ⟨_, _, rfl, .reuse k hk hfit⟩
  | none =>
    refine ⟨_, _, rfl, ?_⟩
    -- The new header is written in two steps, the second of which is the bump.
    simpa [bump, newNode, MpNode.advance] using AllocEffect.fresh hfound

/-- The pool of `mp_init` has one page with nothing handed out. -/
theorem shape_mpInit (memory : ℕ → MpNode) (hmax : sizeofNode ≤ max) :
    Shape malloc max (mpInit malloc memory max) := by
  refine ⟨Nat.one_pos, rfl, rfl, rfl, by simp [mpInit], fun k hk => ?_, fun k hk => ?_,
    fun k hk => ?_, fun k hk => ?_⟩
  · exact absurd hk (by simp [mpInit])
  all_goals
    obtain rfl : k = 0 := Nat.lt_one_iff.mp hk
    simp [mpInit]
  exact hmax

/-- `mp_alloc` keeps the shape. -/
theorem Shape.alloc (hm : MallocOk malloc max) (hmax : sizeofNode ≤ max)
    (hsize : size ≤ max - sizeofNode) (hs : Shape malloc max s)
    (h : AllocEffect malloc s size s' ptr) : Shape malloc max s' := by
  cases h with
  | reuse k hk hfit =>
    unfold Fits at hfit
    rw [hs.end k hk] at hfit
    -- Only `free_ptr` of one page moves, and it stays within that page.
    have hnode : ∀ j, update s.node (malloc k) ((s.node (malloc k)).advance size) (malloc j) =
        if j = k then (s.node (malloc k)).advance size else s.node (malloc j) := by
      intro j
      split
      case isTrue hjk => rw [hjk, Function.update_self]
      case isFalse hjk => rw [Function.update_of_ne (hm.ne hmax hjk)]
    refine ⟨hs.pos, hs.size, hs.first, hs.current, ?_, fun j hj => ?_, fun j hj => ?_,
      fun j hj => ?_, fun j hj => ?_⟩
    all_goals
      dsimp only
      rw [hnode]
      split
    · next h0 => rw [← h0]; exact hs.last
    · exact hs.last
    · next hjk => rw [← hjk]; exact hs.next j hj
    · exact hs.next j hj
    · next hjk => rw [hjk]; exact hs.end k hk
    · exact hs.end j hj
    · next hjk =>
        rw [hjk]
        exact le_trans (hs.header k hk) (Nat.le_add_right _ _)
    · exact hs.header j hj
    · next hjk => rw [hjk]; exact hfit
    · exact hs.room j hj
  | fresh hfull =>
    have hpos := hs.pos
    -- The old headers stand at other addresses than the new one.
    have hold : ∀ j < s.mallocs, ∀ nd, update s.node (malloc s.mallocs) nd (malloc j) =
        s.node (malloc j) := by
      intro j hj nd
      rw [Function.update_of_ne (hm.ne hmax (by omega))]
    refine ⟨Nat.succ_pos _, hs.size, hs.first, rfl, ?_, fun j hj => ?_, fun j hj => ?_,
      fun j hj => ?_, fun j hj => ?_⟩
    · dsimp only
      rw [hold 0 hpos]
      exact hs.last
    all_goals dsimp only at hj ⊢
    · rcases Nat.lt_or_ge (j + 1) s.mallocs with hlt | hge
      · rw [hold (j + 1) hlt]
        exact hs.next j hlt
      · have hj' : s.mallocs = j + 1 := by omega
        rw [hj', Function.update_self, hs.current, hj']
        rfl
    · rcases Nat.lt_or_ge j s.mallocs with hlt | hge
      · rw [hold j hlt]
        exact hs.end j hlt
      · have hj' : s.mallocs = j := by omega
        rw [hj', Function.update_self, hs.size]
    · rcases Nat.lt_or_ge j s.mallocs with hlt | hge
      · rw [hold j hlt]
        exact hs.header j hlt
      · have hj' : s.mallocs = j := by omega
        rw [hj', Function.update_self]
        exact Nat.le_add_right _ _
    · rcases Nat.lt_or_ge j s.mallocs with hlt | hge
      · rw [hold j hlt]
        exact hs.room j hlt
      · have hj' : s.mallocs = j := by omega
        rw [hj', Function.update_self]
        show malloc j + sizeofNode + size ≤ malloc j + max
        omega

end CPStudy.MemPool.PagePool
