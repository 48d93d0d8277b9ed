import CPStudy.SkipList.Locate

/-!
# Insertion

`Effect` is what the steps of the thread that inserts do, `Sound` the invariant that they keep, and
`Sound.exists_step` says that no step of it fails: no assertion, no link that holds nothing yet, no
array outside its bounds. `Grows` holds from each state to every later one.
-/

namespace CPStudy.SkipList

open Lib

variable {Key β : Type} [LinearOrder β] {cmp : Comparator Key β} {s s' : State Key}
  {key : Key} {n x y : Node} {i height : ℕ} {a : Act Key} {draws : ℕ → ℕ}

/-! ## The steps -/

/-- `RandomHeight` gives a height within the bound, whatever the random numbers are. -/
theorem randomHeightFrom_le (scaled : ℕ) (draws : ℕ → ℕ) (h room : ℕ) :
    h ≤ randomHeightFrom scaled draws h room ∧ randomHeightFrom scaled draws h room ≤ h + room := by
  induction room generalizing h with
  | zero => exact ⟨le_rfl, le_rfl⟩
  | succ room ih =>
    rw [randomHeightFrom]
    split
    case isTrue =>
      obtain ⟨hlow, hhigh⟩ := ih (h + 1)
      omega
    case isFalse => omega

/-- `RandomHeight` gives a height from one to the bound. -/
theorem randomHeight_mem {kMaxHeight : ℕ} (hpos : 0 < kMaxHeight) (scaled : ℕ) (draws : ℕ → ℕ) :
    0 < randomHeight kMaxHeight scaled draws ∧
      randomHeight kMaxHeight scaled draws ≤ kMaxHeight := by
  obtain ⟨hlow, hhigh⟩ := randomHeightFrom_le scaled draws 1 (kMaxHeight - 1)
  rw [randomHeight]
  omega

/-- A store to a link. -/
theorem Memory.setNext_eq_some {m m' : Memory Key} {o : Option Node}
    (h : m.setNext x i o = some m') :
    m' = { m with next_ := Function.update m.next_ x (Function.update (m.next_ x) i (some o)) } :=
  (Option.some.inj (Option.ite_none_right_eq_some.mp h).2).symm

/-- The links after a store: the one at that node and level is new. -/
theorem Memory.setNext_next_ {m m' : Memory Key} {o : Option Node} (h : m.setNext x i o = some m')
    (j : ℕ) : (fun n => m'.next_ n j) =
      if j = i then Function.update (fun n => m.next_ n j) x (some o)
      else fun n => m.next_ n j := by
  obtain rfl := Memory.setNext_eq_some h
  funext n
  by_cases hn : n = x
  · subst hn
    by_cases hj : j = i
    · subst hj
      simp only [Function.update_self, if_true]
    · simp only [Function.update_self, Function.update_of_ne hj, if_neg hj]
  · split <;> simp only [Function.update_of_ne hn]

namespace State

/-- What a step of the thread that inserts does. -/
inductive Effect (cmp : Comparator Key β) (s : State Key) : Act Key → State Key → Prop
  /-- It finds the predecessors of a key. -/
  | locate {key : Key} {prev : ℕ → Node} (hpc : s.pc = .idle)
      (hloc : s.locate cmp key = some prev) :
      Effect cmp s (.insert key) { s with prev := prev, pc := .located key }
  /-- It chooses a height above that of the list. -/
  | raise {key : Key} {draws : ℕ → ℕ} {height : ℕ} (hpc : s.pc = .located key)
      (hle : height ≤ s.mem.kMaxHeight) (hlt : s.mem.max_height < height) :
      Effect cmp s (.randomHeight draws)
        { s with
          prev := fun i => if s.mem.max_height ≤ i ∧ i < height then head_ else s.prev i
          mem := { s.mem with max_height := height }
          pc := .sized key height }
  /-- It chooses a height within that of the list. -/
  | keep {key : Key} {draws : ℕ → ℕ} {height : ℕ} (hpc : s.pc = .located key) (hpos : 0 < height)
      (hle : height ≤ s.mem.max_height) :
      Effect cmp s (.randomHeight draws) { s with pc := .sized key height }
  /-- It allocates the node. -/
  | alloc {key : Key} {height : ℕ} (hpc : s.pc = .sized key height) :
      Effect cmp s .write
        { s with
          mem := s.mem.newNode s.count key height
          count := s.count + 1
          pc := .fill s.count height 0 }
  /-- It fills a link of the node. -/
  | fill {x : Node} {height i : ℕ} {next : Option Node} {mem : Memory Key}
      (hpc : s.pc = .fill x height i) (hload : s.mem.next (s.prev i) i = some next)
      (hset : s.mem.setNext x i next = some mem) :
      Effect cmp s .write { s with mem := mem, pc := .publish x height i }
  /-- It links the node in, and it has more levels. -/
  | link {x : Node} {height i : ℕ} {mem : Memory Key} (hpc : s.pc = .publish x height i)
      (hset : s.mem.setNext (s.prev i) i (some x) = some mem) (hlt : i + 1 < height) :
      Effect cmp s .write { s with mem := mem, pc := .fill x height (i + 1) }
  /-- It links the node in at its last level. -/
  | finish {x : Node} {height i : ℕ} {mem : Memory Key} (hpc : s.pc = .publish x height i)
      (hset : s.mem.setNext (s.prev i) i (some x) = some mem) (hlast : ¬ i + 1 < height) :
      Effect cmp s .write
        { s with
          mem := mem
          prev := Function.update s.prev 0 x
          prev_height := height
          pc := .idle }

/-- An assertion that holds. -/
theorem assert_eq_some {b : Option Bool} {u : Unit} (h : assert_ b = some u) : b = some true := by
  obtain ⟨v, rfl, hv⟩ := Option.bind_eq_some_iff.mp h
  rw [(Option.ite_none_right_eq_some.mp hv).1]

/-- Every step has one of the effects. -/
theorem effect_of_step (h : s.step cmp a = some s') : Effect cmp s a s' := by
  unfold step at h
  cases a with
  | insert key =>
    dsimp only at h
    split at h
    case h_2 => cases h
    case h_1 hpc =>
      simp only [Option.bind_eq_bind, Option.bind_eq_some_iff, Option.pure_def,
        Option.some.injEq] at h
      -- The predecessors are found, and the assertion that the key is not there holds.
      obtain ⟨prev, hloc, -, -, rfl⟩ := h
      exact .locate hpc hloc
  | randomHeight draws =>
    dsimp only at h
    split at h
    case h_2 => cases h
    case h_1 key hpc =>
      simp only [Option.bind_eq_bind, Option.bind_eq_some_iff, Option.pure_def] at h
      obtain ⟨_, hpos, _, hle, h⟩ := h
      -- The two assertions about the height.
      have hpos := of_decide_eq_true (Option.some.inj (assert_eq_some hpos))
      have hle := of_decide_eq_true (Option.some.inj (assert_eq_some hle))
      split at h
      case isTrue hlt =>
        cases h
        exact .raise hpc hle hlt
      case isFalse hlt =>
        cases h
        exact .keep hpc hpos (not_lt.mp hlt)
  | write =>
    dsimp only at h
    split at h
    case h_1 key height hpc =>
      cases h
      exact .alloc hpc
    -- `x->NoBarrier_SetNext(i, prev_[i]->NoBarrier_Next(i))`.
    case h_2 x height i hpc =>
      simp only [Option.bind_eq_bind, Option.bind_eq_some_iff, Option.pure_def,
        Option.some.injEq, prevAt, Option.ite_none_right_eq_some] at h
      obtain ⟨p, ⟨-, rfl⟩, next, hload, mem, hset, rfl⟩ := h
      exact .fill hpc hload hset
    -- `prev_[i]->SetNext(i, x)`, after which the loop goes on or ends.
    case h_3 x height i hpc =>
      simp only [Option.bind_eq_bind, Option.bind_eq_some_iff, Option.pure_def, prevAt,
        Option.ite_none_right_eq_some] at h
      obtain ⟨p, ⟨-, hp⟩, mem, hset, h⟩ := h
      obtain rfl := Option.some.inj hp
      split at h
      case isTrue hlt =>
        cases h
        exact .link hpc hset hlt
      case isFalse hlast =>
        cases h
        exact .finish hpc hset hlast
    case h_4 => cases h

/-! ## What a step keeps -/

/-- Where the levels stay as they are, and so does all that they look at, they stay in order. -/
theorem Shape.frame (h : s.Shape cmp) (hk : s'.mem.kMaxHeight = s.mem.kMaxHeight)
    (hcount : s.count ≤ s'.count) (hmax : s.mem.max_height ≤ s'.mem.max_height)
    (hle : s'.mem.max_height ≤ s.mem.kMaxHeight)
    (hun : ∀ n, s'.count ≤ n → s'.mem.height n = 0) (hlinked : ∀ n, s'.linked n = s.linked n)
    (hheight : ∀ n, s'.linked n ≤ s'.mem.height n)
    (hkey : ∀ n ∈ s.level 0, s'.mem.key n = s.mem.key n)
    (hnext : ∀ i, ∀ n ∈ s.level i, s'.mem.next_ n i = s.mem.next_ n i) : s'.Shape cmp := by
  have hlevel : ∀ i, s'.level i = s.level i := fun i => Set.ext fun n => by
    rw [mem_level, mem_level, hlinked]
  constructor
  case max_height_pos => exact h.max_height_pos.trans_le hmax
  case max_height_le => exact hle.trans_eq hk.symm
  case count_pos => exact h.count_pos.trans_le hcount
  case unallocated => exact hun
  case linked_head => rw [hlinked, hk, h.linked_head]
  case linked_le_height => exact hheight
  case linked_le => exact fun n hn => (hlinked n).trans_le ((h.linked_le n hn).trans hmax)
  case keyed =>
    intro n hn hhead
    rw [hlevel] at hn
    rw [hkey n hn]
    exact h.keyed n hn hhead
  case threaded =>
    intro i hi
    rw [hlevel]
    refine (h.threaded i (hk ▸ hi)).congr (fun n hn => ?_) fun n hn => hnext i n hn
    rw [Memory.rank, Memory.rank, hkey n (level_anti (Nat.zero_le i) hn)]

/-- Where the levels and the keys stay as they are, so do the predecessors. -/
theorem Placed.frame {prev : ℕ → Node} {k : Rank β} (hp : s.Placed cmp prev k)
    (hmax : s'.mem.max_height = s.mem.max_height) (hlinked : ∀ n, s'.linked n = s.linked n)
    (hkey : ∀ n ∈ s.level 0, s'.mem.key n = s.mem.key n) : s'.Placed cmp prev k := by
  intro i hi
  have hlevel : s'.level i = s.level i := Set.ext fun n => by
    rw [mem_level, mem_level, hlinked]
  rw [hlevel]
  refine (hp i (hmax ▸ hi)).congr fun n hn => ?_
  rw [Memory.rank, Memory.rank, hkey n (level_anti (Nat.zero_le i) hn)]

/-- The levels when one node is linked in at one more. -/
theorem level_link (hlinked : ∀ n, s'.linked n = if n = x then i + 1 else s.linked n)
    (hx : s.linked x = i) (j : ℕ) :
    s'.level j = if j = i then insert x (s.level i) else s.level j := by
  ext n
  rw [mem_level, hlinked]
  by_cases hn : n = x
  · subst hn
    rw [if_pos rfl]
    split
    case isTrue heq => exact ⟨fun _ => Set.mem_insert _ _, fun _ => by omega⟩
    case isFalse hne =>
      rw [mem_level, hx]
      omega
  · rw [if_neg hn]
    split
    case isTrue heq =>
      rw [Set.mem_insert_iff, mem_level, heq]
      exact ⟨Or.inr, fun h => h.resolve_left hn⟩
    case isFalse hne => exact Iff.rfl

section Link

variable {mem : Memory Key} (hlink : s.Linking cmp x height i) (hx : s.linked x = i)
  (hset : s.mem.setNext (s.prev i) i (some x) = some mem) (hmem : s'.mem = mem)
  (hlinked : ∀ n, s'.linked n = if n = x then i + 1 else s.linked n)
include hlink hx hset hmem hlinked

/-- The new node is linked in at one more level, and the levels are in order again. -/
theorem Shape.link (h : s.Shape cmp) (hcount : s'.count = s.count)
    (hfill : s.mem.next_ x i = s.mem.next_ (s.prev i) i) : s'.Shape cmp := by
  have hnext := Memory.setNext_next_ hset
  have hlevel := level_link hlinked hx
  obtain rfl := Memory.setNext_eq_some hset
  have hrank : s'.mem.rank cmp = s.mem.rank cmp := by rw [hmem]; rfl
  have hi : i < s.mem.max_height := hlink.lt_height.trans_le hlink.height_le
  constructor
  case max_height_pos => rw [hmem]; exact h.max_height_pos
  case max_height_le => rw [hmem]; exact h.max_height_le
  case count_pos => rw [hcount]; exact h.count_pos
  case unallocated => rw [hmem, hcount]; exact h.unallocated
  case linked_head => rw [hlinked, if_neg hlink.ne_head.symm, hmem]; exact h.linked_head
  case linked_le_height =>
    intro n
    rw [hlinked, hmem]
    split
    case isTrue hn => rw [hn, hlink.height_eq]; exact hlink.lt_height
    case isFalse => exact h.linked_le_height n
  case linked_le =>
    intro n hn
    rw [hlinked, hmem]
    split
    case isTrue => exact hi
    case isFalse => exact h.linked_le n hn
  case keyed =>
    intro n hn hhead
    rw [hmem]
    by_cases hnx : n = x
    · exact hnx ▸ hlink.keyed
    · refine h.keyed n ?_ hhead
      rwa [mem_level, hlinked, if_neg hnx] at hn
  case threaded =>
    intro j hj
    rw [hmem] at hj
    rw [hlevel, hrank, hmem, hnext]
    by_cases hji : j = i
    · subst hji
      rw [if_pos rfl, if_pos rfl]
      refine (h.threaded j hj).splice (hlink.placed j hi) (fun n hn heq => ?_) hfill
      -- The new node is not yet at this level.
      obtain rfl := hlink.alone n (level_anti (Nat.zero_le j) hn) heq
      rw [mem_level, hx] at hn
      omega
    · rw [if_neg hji, if_neg hji]
      exact h.threaded j hj

/-- The new node goes behind the same nodes at the levels that are left. -/
theorem Linking.placed_link : s'.Placed cmp s.prev (s'.mem.rank cmp x) := by
  have hlevel := level_link hlinked hx
  obtain rfl := Memory.setNext_eq_some hset
  have hrank : s'.mem.rank cmp = s.mem.rank cmp := by rw [hmem]; rfl
  intro j hj
  rw [hmem] at hj
  rw [hrank, hlevel]
  have hp := hlink.placed j hj
  split
  case isTrue hji =>
    subst hji
    exact hp.grow le_rfl
  case isFalse => exact hp

end Link

/-- Where a step of `Insert` may be taken: the key is not in the list. -/
def Permits (cmp : Comparator Key β) (s : State Key) : Act Key → Prop
  | .insert key => s.Absent cmp key
  | _ => True

/-- The number of levels that the node being linked in is linked in at. -/
theorem linked_of_fill (hpc : s.pc = .fill x height i) : s.linked x = i := by
  rw [linked, hpc]
  exact if_pos rfl

/-- The number of levels that the node being linked in is linked in at. -/
theorem linked_of_publish (hpc : s.pc = .publish x height i) : s.linked x = i := by
  rw [linked, hpc]
  exact if_pos rfl

/-- The predecessors of the key are found. -/
theorem Sound.locate (h : s.Sound cmp) (hpc : s.pc = .idle) (habsent : s.Absent cmp key)
    {prev : ℕ → Node} (hloc : s.locate cmp key = some prev) :
    State.Sound cmp { s with prev := prev, pc := .located key } := by
  have hplace := h.place
  rw [Place, hpc] at hplace
  obtain ⟨prev', hloc', hplaced⟩ := h.shape.locate hpc hplace key
  obtain rfl : prev = prev' := Option.some.inj (hloc.symm.trans hloc')
  have hlinked : ∀ n, State.linked { s with prev := prev, pc := .located key } n = s.linked n :=
    fun n => (linked_of_idle hpc n).symm
  refine ⟨h.shape.frame rfl le_rfl le_rfl h.shape.max_height_le h.shape.unallocated hlinked
    (fun _ => le_rfl) (fun _ _ => rfl) (fun _ _ _ => rfl),
    hplaced.frame rfl hlinked fun _ _ => rfl, fun n hn => habsent n ?_⟩
  rwa [mem_level, hlinked] at hn

/-- The height of the list is raised: `head_` is before everything at a new level. -/
theorem Sound.raise (h : s.Sound cmp) (hpc : s.pc = .located key) (hle : height ≤ s.mem.kMaxHeight)
    (hlt : s.mem.max_height < height) :
    State.Sound cmp { s with
      prev := fun i => if s.mem.max_height ≤ i ∧ i < height then head_ else s.prev i
      mem := { s.mem with max_height := height }
      pc := .sized key height } := by
  have hplace := h.place
  rw [Place, hpc] at hplace
  obtain ⟨hplaced, habsent⟩ := hplace
  have hlinked : ∀ n, s.linked n = s.mem.height n := fun n => by rw [linked, hpc]
  refine ⟨h.shape.frame rfl le_rfl hlt.le hle h.shape.unallocated (fun n => (hlinked n).symm)
    (fun _ => le_rfl) (fun _ _ => rfl) (fun _ _ _ => rfl), fun i hi => ?_, fun n hn => ?_,
    Nat.zero_lt_of_lt hlt, le_rfl⟩
  · have hlevel : State.level { s with
        prev := fun i => if s.mem.max_height ≤ i ∧ i < height then head_ else s.prev i
        mem := { s.mem with max_height := height }
        pc := .sized key height } i = s.level i := Set.ext fun n => by
      rw [mem_level, mem_level, hlinked]
      rfl
    rw [hlevel]
    dsimp only
    split
    case isTrue hnew =>
      refine ⟨h.shape.head_mem (hi.trans_le hle), rank_head_lt _ _, fun n hn hlt => ?_⟩
      rw [h.shape.eq_head hn hnew.1] at hlt
      exact absurd hlt (lt_irrefl _)
    case isFalse hold => exact hplaced i (by dsimp only at hi; omega)
  · exact habsent n (by rw [mem_level, hlinked]; exact hn)

/-- The height of the node is within that of the list. -/
theorem Sound.keep (h : s.Sound cmp) (hpc : s.pc = .located key) (hpos : 0 < height)
    (hle : height ≤ s.mem.max_height) :
    State.Sound cmp { s with pc := .sized key height } := by
  have hplace := h.place
  rw [Place, hpc] at hplace
  obtain ⟨hplaced, habsent⟩ := hplace
  have hlinked : ∀ n, State.linked { s with pc := .sized key height } n = s.linked n := fun n => by
    rw [linked, linked, hpc]
  refine ⟨h.shape.frame rfl le_rfl le_rfl h.shape.max_height_le h.shape.unallocated hlinked
    (fun n => ?_) (fun _ _ => rfl) (fun _ _ _ => rfl), hplaced.frame rfl hlinked fun _ _ => rfl,
    fun n hn => habsent n ?_, hpos, hle⟩
  · exact le_rfl
  · rwa [mem_level, hlinked] at hn

/-- The node is allocated, and linked in nowhere. -/
theorem Sound.alloc (h : s.Sound cmp) (hpc : s.pc = .sized key height) :
    State.Sound cmp { s with
      mem := s.mem.newNode s.count key height
      count := s.count + 1
      pc := .fill s.count height 0 } := by
  have hplace := h.place
  rw [Place, hpc] at hplace
  obtain ⟨hplaced, habsent, hpos, hle⟩ := hplace
  set s' : State Key := { s with
    mem := s.mem.newNode s.count key height
    count := s.count + 1
    pc := .fill s.count height 0 } with hs'
  -- The new node is on no level, so that what the levels look at is as before.
  have hne : ∀ i, ∀ n ∈ s.level i, n ≠ s.count := fun i n hn => (h.shape.lt_count hn).ne
  have hhead : s.count ≠ head_ := h.shape.count_pos.ne'
  have hlinked : ∀ n, s'.linked n = s.linked n := by
    intro n
    have hold : s.linked n = s.mem.height n := by rw [linked, hpc]
    rw [hold]
    by_cases hn : n = s.count
    · have hnew : s'.linked s.count = 0 :=
        linked_of_fill (show s'.pc = .fill s.count height 0 from rfl)
      rw [hn, hnew, h.shape.unallocated _ le_rfl]
    · simp only [linked, hs', if_neg hn, Memory.newNode, Function.update_of_ne hn]
  have hkey : ∀ n ∈ s.level 0, s'.mem.key n = s.mem.key n := fun n hn => by
    simp only [hs', Memory.newNode, Function.update_of_ne (hne 0 n hn)]
  have hnew : s'.mem.key s.count = some key := Function.update_self ..
  have hrank : s'.mem.rank cmp s.count = cmp.above key := rank_of_key hhead hnew
  refine ⟨h.shape.frame rfl (Nat.le_succ _) le_rfl h.shape.max_height_le ?_ hlinked ?_ hkey ?_,
    hhead, Nat.lt_succ_self _, Function.update_self .., hpos, hle, ⟨key, hnew⟩, ?_, ?_⟩
  · intro n hn
    simp only [hs', Memory.newNode, Function.update_of_ne (show n ≠ s.count from ne_of_gt hn)]
    exact h.shape.unallocated n (Nat.le_of_succ_le hn)
  · intro n
    rw [hlinked]
    by_cases hn : n = s.count
    · have hzero := h.shape.linked_le_height n
      rw [hn, h.shape.unallocated _ le_rfl] at hzero
      rw [hn]
      omega
    · simp only [hs', Memory.newNode, Function.update_of_ne hn]
      exact h.shape.linked_le_height n
  · intro i n hn
    simp only [hs', Memory.newNode, Function.update_of_ne (hne i n hn)]
  · rw [hrank]
    exact hplaced.frame rfl hlinked hkey
  -- A node with the rank of the new one would have its key, which is absent.
  · intro n hn heq
    rw [mem_level, hlinked] at hn
    rw [hrank, Memory.rank, hkey n hn] at heq
    exact absurd heq (habsent n hn)

/-- A link of the node is filled, which nobody looks at yet. -/
theorem Sound.fill {next : Option Node} {mem : Memory Key} (h : s.Sound cmp)
    (hpc : s.pc = .fill x height i) (hload : s.mem.next (s.prev i) i = some next)
    (hset : s.mem.setNext x i next = some mem) :
    State.Sound cmp { s with mem := mem, pc := .publish x height i } := by
  have hplace := h.place
  rw [Place, hpc] at hplace
  have hlink : s.Linking cmp x height i := hplace
  have hnext := Memory.setNext_next_ hset
  obtain rfl := Memory.setNext_eq_some hset
  set mem' : Memory Key := { s.mem with
    next_ := Function.update s.mem.next_ x (Function.update (s.mem.next_ x) i (some next)) }
    with hmem
  have hlinked : ∀ n, State.linked { s with mem := mem', pc := .publish x height i } n =
      s.linked n := fun n => by rw [linked, linked, hpc]
  have hi : i < s.mem.max_height := hlink.lt_height.trans_le hlink.height_le
  have hprev := (hlink.placed i hi).mem
  -- The predecessor is at the level and the node is not, so they are different.
  have hx : x ≠ s.prev i := fun heq => by
    have hmem : i < s.linked x := heq ▸ hprev
    rw [linked_of_fill hpc] at hmem
    omega
  refine ⟨h.shape.frame rfl le_rfl le_rfl h.shape.max_height_le h.shape.unallocated hlinked
    (fun n => ?_) (fun _ _ => rfl) (fun j n hn => ?_), ⟨hlink.ne_head, hlink.lt_count,
    hlink.height_eq, hlink.lt_height, hlink.height_le, hlink.keyed,
    hlink.placed.frame rfl hlinked fun _ _ => rfl, fun n hn heq => hlink.alone n ?_ heq⟩, ?_⟩
  · rw [hlinked]
    exact h.shape.linked_le_height n
  · -- The new node is not at the level of the link.
    have hj := congrFun (hnext j) n
    dsimp only at hj ⊢
    rw [hj]
    split
    case isTrue hji =>
      refine Function.update_of_ne (fun hnx => ?_) _ _
      rw [hnx, mem_level, linked_of_fill hpc] at hn
      omega
    case isFalse => rfl
  · rwa [mem_level, hlinked] at hn
  -- The link now says what that of the predecessor says.
  · have hfill := hnext i
    rw [if_pos rfl] at hfill
    have hxi := congrFun hfill x
    have hpi := congrFun hfill (s.prev i)
    rw [Function.update_self] at hxi
    rw [Function.update_of_ne hx.symm] at hpi
    have hload := (Option.ite_none_right_eq_some.mp hload).2
    dsimp only at hxi hpi ⊢
    rw [hxi, hpi, hload]

/-- What is linked in when the node has been linked in at a level that is not its last. -/
theorem linked_of_link {mem : Memory Key} (hpc : s.pc = .publish x height i)
    (hset : s.mem.setNext (s.prev i) i (some x) = some mem) (n : Node) :
    State.linked { s with mem := mem, pc := .fill x height (i + 1) } n =
      if n = x then i + 1 else s.linked n := by
  obtain rfl := Memory.setNext_eq_some hset
  simp only [linked, hpc]
  split <;> rfl

/-- What is linked in when the node has been linked in at its last level. -/
theorem linked_of_finish {mem : Memory Key} (hpc : s.pc = .publish x height i)
    (hlink : s.Linking cmp x height i)
    (hset : s.mem.setNext (s.prev i) i (some x) = some mem) (hlast : ¬ i + 1 < height) (n : Node) :
    State.linked { s with
      mem := mem
      prev := Function.update s.prev 0 x
      prev_height := height
      pc := .idle } n = if n = x then i + 1 else s.linked n := by
  obtain rfl := Memory.setNext_eq_some hset
  simp only [linked, hpc]
  split
  case isTrue hn =>
    have hheight := hlink.height_eq
    have hlt := hlink.lt_height
    rw [hn]
    omega
  case isFalse => rfl

/-- The node is linked in at a level that is not its last. -/
theorem Sound.link {mem : Memory Key} (h : s.Sound cmp) (hpc : s.pc = .publish x height i)
    (hset : s.mem.setNext (s.prev i) i (some x) = some mem) (hlt : i + 1 < height) :
    State.Sound cmp { s with mem := mem, pc := .fill x height (i + 1) } := by
  have hplace := h.place
  rw [Place, hpc] at hplace
  obtain ⟨hlink, hfill⟩ := hplace
  have hx := linked_of_publish hpc
  have hlinked := linked_of_link hpc hset
  have hshape := h.shape.link hlink hx hset rfl hlinked rfl hfill
  have hplaced := hlink.placed_link hx hset rfl hlinked
  have hlevel := level_link hlinked hx 0
  obtain rfl := Memory.setNext_eq_some hset
  refine ⟨hshape, hlink.ne_head, hlink.lt_count, hlink.height_eq, hlt, hlink.height_le,
    hlink.keyed, hplaced, fun n hn heq => ?_⟩
  rw [hlevel] at hn
  split at hn
  case isTrue hi =>
    rcases Set.mem_insert_iff.mp hn with hnx | hn
    · exact hnx
    · exact hlink.alone n (hi ▸ hn) heq
  case isFalse => exact hlink.alone n hn heq

/-- The node is linked in at its last level, and is what `prev_[0]` holds from now on. -/
theorem Sound.finish {mem : Memory Key} (h : s.Sound cmp) (hpc : s.pc = .publish x height i)
    (hset : s.mem.setNext (s.prev i) i (some x) = some mem) (hlast : ¬ i + 1 < height) :
    State.Sound cmp { s with
      mem := mem
      prev := Function.update s.prev 0 x
      prev_height := height
      pc := .idle } := by
  have hplace := h.place
  rw [Place, hpc] at hplace
  obtain ⟨hlink, hfill⟩ := hplace
  have hx := linked_of_publish hpc
  set s' : State Key := { s with
    mem := mem, prev := Function.update s.prev 0 x, prev_height := height, pc := .idle } with hs'
  have hlinked : ∀ n, s'.linked n = if n = x then i + 1 else s.linked n :=
    linked_of_finish hpc hlink hset hlast
  have hshape : s'.Shape cmp := h.shape.link hlink hx hset rfl hlinked rfl hfill
  have hplaced : s'.Placed cmp s.prev (s'.mem.rank cmp x) := hlink.placed_link hx hset rfl hlinked
  obtain rfl := Memory.setNext_eq_some hset
  have hfirst : s'.prev 0 = x := by simp only [hs', Function.update_self]
  -- From the second level on the predecessors are still those that were found.
  refine ⟨hshape, .last ?_ ?_ ?_ ?_⟩
  · rw [hfirst]
    exact hlink.ne_head
  · rw [hfirst, mem_level, hlinked, if_pos rfl]
    omega
  · rw [hfirst]
    exact hlink.height_eq
  · intro j hj hlt
    rw [hfirst]
    have hprev : s'.prev j = s.prev j := Function.update_of_ne (Nat.one_le_iff_ne_zero.mp hj) _ _
    rw [hprev]
    exact hplaced j hlt

/-- Every step keeps the invariant. -/
theorem Sound.step (h : s.Sound cmp) (hok : s.Permits cmp a) (hstep : s.step cmp a = some s') :
    s'.Sound cmp := by
  cases effect_of_step hstep with
  | locate hpc hloc => exact h.locate hpc hok hloc
  | raise hpc hle hlt => exact h.raise hpc hle hlt
  | keep hpc hpos hle => exact h.keep hpc hpos hle
  | alloc hpc => exact h.alloc hpc
  | fill hpc hload hset => exact h.fill hpc hload hset
  | link hpc hset hlt => exact h.link hpc hset hlt
  | finish hpc hset hlast => exact h.finish hpc hset hlast

/-- Every step lets the list grow. -/
theorem Sound.grows (h : s.Sound cmp) (hstep : s.step cmp a = some s') : s.Grows s' := by
  have hplace := h.place
  rw [Place] at hplace
  cases effect_of_step hstep with
  | locate hpc hloc =>
    exact ⟨rfl, le_rfl, le_rfl, fun _ _ => rfl, fun n => (linked_of_idle hpc n).le⟩
  | raise hpc hle hlt =>
    exact ⟨rfl, le_rfl, hlt.le, fun _ _ => rfl, fun n => by rw [linked, hpc]; exact le_rfl⟩
  | keep hpc hpos hle =>
    exact ⟨rfl, le_rfl, le_rfl, fun _ _ => rfl, fun n => by rw [linked, hpc]; exact le_rfl⟩
  | alloc hpc =>
    refine ⟨rfl, Nat.le_succ _, le_rfl, fun n hn => ?_, fun n => ?_⟩
    · exact Function.update_of_ne hn.ne _ _
    · have hold : s.linked n = s.mem.height n := by rw [linked, hpc]
      rw [hold]
      by_cases hn : n = s.count
      · rw [hn, h.shape.unallocated _ le_rfl]
        exact Nat.zero_le _
      · simp only [linked, if_neg hn, Memory.newNode, Function.update_of_ne hn, le_refl]
  | fill hpc hload hset =>
    obtain rfl := Memory.setNext_eq_some hset
    exact ⟨rfl, le_rfl, le_rfl, fun _ _ => rfl, fun n => by rw [linked, linked, hpc]⟩
  | link hpc hset hlt =>
    obtain rfl := Memory.setNext_eq_some hset
    refine ⟨rfl, le_rfl, le_rfl, fun _ _ => rfl, fun n => ?_⟩
    simp only [linked, hpc]
    split
    case isTrue => exact Nat.le_succ _
    case isFalse => exact le_rfl
  | finish hpc hset hlast =>
    rw [hpc] at hplace
    obtain rfl := Memory.setNext_eq_some hset
    refine ⟨rfl, le_rfl, le_rfl, fun _ _ => rfl, fun n => ?_⟩
    simp only [linked, hpc]
    split
    -- The node is done: it is linked in at its whole height, which was its last level.
    case isTrue hn =>
      have hheight := hplace.1.height_eq
      have hlt := hplace.1.lt_height
      rw [hn]
      omega
    case isFalse => exact le_rfl

/-! ## No step fails -/

/-- The statement that the thread that inserts has come to. -/
def Ready (s : State Key) : Act Key → Prop
  | .insert _ => s.pc = .idle
  | .randomHeight _ => ∃ key, s.pc = .located key
  | .write => s.pc ≠ .idle ∧ ∀ key, s.pc ≠ .located key

/-- A store to a link that the node has. -/
theorem exists_setNext {m : Memory Key} (hi : i < m.height x) (o : Option Node) :
    ∃ m', m.setNext x i o = some m' := ⟨_, if_pos hi⟩

/-- No step of the thread that inserts fails. -/
theorem Sound.exists_step (h : s.Sound cmp) (hready : s.Ready a) (hok : s.Permits cmp a) :
    ∃ s', s.step cmp a = some s' := by
  have hplace := h.place
  rw [Place] at hplace
  cases a with
  | insert key =>
    have hpc : s.pc = .idle := hready
    rw [hpc] at hplace
    obtain ⟨prev, hloc, hplaced⟩ := h.shape.locate hpc hplace key
    -- The key is absent, so the assertion holds.
    have hdup := h.shape.notDuplicate hok hplaced
    simp only [State.step, hpc, hloc, hdup, Option.bind_eq_bind, Option.bind_some, assert_true,
      Option.pure_def, Option.some.injEq, exists_eq']
  | randomHeight draws =>
    obtain ⟨key, hpc⟩ := hready
    -- Both assertions hold of every height that `RandomHeight` can return.
    obtain ⟨hpos, hle⟩ :=
      randomHeight_mem h.shape.kMaxHeight_pos s.kScaledInverseBranching draws
    simp only [State.step, hpc, Option.bind_eq_bind, decide_eq_true hpos, decide_eq_true hle,
      assert_true, Option.bind_some, Option.pure_def]
    split
    case isTrue => exact ⟨_, rfl⟩
    case isFalse => exact ⟨_, rfl⟩
  | write =>
    cases hpc : s.pc with
    | idle => exact absurd hpc hready.1
    | located key => exact absurd hpc (hready.2 key)
    | sized key height => exact ⟨_, by rw [State.step, hpc]⟩
    | fill x height i =>
      rw [hpc] at hplace
      have hlink : s.Linking cmp x height i := hplace
      have hi : i < s.mem.max_height := hlink.lt_height.trans_le hlink.height_le
      obtain ⟨o, hload, -⟩ := h.shape.next (hlink.placed i hi).mem
      -- The node was allocated with the level, and the predecessor is linked in at it.
      have hbound : i < s.mem.height x := hlink.height_eq ▸ hlink.lt_height
      obtain ⟨mem, hset⟩ := exists_setNext hbound o
      simp only [State.step, hpc, prevAt, if_pos (hi.trans_le h.shape.max_height_le), hload, hset,
        Option.bind_eq_bind, Option.bind_some, Option.pure_def, Option.some.injEq, exists_eq']
    | publish x height i =>
      rw [hpc] at hplace
      obtain ⟨hlink, -⟩ := hplace
      have hi : i < s.mem.max_height := hlink.lt_height.trans_le hlink.height_le
      have hmem := (hlink.placed i hi).mem
      have hbound : i < s.mem.height (s.prev i) :=
        (mem_level.mp hmem).trans_le (h.shape.linked_le_height _)
      obtain ⟨mem, hset⟩ := exists_setNext hbound (some x)
      simp only [State.step, hpc, prevAt, if_pos (hi.trans_le h.shape.max_height_le), hset,
        Option.bind_eq_bind, Option.bind_some, Option.pure_def]
      split
      case isTrue => exact ⟨_, rfl⟩
      case isFalse => exact ⟨_, rfl⟩

end State

/-! ## Runs -/

/-- The constructor, taken apart. -/
theorem create_eq_some {zero : Key} {max_height branching_factor : ℤ}
    (h : create zero max_height branching_factor = some s) :
    0 < s.mem.kMaxHeight ∧ s.pc = .idle ∧ s.count = 1 ∧ s.mem.max_height = 1 ∧ s.prev_height = 1 ∧
      s.prev = (fun _ => head_) ∧
      s.mem.height = (fun n => if n = head_ then s.mem.kMaxHeight else 0) ∧
      s.mem.next_ = fun n i => if n = head_ ∧ i < s.mem.kMaxHeight then some none else none := by
  simp only [create, Option.ite_none_left_eq_some, Option.bind_eq_bind, Option.bind_eq_some_iff,
    Option.pure_def, Option.some.injEq] at h
  obtain ⟨-, _, hpos, -, -, -, -, rfl⟩ := h
  have hpos := of_decide_eq_true (Option.some.inj (State.assert_eq_some hpos))
  refine ⟨?_, rfl, rfl, rfl, rfl, rfl, rfl, rfl⟩
  dsimp only
  omega

/-- The empty list is sound. -/
theorem create_sound {zero : Key} {max_height branching_factor : ℤ}
    (h : create zero max_height branching_factor = some s) : s.Sound cmp := by
  obtain ⟨hpos, hpc, hcount, hmax, hheight, hprev, hheights, hnext⟩ := create_eq_some h
  have hlinked : ∀ n, s.linked n = if n = head_ then s.mem.kMaxHeight else 0 := fun n => by
    rw [State.linked_of_idle hpc, hheights]
  have hhead : ∀ i n, n ∈ s.level i → n = head_ := by
    intro i n hn
    rw [State.mem_level, hlinked] at hn
    by_contra hne
    rw [if_neg hne] at hn
    exact Nat.not_lt_zero _ hn
  refine ⟨⟨?_, ?_, ?_, ?_, ?_, ?_, ?_, ?_, ?_⟩, ?_⟩
  · omega
  · omega
  · omega
  · intro n hn
    have hne : n ≠ 0 := by omega
    rw [hheights]
    exact if_neg hne
  · rw [hlinked, if_pos rfl]
  · exact fun n => (State.linked_of_idle hpc n).le
  · intro n hn
    rw [hlinked, if_neg hn]
    exact Nat.zero_le _
  · exact fun n hn hne => absurd (hhead 0 n hn) hne
  -- Every level holds `head_` alone, and its link is `NULL`.
  · intro i hi
    refine ⟨fun a ha b hb _ => (hhead i a ha).trans (hhead i b hb).symm, fun x hx => ⟨none, ?_, ?_⟩⟩
    · rw [hhead i x hx, hnext]
      exact if_pos ⟨rfl, hi⟩
    · exact fun n hn => by rw [hhead i n hn, hhead i x hx]
  · rw [State.Place, hpc]
    exact .empty (by rw [hprev]) hheight hmax (hhead 0)

/-- The states that the list can come to. -/
def Reachable (cmp : Comparator Key β) (s : State Key) : Prop :=
  ∃ zero max_height branching_factor s₀, create zero max_height branching_factor = some s₀ ∧
    Reaches (State.step cmp) (State.Permits cmp) s₀ s

/-- The invariant holds in every state that the list can come to. -/
theorem Reachable.sound (h : Reachable cmp s) : s.Sound cmp := by
  obtain ⟨zero, max_height, branching_factor, s₀, hcreate, hrun⟩ := h
  exact hrun.invariant (create_sound hcreate) fun t a u ht hok hstep => ht.step hok hstep

/-- A run lets the list grow. -/
theorem State.Sound.grows_of_reaches (h : s.Sound cmp)
    (hrun : Reaches (State.step cmp) (State.Permits cmp) s s') : s'.Sound cmp ∧ s.Grows s' := by
  refine hrun.invariant (I := fun t => t.Sound cmp ∧ s.Grows t) ⟨h, .refl s⟩ ?_
  rintro t a u ⟨ht, hg⟩ hok hstep
  exact ⟨ht.step hok hstep, hg.trans (ht.grows hstep)⟩

end CPStudy.SkipList
