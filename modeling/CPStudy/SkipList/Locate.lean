import CPStudy.SkipList.Search

/-!
# Finding the place of a key

The thread that inserts keeps `prev_` so that it need not search: `Cached` is what the array holds
between two insertions, `Placed` what it holds during one. Both paths by which `Insert` begins, the
search and the fast path without one, come to `Placed`, and with the same nodes.
-/

namespace CPStudy.SkipList

open Lib

variable {Key β : Type} [LinearOrder β] {cmp : Comparator Key β} {s s' : State Key}
  {key : Key} {n x y : Node} {i height : ℕ} {a : Act Key} {draws : ℕ → ℕ}

namespace State

/-! ## The invariant -/

/-- The array holds the last node before the rank at each level. -/
def Placed (cmp : Comparator Key β) (s : State Key) (prev : ℕ → Node) (k : Rank β) : Prop :=
  ∀ i < s.mem.max_height, IsPrev (s.mem.rank cmp) (s.level i) (prev i) k

/-- No node that is linked in has a key that compares equal. -/
def Absent (cmp : Comparator Key β) (s : State Key) (key : Key) : Prop :=
  ∀ n ∈ s.level 0, s.mem.rank cmp n ≠ cmp.above key

/-- What `prev_` and `prev_height_` hold between two insertions. -/
inductive Cached (cmp : Comparator Key β) (s : State Key) : Prop
  /-- Nothing was inserted yet. -/
  | empty (hprev : s.prev 0 = head_) (hheight : s.prev_height = 1) (hmax : s.mem.max_height = 1)
      (hnone : ∀ n ∈ s.level 0, n = head_)
  /-- `prev_[0]` was inserted last, and the others are the last nodes before it. -/
  | last (hhead : s.prev 0 ≠ head_) (hmem : s.prev 0 ∈ s.level 0)
      (hheight : s.mem.height (s.prev 0) = s.prev_height)
      (hprev : ∀ i, 1 ≤ i → i < s.mem.max_height →
        IsPrev (s.mem.rank cmp) (s.level i) (s.prev i) (s.mem.rank cmp (s.prev 0)))

/-- The node `x` is linked in up to below the level `i`. -/
structure Linking (cmp : Comparator Key β) (s : State Key) (x : Node) (height i : ℕ) : Prop where
  /-- It is not `head_`. -/
  ne_head : x ≠ head_
  /-- It was allocated. -/
  lt_count : x < s.count
  /-- It has that height. -/
  height_eq : s.mem.height x = height
  /-- It has a link for the level. -/
  lt_height : i < height
  /-- The height of the list is at least that of the node. -/
  height_le : height ≤ s.mem.max_height
  /-- It has a key. -/
  keyed : ∃ k, s.mem.key x = some k
  /-- `prev_` holds what it goes behind. -/
  placed : s.Placed cmp s.prev (s.mem.rank cmp x)
  /-- Its key is not in the list otherwise. -/
  alone : ∀ n ∈ s.level 0, s.mem.rank cmp n = s.mem.rank cmp x → n = x

/-- What holds where the thread that inserts stands. -/
def Place (cmp : Comparator Key β) (s : State Key) : Prop :=
  match s.pc with
  | .idle => s.Cached cmp
  | .located key => s.Placed cmp s.prev (cmp.above key) ∧ s.Absent cmp key
  | .sized key height => s.Placed cmp s.prev (cmp.above key) ∧ s.Absent cmp key ∧
      0 < height ∧ height ≤ s.mem.max_height
  | .fill x height i => s.Linking cmp x height i
  | .publish x height i => s.Linking cmp x height i ∧
      s.mem.next_ x i = s.mem.next_ (s.prev i) i

/-- The invariant of the list and of the thread that inserts. -/
structure Sound (cmp : Comparator Key β) (s : State Key) : Prop where
  /-- The levels are linked in order. -/
  shape : s.Shape cmp
  /-- What holds where the thread stands. -/
  place : s.Place cmp

/-! ## Finding the place -/

/-- The nodes of an array of predecessors are the only ones. -/
theorem Placed.unique (h : s.Shape cmp) {p q : ℕ → Node} {k : Rank β} (hp : s.Placed cmp p k)
    (hq : s.Placed cmp q k) (hi : i < s.mem.max_height) : p i = q i :=
  (hp i hi).unique (h.threaded i (hi.trans_le h.max_height_le)).inj (hq i hi)

/-- The predecessors of one more level are found. -/
theorem placed_update {p : ℕ → Node} {k : Rank β}
    (hp : ∀ j, i < j → j < s.mem.max_height → IsPrev (s.mem.rank cmp) (s.level j) (p j) k)
    (hx : IsPrev (s.mem.rank cmp) (s.level i) x k) :
    ∀ j, i ≤ j → j < s.mem.max_height →
      IsPrev (s.mem.rank cmp) (s.level j) (Function.update p i x j) k := by
  intro j hij hj
  by_cases heq : j = i
  · rw [heq, Function.update_self]
    exact hx
  · rw [Function.update_of_ne heq]
    exact hp j (by omega) hj

/-- `FindLessThan` finds the last node before the key at every level. -/
theorem Shape.searchLessThan (h : s.Shape cmp) (key : Key) (prev : ℕ → Node) :
    ∃ p, s.searchLessThan cmp key (some prev) = some (p 0, some p) ∧
      s.Placed cmp p (cmp.above key) := by
  -- The levels above the present one have their predecessors.
  let I : ℕ → Cursor × Option (ℕ → Node) → Prop := fun n c =>
    Before cmp s (cmp.above key) c.1 ∧ work cmp s (cmp.above key) c.1 = n ∧ ∃ p, c.2 = some p ∧
      ∀ j, c.1.level < j → j < s.mem.max_height →
        IsPrev (s.mem.rank cmp) (s.level j) (p j) (cmp.above key)
  let Q : Node × Option (ℕ → Node) → Prop := fun r =>
    ∃ p, r = (p 0, some p) ∧ s.Placed cmp p (cmp.above key)
  obtain ⟨_, hr, p, rfl, hp⟩ : ∃ r, s.searchLessThan cmp key (some prev) = some r ∧ Q r := by
    refine search_of_variant (I := I) ?_ ?_ ?_
      ⟨Before.start h h.max_height_le (rank_head_lt _ _), rfl, prev, rfl, fun j hj hlt => ?_⟩ ?_
    · rintro n ⟨c, q⟩ ⟨hc, -, -⟩
      rcases h.findLessThan_turn hc q with
        ⟨c', hturn, -, -⟩ | ⟨x, -, ⟨-, c', hturn, -, -⟩ | ⟨-, hturn⟩⟩
      · exact ⟨_, hturn⟩
      · exact ⟨_, hturn⟩
      · exact ⟨_, hturn⟩
    · rintro n ⟨c, q⟩ ⟨c₁, q₁⟩ ⟨hc, rfl, p, rfl, hp⟩ hbody
      rcases h.findLessThan_turn hc (some p) with
        ⟨c', hturn, hgo, hlevel⟩ | ⟨x, hx, ⟨hne, c', hturn, hgo, hlevel⟩ | ⟨-, hturn⟩⟩
      · cases hturn.symm.trans hbody
        refine ⟨_, hgo.work_lt h h (.refl s) hc, hgo.before hc, rfl, p, rfl, fun j hj => ?_⟩
        exact hp j (by rwa [hlevel] at hj)
      · cases hturn.symm.trans hbody
        refine ⟨_, hgo.work_lt h h (.refl s) hc, hgo.before hc, rfl,
          Function.update p c.level x, rfl, fun j hj => placed_update hp hx j ?_⟩
        dsimp only at hj hlevel hne ⊢
        omega
      · cases hturn.symm.trans hbody
    · rintro n ⟨c, q⟩ r ⟨hc, -, p, rfl, hp⟩ hbody
      rcases h.findLessThan_turn hc (some p) with
        ⟨c', hturn, -, -⟩ | ⟨x, hx, ⟨-, c', hturn, -, -⟩ | ⟨hlevel, hturn⟩⟩
      · cases hturn.symm.trans hbody
      · cases hturn.symm.trans hbody
      · cases hturn.symm.trans hbody
        have hat : Function.update p c.level x 0 = x := by
          rw [← hlevel]
          exact Function.update_self ..
        refine ⟨Function.update p c.level x, by rw [hat]; rfl, fun j => placed_update hp hx j ?_⟩
        exact hlevel.trans_le (Nat.zero_le j)
    · -- The levels above the first one that is searched do not exist.
      simp only [Cursor.start, Memory.getMaxHeight] at hj
      omega
    · have hcard := h.between_card_le (x := head_) (r := cmp.above key)
      have hpos := h.max_height_pos
      simp only [work, Cursor.start, Memory.getMaxHeight, Option.getD_some]
      omega
  exact ⟨p, hr, hp⟩

/-- Between two insertions every node is linked in as high as it is. -/
theorem linked_of_idle (hpc : s.pc = .idle) (n : Node) : s.linked n = s.mem.height n := by
  rw [linked, hpc]

/-- `prev_[0]` is linked in. -/
theorem Cached.prev_mem (h : s.Shape cmp) (hc : s.Cached cmp) : s.prev 0 ∈ s.level 0 := by
  cases hc with
  | empty hprev => exact hprev ▸ h.head_mem h.kMaxHeight_pos
  | last _ hmem => exact hmem

/-- The fast path: where it is taken, its assertion holds and it finds what `FindLessThan` would
find. -/
theorem Shape.fastPath (h : s.Shape cmp) (hpc : s.pc = .idle) (hc : s.Cached cmp) (key : Key) :
    ∃ fast, s.fastPath cmp key = some fast ∧ (fast = true →
      (s.prev 0 ≠ head_ ∨ (s.prev_height = 1 ∧ s.mem.getMaxHeight = 1)) ∧
      s.prev_height ≤ s.mem.kMaxHeight ∧ s.Placed cmp s.fastPrev (cmp.above key)) := by
  obtain ⟨o, hload, hnext⟩ := h.next (hc.prev_mem h)
  have hfirst : s.fastPrev 0 = s.prev 0 := if_neg fun hi => absurd hi.1 (by decide)
  -- What the two comparisons say.
  obtain ⟨after, hafter, hbigger⟩ : ∃ after, s.mem.keyIsAfterNode cmp key o = some after ∧
      (after = false → ∀ y ∈ o, cmp.above key ≤ s.mem.rank cmp y) := by
    cases o with
    | none => exact ⟨false, rfl, fun _ y hy => by cases hy⟩
    | some y =>
      refine ⟨_, h.keyIsAfterNode hnext.1 (ne_head_of_lt hnext.2.1), fun hfalse y' hy' => ?_⟩
      cases hy'
      exact not_lt.mp (of_decide_eq_false hfalse)
  cases hval : after with
  | true =>
    refine ⟨false, ?_, nofun⟩
    simp only [State.fastPath, hload, hafter, hval, Option.bind_eq_bind, Option.bind_some, if_true,
      Option.pure_def]
  | false =>
    have hbigger := hbigger hval
    cases hc with
    | empty hprev hheight hmax hnone =>
      refine ⟨true, ?_, fun _ => ⟨Or.inr ⟨hheight, hmax⟩, ?_, ?_⟩⟩
      · simp only [State.fastPath, hload, hafter, hval, Option.bind_eq_bind, Option.bind_some,
          Bool.false_eq_true, if_false, if_pos hprev, Option.pure_def]
      · exact hheight.trans_le h.kMaxHeight_pos
      · -- There is one level, and in it `head_` alone.
        intro i hi
        obtain rfl : i = 0 := by omega
        rw [hfirst]
        refine hnext.isPrev (Cached.prev_mem h (.empty hprev hheight hmax hnone)) ?_ hbigger
        rw [hprev]
        exact rank_head_lt _ _
    | last hhead hmem hheight hprev =>
      refine ⟨decide (s.mem.rank cmp (s.prev 0) < cmp.above key), ?_, fun hfast => ?_⟩
      · simp only [State.fastPath, hload, hafter, hval, Option.bind_eq_bind, Option.bind_some,
          Bool.false_eq_true, if_false, if_neg hhead]
        exact h.keyIsAfterNode hmem hhead
      · have hlt := of_decide_eq_true hfast
        have hlinked : s.linked (s.prev 0) = s.prev_height :=
          (linked_of_idle hpc _).trans hheight
        have hle : s.prev_height ≤ s.mem.max_height := hlinked ▸ h.linked_le _ hhead
        have hzero := hnext.isPrev hmem hlt hbigger
        refine ⟨Or.inl hhead, hle.trans h.max_height_le, fun i hi => ?_⟩
        unfold fastPrev
        split
        case isTrue hlow =>
          -- Up to its height the node inserted last is the predecessor.
          exact hzero.anti (level_anti (Nat.zero_le i)) (by rw [mem_level, hlinked]; exact hlow.2)
        case isFalse hhigh =>
          rcases Nat.eq_zero_or_pos i with rfl | hpos
          · exact hzero
          · -- Above its height its own predecessor is, since nothing came between.
            have hp := hprev i hpos hi
            refine ⟨hp.mem, hp.lt.trans hlt, fun n hn hpn => ?_⟩
            have hn0 : n ∈ s.level 0 := level_anti (Nat.zero_le i) hn
            have hne : s.mem.rank cmp n ≠ s.mem.rank cmp (s.prev 0) := by
              intro heq
              have hsame := (h.threaded 0 h.kMaxHeight_pos).inj hn0 hmem heq
              rw [mem_level, hsame, hlinked] at hn
              omega
            exact hzero.gap n hn0 (lt_of_le_of_ne (hp.gap n hn hpn) hne.symm)

/-- The beginning of `Insert` finds the last node before the key at every level. -/
theorem Shape.locate (h : s.Shape cmp) (hpc : s.pc = .idle) (hc : s.Cached cmp) (key : Key) :
    ∃ prev, s.locate cmp key = some prev ∧ s.Placed cmp prev (cmp.above key) := by
  obtain ⟨fast, hfast, hthen⟩ := h.fastPath hpc hc key
  cases hval : fast with
  | true =>
    obtain ⟨hassert, hle, hplaced⟩ := hthen hval
    refine ⟨s.fastPrev, ?_, hplaced⟩
    simp only [State.locate, hfast, hval, Option.bind_eq_bind, Option.bind_some, if_true,
      decide_eq_true hassert, assert_true, if_pos hle]
  | false =>
    obtain ⟨p, hp, hplaced⟩ := h.searchLessThan key s.prev
    refine ⟨p, ?_, hplaced⟩
    simp only [State.locate, hfast, hval, Option.bind_eq_bind, Option.bind_some,
      Bool.false_eq_true, if_false, hp]

/-- `prev_[0]` leads to no node of the key. -/
theorem Shape.notDuplicate (h : s.Shape cmp) (habsent : s.Absent cmp key) {prev : ℕ → Node}
    (hprev : s.Placed cmp prev (cmp.above key)) : s.notDuplicate cmp key prev = some true := by
  obtain ⟨o, hload, hnext⟩ := h.next (hprev 0 h.max_height_pos).mem
  simp only [State.notDuplicate, hload, Option.bind_eq_bind, Option.bind_some]
  cases o with
  | none => rfl
  | some y =>
    obtain ⟨k, hk, hrank⟩ := h.exists_key hnext.1 (ne_head_of_lt hnext.2.1)
    have hne : cmp.compare_ key k ≠ 0 := fun heq =>
      habsent y hnext.1 (hrank.trans (cmp.eq_iff_above.mp heq).symm)
    simp only [hk, Option.bind_some, decide_eq_true hne, Option.pure_def]

end State

end CPStudy.SkipList
