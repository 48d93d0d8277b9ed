import CPStudy.SkipList.Iterator
import Mathlib.Algebra.BigOperators.Ring.Finset
import Mathlib.Data.Nat.ModEq
import Mathlib.Tactic.Ring

/-!
# The estimate of the number of entries

`EstimateCount` counts the nodes that it goes over at each level, and takes each node that it goes
over at the level `i` for `kBranching_ ^ i` entries.
-/

namespace CPStudy.SkipList

open Lib State

variable {Key β : Type} [LinearOrder β] {cmp : Comparator Key β} {s : State Key} {key : Key}
  {n x y : Node} {i : ℕ}

namespace State

open Classical in
/-- The nodes of the level `i` before the key that `EstimateCount` goes over at that level: those
that are behind every node of the level above that is before the key. -/
noncomputable def walked (cmp : Comparator Key β) (s : State Key) (key : Key) (i : ℕ) :
    Finset Node :=
  (Finset.range s.count).filter fun n =>
    n ∈ s.level i ∧ n ≠ head_ ∧ s.mem.rank cmp n < cmp.above key ∧
      ∀ m ∈ s.level (i + 1), s.mem.rank cmp m < cmp.above key → s.mem.rank cmp m < s.mem.rank cmp n

open Classical in
/-- Those of them that it has gone over when it is at the node `x`. -/
noncomputable def walkedTo (cmp : Comparator Key β) (s : State Key) (key : Key) (i : ℕ) (x : Node) :
    Finset Node :=
  (walked cmp s key i).filter fun n => s.mem.rank cmp n ≤ s.mem.rank cmp x

/-- The estimate by the levels from `j` on: a node of the level `j + i` counts `kBranching_ ^ i`. -/
noncomputable def estimateFrom (cmp : Comparator Key β) (s : State Key) (key : Key) (j : ℕ) : ℕ :=
  ∑ i ∈ Finset.range (s.mem.max_height - j), s.mem.kBranching ^ i * (walked cmp s key (j + i)).card

/-- One more level: what the levels above count is taken `kBranching_` times. -/
theorem estimateFrom_eq {j : ℕ} (hj : j < s.mem.max_height) :
    estimateFrom cmp s key j =
      estimateFrom cmp s key (j + 1) * s.mem.kBranching + (walked cmp s key j).card := by
  have hsub : s.mem.max_height - j = s.mem.max_height - (j + 1) + 1 := by omega
  rw [estimateFrom, hsub, Finset.sum_range_succ', pow_zero, one_mul, Nat.add_zero, estimateFrom,
    Finset.sum_mul]
  congr 1
  refine Finset.sum_congr rfl fun i _ => ?_
  rw [pow_succ, show j + (i + 1) = j + 1 + i by omega]
  ring

/-- The nodes gone over, said through the levels. -/
theorem Shape.mem_walked (h : s.Shape cmp) : n ∈ walked cmp s key i ↔
    n ∈ s.level i ∧ n ≠ head_ ∧ s.mem.rank cmp n < cmp.above key ∧
      ∀ m ∈ s.level (i + 1), s.mem.rank cmp m < cmp.above key →
        s.mem.rank cmp m < s.mem.rank cmp n := by
  classical
  rw [walked, Finset.mem_filter, Finset.mem_range, and_iff_right_iff_imp]
  exact fun hn => h.lt_count hn.1

/-- The nodes gone over up to a node. -/
theorem mem_walkedTo : n ∈ walkedTo cmp s key i x ↔
    n ∈ walked cmp s key i ∧ s.mem.rank cmp n ≤ s.mem.rank cmp x := by
  classical
  rw [walkedTo, Finset.mem_filter]

/-- Nothing is gone over at `head_`. -/
theorem Shape.walkedTo_head (h : s.Shape cmp) : walkedTo cmp s key i head_ = ∅ := by
  refine Finset.eq_empty_of_forall_notMem fun n hn => ?_
  obtain ⟨hwalked, hle⟩ := mem_walkedTo.mp hn
  obtain ⟨hmem, hhead, -, -⟩ := h.mem_walked.mp hwalked
  obtain ⟨k, -, hrank⟩ := h.exists_key hmem hhead
  rw [hrank, rank_head] at hle
  exact absurd hle (not_le.mpr cmp.bot_lt_above)

/-- Nothing is gone over at a node of the level above. -/
theorem Shape.walkedTo_above (h : s.Shape cmp) (hx : x ∈ s.level (i + 1))
    (hlt : s.mem.rank cmp x < cmp.above key) : walkedTo cmp s key i x = ∅ := by
  refine Finset.eq_empty_of_forall_notMem fun n hn => ?_
  obtain ⟨hwalked, hle⟩ := mem_walkedTo.mp hn
  exact absurd ((h.mem_walked.mp hwalked).2.2.2 x hx hlt) (not_lt.mpr hle)

/-- Everything is gone over at the last node before the key. -/
theorem Shape.walkedTo_last (h : s.Shape cmp)
    (hx : IsPrev (s.mem.rank cmp) (s.level i) x (cmp.above key)) :
    walkedTo cmp s key i x = walked cmp s key i := by
  ext n
  rw [mem_walkedTo, and_iff_left_iff_imp]
  intro hn
  obtain ⟨hmem, -, hlt, -⟩ := h.mem_walked.mp hn
  exact hx.le hmem hlt

/-- One node more is gone over by a step to the next one. -/
theorem Shape.walkedTo_next (h : s.Shape cmp)
    (hnext : IsNext (s.mem.rank cmp) (s.level i) x (some y))
    (hlt : s.mem.rank cmp y < cmp.above key)
    (habove : ∀ m ∈ s.level (i + 1), s.mem.rank cmp m < cmp.above key →
      s.mem.rank cmp m ≤ s.mem.rank cmp x) :
    (walkedTo cmp s key i y).card = (walkedTo cmp s key i x).card + 1 := by
  obtain ⟨hy, hxy, hleast⟩ := hnext
  have hi := h.lt_kMaxHeight hy
  have hnot : y ∉ walkedTo cmp s key i x := fun hmem =>
    absurd (mem_walkedTo.mp hmem).2 (not_le.mpr hxy)
  have hinsert : walkedTo cmp s key i y = insert y (walkedTo cmp s key i x) := by
    ext n
    rw [Finset.mem_insert, mem_walkedTo, mem_walkedTo]
    constructor
    · rintro ⟨hn, hle⟩
      rcases le_or_gt (s.mem.rank cmp n) (s.mem.rank cmp x) with hnx | hxn
      · exact Or.inr ⟨hn, hnx⟩
      · have hmem := (h.mem_walked.mp hn).1
        exact Or.inl ((h.threaded i hi).inj hmem hy (le_antisymm hle (hleast n hmem hxn)))
    · rintro (rfl | ⟨hn, hle⟩)
      · exact ⟨h.mem_walked.mpr ⟨hy, ne_head_of_lt hxy, hlt, fun m hm hmk =>
          (habove m hm hmk).trans_lt hxy⟩, le_rfl⟩
      · exact ⟨hn, hle.trans hxy.le⟩
  rw [hinsert, Finset.card_insert_of_notMem hnot]

/-! ## The loop -/

/-- One turn of `EstimateCount`: it goes on to the next node and counts it; or it is at the last
node before the key at its level, and goes down or returns. -/
theorem Shape.estimateCount_turn (h : s.Shape cmp) {c : Cursor}
    (hc : Before cmp s (cmp.above key) c) (count : ℕ) :
    ∃ x, c.x = some x ∧ x ∈ s.level c.level ∧ s.mem.rank cmp x < cmp.above key ∧
      ((∃ y, IsNext (s.mem.rank cmp) (s.level c.level) x (some y) ∧
          s.mem.rank cmp y < cmp.above key ∧
          estimateCount cmp key s.mem (c, count) =
            some (.again ({ c with x := some y }, (count + 1) % 2 ^ 64))) ∨
        (IsPrev (s.mem.rank cmp) (s.level c.level) x (cmp.above key) ∧
          estimateCount cmp key s.mem (c, count) =
            if c.level = 0 then some (.leave count)
            else some (.again ({ c with level := c.level - 1 },
              count * s.mem.kBranching % 2 ^ 64)))) := by
  obtain ⟨x, hx, hmem, hlt⟩ := hc.at_
  obtain ⟨o, hload, hnext⟩ := h.next hmem
  refine ⟨x, hx, hmem, hlt, ?_⟩
  -- The comparison decides: `NULL` and a key not smaller stop the walk at this level.
  obtain ⟨stop, hstop, htrue, hfalse⟩ : ∃ stop, s.mem.notSmaller cmp key o = some stop ∧
      (stop = true → ∀ y ∈ o, cmp.above key ≤ s.mem.rank cmp y) ∧
      (stop = false → ∃ y, o = some y ∧ s.mem.rank cmp y < cmp.above key) := by
    cases o with
    | none => exact ⟨true, rfl, fun _ y hy => (by cases hy), nofun⟩
    | some y =>
      obtain ⟨k, hk, hrank⟩ := h.exists_key hnext.1 (ne_head_of_lt hnext.2.1)
      refine ⟨decide (0 ≤ cmp.compare_ k key), ?_, fun hstop y' hy' => ?_,
        fun hstop => ⟨y, rfl, ?_⟩⟩
      · simp only [Memory.notSmaller, hk, Option.map_some]
      · cases hy'
        refine hrank ▸ not_lt.mp fun hlt => ?_
        exact absurd (cmp.neg_iff_above.mpr hlt) (not_lt.mpr (of_decide_eq_true hstop))
      · exact hrank ▸ cmp.neg_iff_above.mp (not_le.mp (of_decide_eq_false hstop))
  have hturn : estimateCount cmp key s.mem (c, count) =
      if stop then
        if c.level = 0 then some (.leave count)
        else some (.again ({ c with level := c.level - 1 }, count * s.mem.kBranching % 2 ^ 64))
      else some (.again ({ c with x := o }, (count + 1) % 2 ^ 64)) := by
    simp only [estimateCount, hx, Option.bind_eq_bind, Option.bind_some, hload,
      h.notOvershot hmem hlt, assert_true, hstop, Option.pure_def]
  rw [hturn]
  cases hval : stop with
  | true =>
    rw [if_pos rfl]
    exact Or.inr ⟨hnext.isPrev hmem hlt (htrue hval), by rw [hx]⟩
  | false =>
    obtain ⟨y, rfl, hy⟩ := hfalse hval
    exact Or.inl ⟨y, hnext, hy, rfl⟩

/-- What `EstimateCount` has counted when it is at a node of a level. -/
structure Counting (cmp : Comparator Key β) (s : State Key) (key : Key) (c : Cursor) (count : ℕ) :
    Prop where
  /-- It is before the key. -/
  before : Before cmp s (cmp.above key) c
  /-- It is at a level that the list has. -/
  level_lt : c.level < s.mem.max_height
  /-- It is behind every node of the level above that is before the key. -/
  above : ∀ x ∈ c.x, ∀ m ∈ s.level (c.level + 1), s.mem.rank cmp m < cmp.above key →
    s.mem.rank cmp m ≤ s.mem.rank cmp x
  /-- It has counted the levels above and the nodes up to there. -/
  count_eq : ∀ x ∈ c.x, count = (estimateFrom cmp s key (c.level + 1) * s.mem.kBranching +
    (walkedTo cmp s key c.level x).card) % 2 ^ 64

/-- A node more is counted by a step to the next one. -/
theorem Counting.next (h : s.Shape cmp) {c : Cursor} {count : ℕ} (hc : Counting cmp s key c count)
    (hx : c.x = some x) (hnext : IsNext (s.mem.rank cmp) (s.level c.level) x (some y))
    (hlt : s.mem.rank cmp y < cmp.above key) :
    Counting cmp s key { c with x := some y } ((count + 1) % 2 ^ 64) where
  before := hc.before.move hnext.1 hlt
  level_lt := hc.level_lt
  above y' hy' m hm hmk := by
    cases hy'
    exact (hc.above x hx m hm hmk).trans hnext.2.1.le
  count_eq y' hy' := by
    cases hy'
    rw [hc.count_eq x hx, Nat.mod_add_mod, h.walkedTo_next hnext hlt (hc.above x hx), Nat.add_assoc]

/-- What is counted so far is taken `kBranching_` times by a step down. -/
theorem Counting.descend (h : s.Shape cmp) {c : Cursor} {count : ℕ}
    (hc : Counting cmp s key c count) (hx : c.x = some x)
    (hlast : IsPrev (s.mem.rank cmp) (s.level c.level) x (cmp.above key)) (hlevel : c.level ≠ 0) :
    Counting cmp s key { c with level := c.level - 1 } (count * s.mem.kBranching % 2 ^ 64) := by
  have hup : c.level - 1 + 1 = c.level := Nat.sub_add_cancel (Nat.one_le_iff_ne_zero.mpr hlevel)
  constructor
  · exact hc.before.descend hc.before.last
  · exact (Nat.sub_le ..).trans_lt hc.level_lt
  · intro x' hx' m hm hmk
    obtain rfl : x = x' := Option.some.inj (hx.symm.trans hx')
    dsimp only at hm
    rw [hup] at hm
    exact hlast.le hm hmk
  · intro x' hx'
    obtain rfl : x = x' := Option.some.inj (hx.symm.trans hx')
    have hnone : walkedTo cmp s key (c.level - 1) x = ∅ :=
      h.walkedTo_above (by rw [hup]; exact hlast.mem) hlast.lt
    dsimp only
    rw [hnone, Finset.card_empty, Nat.add_zero, hup, hc.count_eq x hx, h.walkedTo_last hlast,
      ← estimateFrom_eq hc.level_lt, Nat.mod_mul_mod]

/-- The count at the beginning: nothing is gone over, and there are no levels above. -/
theorem Counting.start (h : s.Shape cmp) (key : Key) :
    Counting cmp s key (.start s.mem.getMaxHeight) 0 := by
  have htop : s.mem.max_height - 1 + 1 = s.mem.max_height := Nat.sub_add_cancel h.max_height_pos
  constructor
  · exact Before.start h h.max_height_le (rank_head_lt _ _)
  · exact Nat.sub_lt h.max_height_pos Nat.one_pos
  · intro x hx m hm _
    cases hx
    dsimp only [Cursor.start, Memory.getMaxHeight] at hm
    rw [htop] at hm
    -- Above the levels of the list stands `head_` alone.
    rw [h.eq_head hm le_rfl]
  · intro x hx
    cases hx
    dsimp only [Cursor.start, Memory.getMaxHeight]
    rw [h.walkedTo_head, Finset.card_empty, htop, estimateFrom, Nat.sub_self, Finset.range_zero,
      Finset.sum_empty, Nat.zero_mul, Nat.add_zero, Nat.zero_mod]

/-- The count at the end: at the last node before the key at the lowest level every level is
counted. -/
theorem Counting.finish (h : s.Shape cmp) {c : Cursor} {count : ℕ}
    (hc : Counting cmp s key c count) (hx : c.x = some x)
    (hlast : IsPrev (s.mem.rank cmp) (s.level c.level) x (cmp.above key)) (hlevel : c.level = 0) :
    count = estimateFrom cmp s key 0 % 2 ^ 64 := by
  have hcount := hc.count_eq x hx
  rwa [h.walkedTo_last hlast, hlevel, ← estimateFrom_eq h.max_height_pos] at hcount

/-- `EstimateCount` of a list that nobody inserts into. -/
theorem Shape.estimateCount (h : s.Shape cmp) (key : Key) :
    search (estimateCount cmp key s.mem) (s.count + s.mem.max_height + 1)
        (.start s.mem.getMaxHeight, 0) = some (estimateFrom cmp s key 0 % 2 ^ 64) := by
  obtain ⟨_, hsearch, rfl⟩ : ∃ b, search (SkipList.estimateCount cmp key s.mem)
      (s.count + s.mem.max_height + 1) (.start s.mem.getMaxHeight, 0) = some b ∧
      b = estimateFrom cmp s key 0 % 2 ^ 64 := by
    -- The count so far is the invariant, the nodes and levels that are left are the variant.
    refine search_of_variant (Q := fun b => b = estimateFrom cmp s key 0 % 2 ^ 64)
      (I := fun n (c : Cursor × ℕ) => Counting cmp s key c.1 c.2 ∧
        work cmp s (cmp.above key) c.1 = n) ?_ ?_ ?_ ⟨.start h key, rfl⟩ ?_
    · rintro n ⟨c, count⟩ ⟨hc, -⟩
      obtain ⟨x, -, -, -, ⟨y, -, -, hturn⟩ | ⟨-, hturn⟩⟩ := h.estimateCount_turn hc.before count
      · exact ⟨_, hturn⟩
      · rw [hturn]
        split <;> exact ⟨_, rfl⟩
    · rintro n ⟨c, count⟩ c' ⟨hc, rfl⟩ hbody
      obtain ⟨x, hx, hmem, hlt, ⟨y, hnext, hy, hturn⟩ | ⟨hlast, hturn⟩⟩ :=
        h.estimateCount_turn hc.before count
      · cases hturn.symm.trans hbody
        exact ⟨_, (Goes.move hx hnext.1 hnext.2.1 hy).work_lt h h (.refl s) hc.before,
          hc.next h hx hnext hy, rfl⟩
      · rw [hturn] at hbody
        split at hbody
        case isTrue => cases hbody
        case isFalse hlevel =>
          cases hbody
          exact ⟨_, (Goes.descend hlevel hc.before.last).work_lt h h (.refl s) hc.before,
            hc.descend h hx hlast hlevel, rfl⟩
    · rintro n ⟨c, count⟩ b ⟨hc, -⟩ hbody
      obtain ⟨x, hx, hmem, hlt, ⟨y, hnext, hy, hturn⟩ | ⟨hlast, hturn⟩⟩ :=
        h.estimateCount_turn hc.before count
      · cases hturn.symm.trans hbody
      · rw [hturn] at hbody
        split at hbody
        case isFalse => cases hbody
        case isTrue hlevel =>
          cases hbody
          exact hc.finish h hx hlast hlevel
    · have hcard := h.between_card_le (x := head_) (r := cmp.above key)
      have hpos := h.max_height_pos
      simp only [work, Cursor.start, Memory.getMaxHeight, Option.getD_some]
      omega
  exact hsearch

/-- `EstimateCount` beside insertions is a search: each turn goes on to the next node, goes down a
level, or returns. -/
theorem searches_estimateCount (H : History cmp) (key : Key) :
    History.Searches H (cmp.above key) (fun s => SkipList.estimateCount cmp key s.mem) Prod.fst
      (fun _ => True) fun _ _ => True where
  bot_lt := cmp.bot_lt_above
  turn := by
    rintro t ⟨c, count⟩ - hc
    obtain ⟨x, hx, -, -, ⟨y, hnext, hy, hturn⟩ | ⟨-, hturn⟩⟩ :=
      (H.sound t).shape.estimateCount_turn hc count
    · exact Or.inl ⟨_, hturn, .move hx hnext.1 hnext.2.1 hy, trivial⟩
    · by_cases hlevel : c.level = 0
      · rw [if_pos hlevel] at hturn
        exact Or.inr ⟨_, hturn, trivial⟩
      · rw [if_neg hlevel] at hturn
        exact Or.inl ⟨_, hturn, .descend hlevel hc.last, trivial⟩

/-- `EstimateCount` of a list that nobody inserts into meanwhile returns the sum of
`kBranching_ ^ i` over the nodes that it goes over at each level `i`, as a 64-bit number: those of
the level that are before the key, but behind every node of the level above that is before the key.
While another thread inserts it does not fail either, and comes to an end. -/
theorem estimateCount_spec (key : Key) :
    (∀ s, Reachable cmp s →
      search (SkipList.estimateCount cmp key s.mem) (s.count + s.mem.max_height + 1)
          (.start s.mem.getMaxHeight, 0) =
        some ((∑ i ∈ Finset.range s.mem.max_height,
          s.mem.kBranching ^ i * (walked cmp s key i).card) % 2 ^ 64)) ∧
    ∀ (H : History cmp) tm v r t,
      H.Reads (fun s => SkipList.estimateCount cmp key s.mem) (H.startAt tm, 0) v r → r.view ≤ t →
      (∃ p, SkipList.estimateCount cmp key (H.state t).mem r.cursor = some p) ∧
        r.loads < (H.state tm).mem.getMaxHeight + (H.state t).count := by
  constructor
  · intro s h
    have hzero : (∑ i ∈ Finset.range s.mem.max_height,
        s.mem.kBranching ^ i * (walked cmp s key i).card) = estimateFrom cmp s key 0 := by
      simp only [estimateFrom, Nat.zero_add, Nat.sub_zero]
    rw [hzero]
    exact h.sound.shape.estimateCount key
  · intro H tm v r t hr ht
    obtain ⟨hp, hlt⟩ := (searches_estimateCount H key).pass rfl trivial hr ht
    exact ⟨hp, hlt.trans (Nat.add_lt_add_left (H.sound t).shape.between_card_le _)⟩

/-- Three keys, of which two are before the bound, one of them in a node of full height: it is gone
over at the highest level, and the other one nowhere, since it is before that one. -/
theorem estimateCount_spec_three : ∃ (H : History IntComparator) (t : ℕ),
    search (SkipList.estimateCount IntComparator 20 (H.state t).mem)
        ((H.state t).count + (H.state t).mem.max_height + 1)
        (.start (H.state t).mem.getMaxHeight, 0) = some (4 ^ 11) ∧
      (∑ i ∈ Finset.range (H.state t).mem.max_height,
        (H.state t).mem.kBranching ^ i * (walked IntComparator (H.state t) 20 i).card) % 2 ^ 64 =
        4 ^ 11 := by
  obtain ⟨H, t, s, ht, hs⟩ := History.exists_three
  have hrun : search (SkipList.estimateCount IntComparator 20 (H.state t).mem)
      ((H.state t).count + (H.state t).mem.max_height + 1)
      (.start (H.state t).mem.getMaxHeight, 0) = some (4 ^ 11) := by
    rw [ht]
    cases hs
    rfl
  have hsum := (estimateCount_spec 20).1 _ (H.reachable_at t)
  exact ⟨H, t, hrun, Option.some.inj (hsum.symm.trans hrun)⟩

end State

end CPStudy.SkipList
