import CPStudy.SkipList.Levels
import Mathlib.Data.Finset.Card
import Mathlib.Data.Fintype.Defs

/-!
# One turn of a search

A search is at a node below the key that it looks for, at some level (`Before`). One turn of
`FindGreaterOrEqual` or `FindLessThan` goes on to the next node, down one level, or returns; what it
then returns is the answer of the list as it is at this very turn, whatever the list was before. No
turn fails. `work` bounds the turns to come.
-/

namespace CPStudy.SkipList

open Lib

variable {Key β : Type} [LinearOrder β] {cmp : Comparator Key β} {s s' : State Key} {key k : Key}
  {n x y : Node} {i : ℕ} {r : Rank β}

/-! ## The comparisons -/

/-- Keys are compared by their ranks. -/
theorem Comparator.neg_iff_above : cmp.compare_ k key < 0 ↔ cmp.above k < cmp.above key :=
  (cmp.neg_iff k key).trans (WithBot.coe_lt_coe.trans WithTop.coe_lt_coe).symm

/-- Keys are compared by their ranks. -/
theorem Comparator.pos_iff_above : 0 < cmp.compare_ k key ↔ cmp.above key < cmp.above k :=
  (cmp.pos_iff k key).trans (WithBot.coe_lt_coe.trans WithTop.coe_lt_coe).symm

/-- Keys compare equal when their ranks are equal. -/
theorem Comparator.eq_iff_above : cmp.compare_ k key = 0 ↔ cmp.above k = cmp.above key := by
  constructor
  · intro h
    refine le_antisymm (not_lt.mp fun hlt => ?_) (not_lt.mp fun hlt => ?_)
    · exact absurd (cmp.pos_iff_above.mpr hlt) (by omega)
    · exact absurd (cmp.neg_iff_above.mpr hlt) (by omega)
  · intro h
    have hneg : ¬ cmp.compare_ k key < 0 := fun hlt => (cmp.neg_iff_above.mp hlt).ne h
    have hpos : ¬ 0 < cmp.compare_ k key := fun hlt => (cmp.pos_iff_above.mp hlt).ne' h
    omega

/-- An assertion whose condition is true. -/
@[simp] theorem assert_true : assert_ (some true) = some () := rfl

namespace State

/-- `KeyIsAfterNode` of a node that is linked in. -/
theorem Shape.keyIsAfterNode (h : s.Shape cmp) (hx : x ∈ s.level i) (hhead : x ≠ head_) :
    s.mem.keyIsAfterNode cmp key (some x) =
      some (decide (s.mem.rank cmp x < cmp.above key)) := by
  obtain ⟨k, hk, hrank⟩ := h.exists_key hx hhead
  simp only [Memory.keyIsAfterNode, hk, Option.bind_eq_bind, Option.bind_some, hrank,
    cmp.neg_iff_above, Option.pure_def]

/-- The links are sorted wherever a search follows one. -/
theorem Shape.linkSorted (h : s.Shape cmp) {o : Option Node} (hx : x ∈ s.level i)
    (ho : IsNext (s.mem.rank cmp) (s.level i) x o) : s.mem.linkSorted cmp x o = some true := by
  unfold Memory.linkSorted
  split
  case isTrue => rfl
  case isFalse hhead =>
    cases o with
    | none => rfl
    | some y =>
      obtain ⟨k, hk, hrank⟩ := h.exists_key ho.1 (ne_head_of_lt ho.2.1)
      have hafter : s.mem.keyIsAfterNode cmp k (some x) = some true := by
        rw [h.keyIsAfterNode hx hhead, ← hrank, decide_eq_true ho.2.1]
      simpa only [hk, Option.bind_eq_bind, Option.bind_some] using hafter

/-- A search below its key has not overshot. -/
theorem Shape.notOvershot (h : s.Shape cmp) (hx : x ∈ s.level i)
    (hlt : s.mem.rank cmp x < cmp.above key) : s.mem.notOvershot cmp key x = some true := by
  unfold Memory.notOvershot
  split
  case isTrue => rfl
  case isFalse hhead => rw [h.keyIsAfterNode hx hhead, decide_eq_true hlt]

/-! ## Where a search stands -/

/-- The search stands at a node of its level that is before the key, and what it remembers is
linked in and not before the key. -/
structure Before (cmp : Comparator Key β) (s : State Key) (r : Rank β) (c : Cursor) : Prop where
  /-- It stands at a node before the key. -/
  at_ : ∃ x, c.x = some x ∧ x ∈ s.level c.level ∧ s.mem.rank cmp x < r
  /-- The remembered node is not before the key. -/
  last : ∀ n ∈ c.last, n ∈ s.level 0 ∧ r ≤ s.mem.rank cmp n

/-- A search begins before the key, whatever height of the list it has loaded. -/
theorem Before.start (h : s.Shape cmp) {H : ℕ} (hH : H ≤ s.mem.kMaxHeight)
    (hr : s.mem.rank cmp head_ < r) : Before cmp s r (.start H) := by
  constructor
  · refine ⟨head_, rfl, h.head_mem ?_, hr⟩
    have hpos := h.kMaxHeight_pos
    show H - 1 < s.mem.kMaxHeight
    omega
  · intro n hn
    cases hn

/-- A search still stands before its key when the list has grown. -/
theorem Before.later (h : s.Shape cmp) (hg : s.Grows s') {c : Cursor} (hc : Before cmp s r c) :
    Before cmp s' r c := by
  constructor
  · obtain ⟨x, hx, hmem, hlt⟩ := hc.at_
    exact ⟨x, hx, hg.level hmem, by rwa [hg.rank (h.lt_count hmem)]⟩
  · intro n hn
    obtain ⟨hmem, hle⟩ := hc.last n hn
    exact ⟨hg.level hmem, by rwa [hg.rank (h.lt_count hmem)]⟩

/-- A search goes on to the next node. -/
theorem Before.move {c : Cursor} (hc : Before cmp s r c) (hy : y ∈ s.level c.level)
    (hlt : s.mem.rank cmp y < r) : Before cmp s r { c with x := some y } :=
  ⟨⟨y, rfl, hy, hlt⟩, hc.last⟩

/-- A search goes down a level. -/
theorem Before.descend {c : Cursor} {o : Option Node} (hc : Before cmp s r c)
    (ho : ∀ y ∈ o, y ∈ s.level 0 ∧ r ≤ s.mem.rank cmp y) :
    Before cmp s r { c with last := o, level := c.level - 1 } := by
  obtain ⟨x, hx, hmem, hlt⟩ := hc.at_
  exact ⟨⟨x, hx, level_anti (Nat.sub_le ..) hmem, hlt⟩, ho⟩

/-! ## The turns to come -/

open Classical in
/-- The nodes between a node and a rank. -/
noncomputable def between (cmp : Comparator Key β) (s : State Key) (x : Node) (r : Rank β) :
    Finset Node :=
  (Finset.range s.count).filter fun n =>
    n ∈ s.level 0 ∧ s.mem.rank cmp x < s.mem.rank cmp n ∧ s.mem.rank cmp n < r

/-- The nodes between, said through the level. -/
theorem Shape.mem_between (h : s.Shape cmp) : n ∈ between cmp s x r ↔
    n ∈ s.level 0 ∧ s.mem.rank cmp x < s.mem.rank cmp n ∧ s.mem.rank cmp n < r := by
  classical
  rw [between, Finset.mem_filter, Finset.mem_range, and_iff_right_iff_imp]
  exact fun hn => h.lt_count hn.1

/-- A search that moves leaves a node behind. -/
theorem Shape.between_card_lt (h : s.Shape cmp) (hy : y ∈ s.level 0)
    (hxy : s.mem.rank cmp x < s.mem.rank cmp y) (hlt : s.mem.rank cmp y < r) :
    (between cmp s y r).card < (between cmp s x r).card := by
  refine Finset.card_lt_card ((Finset.ssubset_iff_of_subset ?_).mpr ⟨y, ?_, ?_⟩)
  · intro n hn
    obtain ⟨hmem, hyn, hn⟩ := h.mem_between.mp hn
    exact h.mem_between.mpr ⟨hmem, hxy.trans hyn, hn⟩
  · exact h.mem_between.mpr ⟨hy, hxy, hlt⟩
  · exact fun hmem => absurd (h.mem_between.mp hmem).2.1 (lt_irrefl _)

/-- Fewer nodes are between when the rank becomes that of one of them. -/
theorem Shape.between_rank_card_lt (h : s.Shape cmp) (hy : y ∈ s.level 0)
    (hxy : s.mem.rank cmp x < s.mem.rank cmp y) (hlt : s.mem.rank cmp y < r) :
    (between cmp s x (s.mem.rank cmp y)).card < (between cmp s x r).card := by
  refine Finset.card_lt_card ((Finset.ssubset_iff_of_subset ?_).mpr ⟨y, ?_, ?_⟩)
  · intro n hn
    obtain ⟨hmem, hxn, hn⟩ := h.mem_between.mp hn
    exact h.mem_between.mpr ⟨hmem, hxn, hn.trans hlt⟩
  · exact h.mem_between.mpr ⟨hy, hxy, hlt⟩
  · exact fun hmem => absurd (h.mem_between.mp hmem).2.2 (lt_irrefl _)

/-- The number of turns that a search still makes at most, when nothing more is linked in. -/
noncomputable def work (cmp : Comparator Key β) (s : State Key) (r : Rank β) (c : Cursor) : ℕ :=
  c.level + (between cmp s (c.x.getD head_) r).card

/-- There are fewer nodes between than allocated. -/
theorem Shape.between_card_le (h : s.Shape cmp) : (between cmp s x r).card < s.count := by
  classical
  have hsub : between cmp s x r ⊂ Finset.range s.count := by
    refine (Finset.ssubset_iff_of_subset (Finset.filter_subset ..)).mpr
      ⟨head_, Finset.mem_range.mpr h.count_pos, fun hmem => ?_⟩
    exact ne_head_of_lt (h.mem_between.mp hmem).2.1 rfl
  simpa using Finset.card_lt_card hsub

/-- What one turn of a search may do that goes on: it does less afterwards. -/
inductive Goes (cmp : Comparator Key β) (s : State Key) (r : Rank β) (c : Cursor) : Cursor → Prop
  /-- It goes on to the next node. -/
  | move {x y : Node} (hx : c.x = some x) (hy : y ∈ s.level c.level)
      (hxy : s.mem.rank cmp x < s.mem.rank cmp y) (hlt : s.mem.rank cmp y < r) :
      Goes cmp s r c { c with x := some y }
  /-- It goes down a level. -/
  | descend {o : Option Node} (hlevel : c.level ≠ 0)
      (ho : ∀ y ∈ o, y ∈ s.level 0 ∧ r ≤ s.mem.rank cmp y) :
      Goes cmp s r c { c with last := o, level := c.level - 1 }

/-- A search that goes on still stands before its key. -/
theorem Goes.before {c c' : Cursor} (hgo : Goes cmp s r c c') (hc : Before cmp s r c) :
    Before cmp s r c' := by
  cases hgo with
  | move hx hy hxy hlt => exact hc.move hy hlt
  | descend hlevel ho => exact hc.descend ho

/-- A search that goes on has less to do, also in the list as it will be. -/
theorem Goes.work_lt (h : s.Shape cmp) (h' : s'.Shape cmp) (hg : s.Grows s') {c c' : Cursor}
    (hc : Before cmp s r c) (hgo : Goes cmp s r c c') :
    work cmp s' r c' < work cmp s' r c := by
  cases hgo with
  | @move x y hx hy hxy hlt =>
    obtain ⟨x', hx', hmem, -⟩ := hc.at_
    obtain rfl : x = x' := Option.some.inj (hx.symm.trans hx')
    have hrx : s'.mem.rank cmp x = s.mem.rank cmp x := hg.rank (h.lt_count hmem)
    have hry : s'.mem.rank cmp y = s.mem.rank cmp y := hg.rank (h.lt_count hy)
    have hcard := h'.between_card_lt (x := x) (r := r)
      (hg.level (level_anti (Nat.zero_le _) hy)) (by rwa [hrx, hry]) (by rwa [hry])
    simp only [work, hx, Option.getD_some]
    omega
  | descend hlevel ho =>
    simp only [work]
    omega

/-! ## The searches -/

/-- What `FindGreaterOrEqual` finds out about the next node. -/
theorem Shape.compareNext (h : s.Shape cmp) {o last : Option Node}
    (ho : ∀ y ∈ o, y ∈ s.level i ∧ y ≠ head_)
    (hlast : ∀ y ∈ last, cmp.above key ≤ s.mem.rank cmp y) :
    ∃ order, s.mem.compareNext cmp key o last = some order ∧
      ((order = 0 ∧ ∃ y, o = some y ∧ s.mem.rank cmp y = cmp.above key) ∨
        (0 < order ∧ ∀ y ∈ o, cmp.above key ≤ s.mem.rank cmp y) ∨
        (order < 0 ∧ ∃ y, o = some y ∧ s.mem.rank cmp y < cmp.above key)) := by
  unfold Memory.compareNext
  split
  case isTrue hskip =>
    refine ⟨1, rfl, Or.inr (Or.inl ⟨Int.one_pos, fun y hy => ?_⟩)⟩
    rcases hskip with hnone | hsame
    · rw [hnone] at hy
      cases hy
    · exact hlast y (hsame ▸ hy)
  case isFalse hskip =>
    cases o with
    | none => exact absurd (Or.inl rfl) hskip
    | some y =>
      obtain ⟨hmem, hhead⟩ := ho y rfl
      obtain ⟨k, hk, hrank⟩ := h.exists_key hmem hhead
      refine ⟨cmp.compare_ k key, by simp only [Option.bind_some, hk, Option.map_some], ?_⟩
      rcases lt_trichotomy (cmp.compare_ k key) 0 with hneg | hzero | hpos
      · exact Or.inr (Or.inr ⟨hneg, y, rfl, hrank.trans_lt (cmp.neg_iff_above.mp hneg)⟩)
      · exact Or.inl ⟨hzero, y, rfl, hrank.trans (cmp.eq_iff_above.mp hzero)⟩
      · refine Or.inr (Or.inl ⟨hpos, fun y' hy' => ?_⟩)
        cases hy'
        exact (cmp.pos_iff_above.mp hpos).le.trans hrank.ge

/-- One turn of `FindGreaterOrEqual`: the search goes on, or it returns the first node from the key
on in the list as it is now. -/
theorem Shape.findGreaterOrEqual_turn (h : s.Shape cmp) {c : Cursor}
    (hc : Before cmp s (cmp.above key) c) :
    (∃ c', findGreaterOrEqual cmp key s.mem c = some (.again c') ∧
      Goes cmp s (cmp.above key) c c') ∨
    ∃ o, findGreaterOrEqual cmp key s.mem c = some (.leave o) ∧
      IsFrom (s.mem.rank cmp) (s.level 0) (cmp.above key) o := by
  obtain ⟨x, hx, hmem, hlt⟩ := hc.at_
  obtain ⟨o, hload, hnext⟩ := h.next hmem
  have hzero {y : Node} (hy : y ∈ s.level c.level) : y ∈ s.level 0 := level_anti (Nat.zero_le _) hy
  have hlink : ∀ y ∈ o, y ∈ s.level c.level ∧ y ≠ head_ := by
    intro y hy
    cases hy
    exact ⟨hnext.1, ne_head_of_lt hnext.2.1⟩
  have hlast : ∀ y ∈ c.last, cmp.above key ≤ s.mem.rank cmp y := fun y hy => (hc.last y hy).2
  obtain ⟨order, horder, hcase⟩ := h.compareNext hlink hlast
  -- The assertions hold, and what is left is the choice by the comparison.
  have hturn : findGreaterOrEqual cmp key s.mem c =
      if order = 0 ∨ (0 < order ∧ c.level = 0) then some (.leave o)
      else if order < 0 then some (.again { c with x := o })
      else some (.again { c with last := o, level := c.level - 1 }) := by
    simp only [findGreaterOrEqual, hx, Option.bind_eq_bind, Option.bind_some, hload,
      h.linkSorted hmem hnext, h.notOvershot hmem hlt, assert_true, horder, Option.pure_def]
  rw [hturn]
  rcases hcase with ⟨heq, y, rfl, hy⟩ | ⟨hpos, hbigger⟩ | ⟨hneg, y, rfl, hy⟩
  · -- The key is found, perhaps above the lowest level.
    rw [if_pos (Or.inl heq)]
    exact Or.inr ⟨some y, rfl, .of_eq (hzero hnext.1) hy⟩
  · by_cases hlevel : c.level = 0
    · rw [if_pos (Or.inr ⟨hpos, hlevel⟩)]
      rw [hlevel] at hnext
      exact Or.inr ⟨o, rfl, hnext.isFrom hlt hbigger⟩
    · rw [if_neg (by omega), if_neg (by omega)]
      exact Or.inl ⟨_, rfl, .descend hlevel fun y hy => ⟨hzero (hlink y hy).1, hbigger y hy⟩⟩
  · rw [if_neg (by omega), if_pos hneg]
    exact Or.inl ⟨_, rfl, .move hx hnext.1 hnext.2.1 hy⟩

/-- What `FindLessThan` does to `prev` where it goes down a level. -/
def setPrev (x : Node) (i : ℕ) (prev : Option (ℕ → Node)) : Option (ℕ → Node) :=
  prev.map fun p => Function.update p i x

/-- One turn of `FindLessThan`: the search goes on to the next node; or it has found the last node
before the key at its level, in the list as it is now, and goes down or returns. -/
theorem Shape.findLessThan_turn (h : s.Shape cmp) {c : Cursor} (hc : Before cmp s (cmp.above key) c)
    (prev : Option (ℕ → Node)) :
    (∃ c', findLessThan cmp key s.mem (c, prev) = some (.again (c', prev)) ∧
      Goes cmp s (cmp.above key) c c' ∧ c'.level = c.level) ∨
    ∃ x, IsPrev (s.mem.rank cmp) (s.level c.level) x (cmp.above key) ∧
      ((c.level ≠ 0 ∧ ∃ c', findLessThan cmp key s.mem (c, prev) =
          some (.again (c', setPrev x c.level prev)) ∧
          Goes cmp s (cmp.above key) c c' ∧ c'.level = c.level - 1) ∨
        (c.level = 0 ∧ findLessThan cmp key s.mem (c, prev) =
          some (.leave (x, setPrev x c.level prev)))) := by
  obtain ⟨x, hx, hmem, hlt⟩ := hc.at_
  obtain ⟨o, hload, hnext⟩ := h.next hmem
  have hzero {y : Node} (hy : y ∈ s.level c.level) : y ∈ s.level 0 := level_anti (Nat.zero_le _) hy
  have hprev : s.mem.storePrev prev c.level x = some (setPrev x c.level prev) := by
    cases prev with
    | none => rfl
    | some p => exact if_pos (h.lt_kMaxHeight hmem)
  -- Whether the key is after the next node, as the search finds out.
  obtain ⟨after, hafter, htrue, hfalse⟩ : ∃ after : Bool,
      s.mem.keyIsAfterNext cmp key o c.last = some after ∧
      (after = true → ∃ y, o = some y ∧ s.mem.rank cmp y < cmp.above key) ∧
      (after = false → ∀ y ∈ o, cmp.above key ≤ s.mem.rank cmp y) := by
    unfold Memory.keyIsAfterNext
    split
    case isTrue hsame =>
      exact ⟨false, rfl, nofun, fun _ y hy => (hc.last y (hsame ▸ hy)).2⟩
    case isFalse =>
      cases o with
      | none => exact ⟨false, rfl, nofun, fun _ y hy => by cases hy⟩
      | some y =>
        refine ⟨_, h.keyIsAfterNode hnext.1 (ne_head_of_lt hnext.2.1), ?_, ?_⟩
        · exact fun htrue => ⟨y, rfl, of_decide_eq_true htrue⟩
        · intro hfalse y' hy'
          cases hy'
          exact not_lt.mp (of_decide_eq_false hfalse)
  have hturn : findLessThan cmp key s.mem (c, prev) =
      if after then some (.again ({ c with x := o }, prev))
      else if c.level = 0 then some (.leave (x, setPrev x c.level prev))
      else some (.again ({ c with last := o, level := c.level - 1 }, setPrev x c.level prev)) := by
    simp only [findLessThan, hx, Option.bind_eq_bind, Option.bind_some, hload,
      h.linkSorted hmem hnext, h.notOvershot hmem hlt, assert_true, hafter, Option.pure_def, hprev]
  rw [hturn]
  cases hval : after with
  | true =>
    obtain ⟨y, rfl, hy⟩ := htrue hval
    exact Or.inl ⟨_, rfl, .move hx hnext.1 hnext.2.1 hy, rfl⟩
  | false =>
    have hbigger := hfalse hval
    refine Or.inr ⟨x, hnext.isPrev hmem hlt hbigger, ?_⟩
    by_cases hlevel : c.level = 0
    · rw [if_neg Bool.false_ne_true, if_pos hlevel]
      exact Or.inr ⟨hlevel, rfl⟩
    · rw [if_neg Bool.false_ne_true, if_neg hlevel]
      refine Or.inl ⟨hlevel, _, rfl, .descend hlevel fun y hy => ⟨hzero ?_, hbigger y hy⟩, rfl⟩
      cases hy
      exact hnext.1

/-- One turn of `FindLast`: the search goes on, or it returns the last node of the list as it is
now. -/
theorem Shape.findLast_turn (h : s.Shape cmp) {c : Cursor} (hc : Before cmp s ⊤ c) :
    (∃ c', findLast s.mem c = some (.again c') ∧ Goes cmp s ⊤ c c') ∨
    ∃ x, findLast s.mem c = some (.leave x) ∧ IsPrev (s.mem.rank cmp) (s.level 0) x ⊤ := by
  obtain ⟨x, hx, hmem, hlt⟩ := hc.at_
  obtain ⟨o, hload, hnext⟩ := h.next hmem
  simp only [findLast, hx, Option.bind_eq_bind, Option.bind_some, hload, Option.pure_def]
  cases o with
  | none =>
    rw [if_pos rfl]
    by_cases hlevel : c.level = 0
    · rw [if_pos hlevel]
      rw [hlevel] at hnext hmem
      exact Or.inr ⟨x, rfl, hnext.isPrev hmem hlt fun y hy => by cases hy⟩
    · rw [if_neg hlevel]
      exact Or.inl ⟨_, by rw [← hx], .descend hlevel hc.last⟩
  | some y =>
    rw [if_neg (Option.some_ne_none y)]
    exact Or.inl ⟨_, rfl, .move hx hnext.1 hnext.2.1 (rank_lt_top _ _)⟩

end State

end CPStudy.SkipList
