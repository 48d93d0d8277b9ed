import CPStudy.Lib.Threaded
import CPStudy.SkipList.Model

/-!
# The levels of the skip list

A node is linked in from the lowest level up. `State.linked` is the number of levels that it is
linked in at: its height, but for the node that `Insert` is at work on. `State.level i` are the
nodes linked in at the level `i`, `head_` among them, and `State.Shape` says that each level links
them in the order of their keys. It holds between any two stores of `Insert`, and so of whatever a
thread may see that searches meanwhile. `State.Grows` is what time does to the list.
-/

namespace CPStudy.SkipList

open Lib

variable {Key β : Type} [LinearOrder β] (cmp : Comparator Key β)

/-- The ranks of the keys, with `head_` below them and the end of the list above. -/
abbrev Rank (β : Type) : Type := WithBot (WithTop β)

/-- The rank of a key. -/
def Comparator.above (key : Key) : Rank β := ((cmp.rank key : WithTop β) : Rank β)

/-- The rank of a node; `head_` is below every key. -/
def Memory.rank (m : Memory Key) (n : Node) : Rank β :=
  if n = head_ then ⊥
  else match m.key n with
    | some k => cmp.above k
    | none => ⊥

variable {cmp} in
/-- A key is above `head_`. -/
theorem Comparator.bot_lt_above {key : Key} : ⊥ < cmp.above key := WithBot.bot_lt_coe _

namespace State

variable (s : State Key)

/-- The number of levels that the node is linked in at. -/
def linked (n : Node) : ℕ :=
  match s.pc with
  | .fill x _ i => if n = x then i else s.mem.height n
  | .publish x _ i => if n = x then i else s.mem.height n
  | _ => s.mem.height n

/-- The nodes linked in at the level `i`. -/
def level (i : ℕ) : Set Node := {n | i < s.linked n}

/-- The keys in the list. -/
def contents : Set Key := {k | ∃ n ∈ s.level 0, n ≠ head_ ∧ s.mem.key n = some k}

/-- The levels are linked in order. -/
structure Shape : Prop where
  /-- The list has a level. -/
  max_height_pos : 0 < s.mem.max_height
  /-- The height of the list is within its bound. -/
  max_height_le : s.mem.max_height ≤ s.mem.kMaxHeight
  /-- Something was allocated, `head_` first. -/
  count_pos : 0 < s.count
  /-- What was not allocated has no links. -/
  unallocated : ∀ n, s.count ≤ n → s.mem.height n = 0
  /-- `head_` is at every level. -/
  linked_head : s.linked head_ = s.mem.kMaxHeight
  /-- A node has as many links as it is linked in at. -/
  linked_le_height : ∀ n, s.linked n ≤ s.mem.height n
  /-- The height of the list bounds the nodes. -/
  linked_le : ∀ n, n ≠ head_ → s.linked n ≤ s.mem.max_height
  /-- What is linked in has a key. -/
  keyed : ∀ n ∈ s.level 0, n ≠ head_ → ∃ k, s.mem.key n = some k
  /-- Each level is linked in the order of the keys. -/
  threaded : ∀ i < s.mem.kMaxHeight,
    Threaded (s.mem.rank cmp) (s.level i) fun x => s.mem.next_ x i

/-- What time does: nodes are linked in, and nothing else that was allocated changes. -/
structure Grows (s s' : State Key) : Prop where
  /-- The bound of the heights is constant. -/
  kMaxHeight : s'.mem.kMaxHeight = s.mem.kMaxHeight
  /-- Nodes are allocated. -/
  count : s.count ≤ s'.count
  /-- The height of the list grows. -/
  max_height : s.mem.max_height ≤ s'.mem.max_height
  /-- A node keeps its key. -/
  key : ∀ n < s.count, s'.mem.key n = s.mem.key n
  /-- A node is linked in at more levels. -/
  linked : ∀ n, s.linked n ≤ s'.linked n

variable {cmp s}
variable {s' s'' : State Key} {n x : Node} {i j : ℕ} {key : Key}

@[simp] theorem mem_level : n ∈ s.level i ↔ i < s.linked n := Iff.rfl

/-- What is linked in at a level is linked in at the ones below. -/
theorem level_anti (h : i ≤ j) : s.level j ⊆ s.level i := fun _ hn => h.trans_lt hn

@[simp] theorem rank_head (m : Memory Key) : m.rank cmp head_ = ⊥ := if_pos rfl

/-- The rank of a node other than `head_` is that of its key. -/
theorem rank_of_key {m : Memory Key} {k : Key} (hn : n ≠ head_) (hk : m.key n = some k) :
    m.rank cmp n = cmp.above k := by
  rw [Memory.rank, if_neg hn, hk]

/-- `head_` is before every key. -/
theorem rank_head_lt (m : Memory Key) (key : Key) : m.rank cmp head_ < cmp.above key := by
  rw [rank_head]
  exact WithBot.bot_lt_coe _

/-- Every node is before the end of the list. -/
theorem rank_lt_top (m : Memory Key) (n : Node) : m.rank cmp n < ⊤ := by
  rw [Memory.rank]
  split
  case isTrue => exact WithBot.bot_lt_coe _
  case isFalse =>
    split
    case h_1 k _ => exact WithBot.coe_lt_coe.mpr (WithTop.coe_lt_top _)
    case h_2 => exact WithBot.bot_lt_coe _

/-- What is above something is not `head_`. -/
theorem ne_head_of_lt {m : Memory Key} {k : Rank β} (hlt : k < m.rank cmp x) : x ≠ head_ := by
  rintro rfl
  rw [rank_head] at hlt
  exact not_lt_bot hlt

/-- What is not below a key is not `head_`. -/
theorem ne_head_of_le {m : Memory Key} (hle : cmp.above key ≤ m.rank cmp x) : x ≠ head_ := by
  rintro rfl
  exact absurd (rank_head_lt m key) (not_lt.mpr hle)

namespace Shape

variable (h : s.Shape cmp)
include h

/-- `head_` is at every level. -/
theorem head_mem (hi : i < s.mem.kMaxHeight) : head_ ∈ s.level i := by
  rw [mem_level, h.linked_head]
  exact hi

/-- There is a level. -/
theorem kMaxHeight_pos : 0 < s.mem.kMaxHeight := h.max_height_pos.trans_le h.max_height_le

/-- There are no levels but those that there may be. -/
theorem lt_kMaxHeight (hx : x ∈ s.level i) : i < s.mem.kMaxHeight := by
  rw [mem_level] at hx
  by_cases hhead : x = head_
  · rwa [hhead, h.linked_head] at hx
  · exact hx.trans_le ((h.linked_le x hhead).trans h.max_height_le)

/-- Above the height of the list stands `head_` alone. -/
theorem eq_head (hx : x ∈ s.level i) (hi : s.mem.max_height ≤ i) : x = head_ := by
  by_contra hhead
  exact absurd (mem_level.mp hx) (not_lt.mpr ((h.linked_le x hhead).trans hi))

/-- What is linked in was allocated. -/
theorem lt_count (hx : x ∈ s.level i) : x < s.count := by
  by_contra hge
  have hpos : i < s.mem.height x := (mem_level.mp hx).trans_le (h.linked_le_height x)
  rw [h.unallocated x (not_lt.mp hge)] at hpos
  exact Nat.not_lt_zero _ hpos

/-- The link of a node at a level that it is linked in at. -/
theorem next (hx : x ∈ s.level i) :
    ∃ o, s.mem.next x i = some o ∧ IsNext (s.mem.rank cmp) (s.level i) x o := by
  obtain ⟨o, ho, hnext⟩ := (h.threaded i (h.lt_kMaxHeight hx)).link x hx
  have hbound : i < s.mem.height x := (mem_level.mp hx).trans_le (h.linked_le_height x)
  exact ⟨o, by rw [Memory.next, if_pos hbound, ho], hnext⟩

/-- The key of a node that is linked in, and its rank. -/
theorem exists_key (hx : x ∈ s.level i) (hhead : x ≠ head_) :
    ∃ k, s.mem.key x = some k ∧ s.mem.rank cmp x = cmp.above k := by
  obtain ⟨k, hk⟩ := h.keyed x (level_anti (Nat.zero_le i) hx) hhead
  exact ⟨k, hk, rank_of_key hhead hk⟩

end Shape

namespace Grows

@[refl] theorem refl (s : State Key) : s.Grows s :=
  ⟨rfl, le_rfl, le_rfl, fun _ _ => rfl, fun _ => le_rfl⟩

/-- Time goes on. -/
theorem trans (h : s.Grows s') (h' : s'.Grows s'') : s.Grows s'' where
  kMaxHeight := h'.kMaxHeight.trans h.kMaxHeight
  count := h.count.trans h'.count
  max_height := h.max_height.trans h'.max_height
  key n hn := (h'.key n (hn.trans_le h.count)).trans (h.key n hn)
  linked n := (h.linked n).trans (h'.linked n)

/-- A node stays at its levels. -/
theorem level (h : s.Grows s') : s.level i ⊆ s'.level i := fun n hn => (mem_level.mp hn).trans_le
  (h.linked n)

/-- A node keeps its rank. -/
theorem rank (h : s.Grows s') (hn : n < s.count) : s'.mem.rank cmp n = s.mem.rank cmp n := by
  rw [Memory.rank, Memory.rank, h.key n hn]

end Grows

end State

end CPStudy.SkipList
