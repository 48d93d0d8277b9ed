import CPStudy.Lib.Timeline
import Mathlib.Algebra.Ring.Int.Defs
import Mathlib.Algebra.Ring.Nat
import Mathlib.Order.WithBot
import Mathlib.Data.Set.Basic

/-!
# The skip list

`skiplist.h`. A node carries a key and an array of links, as many as its height; the nodes whose
height is above `i` are linked in the order of their keys at the level `i`, from `head_` on. One
thread inserts at a time, and any number of threads search meanwhile without a lock.

`Memory` is what the searching threads can see: the nodes, with the links that no store has reached
yet (`none`), and `max_height_`. `State` adds what only `Insert` uses. `step` takes `Insert` apart
into the steps between which another thread may look: the choice of the height, the allocation,
and for each level the two stores that fill the link of the new node and publish it. A step is
`none` where an assertion fails, where a pointer is null that is followed, or where an array is read
or written outside its bounds or before anything was stored there.

The searches are loops whose body loads one link; `Pass` is what one turn of the body does. The
random numbers are whatever `RANDOM->Next()` returns.
-/

namespace CPStudy.SkipList

open Lib

/-- A three-way comparison: the sign of `compare_ a b` is that of the ranks of the two keys in a
linear order. -/
structure Comparator (Key β : Type) [LinearOrder β] where
  /-- The comparison. -/
  compare_ : Key → Key → ℤ
  /-- What the keys are compared by. -/
  rank : Key → β
  /-- A negative result says that the first key is smaller. -/
  neg_iff : ∀ a b, compare_ a b < 0 ↔ rank a < rank b
  /-- A positive result says that the first key is greater. -/
  pos_iff : ∀ a b, 0 < compare_ a b ↔ rank b < rank a

/-- An `int` so near to zero that the difference of any two of them is an `int`. -/
abbrev SmallInt : Type := {k : ℤ // -2 ^ 30 ≤ k ∧ k < 2 ^ 30}

/-- A numeral stands for its residue modulo the bound. -/
instance SmallInt.instOfNat (n : ℕ) : OfNat SmallInt n where
  ofNat := ⟨(n % 2 ^ 30 : ℕ), by omega⟩

/-- The difference of two of them does not overflow. -/
theorem SmallInt.bmod_sub (a b : SmallInt) : (a.val - b.val).bmod (2 ^ 32) = a.val - b.val := by
  have ha := a.property
  have hb := b.property
  apply Int.bmod_eq_of_le
  · omega
  · omega

/-- `IntComparator`, which subtracts one `int` from the other. -/
def IntComparator : Comparator SmallInt ℤ where
  compare_ := fun a b => (a.val - b.val).bmod (2 ^ 32)
  rank := Subtype.val
  neg_iff := fun a b => by
    rw [SmallInt.bmod_sub]
    exact ⟨Int.lt_of_sub_neg, Int.sub_neg_of_lt⟩
  pos_iff := fun a b => by
    rw [SmallInt.bmod_sub]
    exact ⟨Int.lt_of_sub_pos, Int.sub_pos_of_lt⟩

/-- The address of a node: the number of nodes allocated before it. -/
abbrev Node := ℕ

/-- The node that every level starts at; its key is never compared. -/
def head_ : Node := 0

/-- What the threads share. -/
structure Memory (Key : Type) where
  /-- The bound of the heights. -/
  kMaxHeight : ℕ
  /-- The branching factor. -/
  kBranching : ℕ
  /-- The key of each node that was constructed. -/
  key : Node → Option Key
  /-- The length of the array `next_` of each node, `0` for what was not allocated. -/
  height : Node → ℕ
  /-- The links of each node. -/
  next_ : Node → ℕ → Option (Option Node)
  /-- `max_height_`, the height of the list. -/
  max_height : ℕ

namespace Memory

variable {Key β : Type} [LinearOrder β] (cmp : Comparator Key β) (m : Memory Key)

/-- `Node::Next` and `NoBarrier_Next`. -/
def next (x : Node) (n : ℕ) : Option (Option Node) :=
  if n < m.height x then m.next_ x n else none

/-- `Node::SetNext` and `NoBarrier_SetNext`. -/
def setNext (x : Node) (n : ℕ) (y : Option Node) : Option (Memory Key) :=
  if n < m.height x then
    some { m with
      next_ := Function.update m.next_ x (Function.update (m.next_ x) n (some y)) }
  else none

/-- `GetMaxHeight`. -/
def getMaxHeight : ℕ := m.max_height

/-- `KeyIsAfterNode`: a null node is infinite. -/
def keyIsAfterNode (key : Key) : Option Node → Option Bool
  | none => some false
  | some n => do
    let k ← m.key n
    return decide (cmp.compare_ k key < 0)

/-- The condition of the assertion that the list is sorted at the link from `x` to `next`. -/
def linkSorted (x : Node) (next : Option Node) : Option Bool :=
  if x = head_ then some true
  else match next with
    | none => some true
    | some n => do
      let k ← m.key n
      m.keyIsAfterNode cmp k (some x)

/-- The condition of the assertion that the search has not overshot. -/
def notOvershot (key : Key) (x : Node) : Option Bool :=
  if x = head_ then some true else m.keyIsAfterNode cmp key (some x)

/-- `cmp` of `FindGreaterOrEqual`: the node remembered as bigger is not compared again. -/
def compareNext (key : Key) (next last_bigger : Option Node) : Option ℤ :=
  if next = none ∨ next = last_bigger then some 1
  else next.bind fun n => (m.key n).map fun k => cmp.compare_ k key

/-- `next != last_not_after && KeyIsAfterNode(key, next)` of `FindLessThan`. -/
def keyIsAfterNext (key : Key) (next last_not_after : Option Node) : Option Bool :=
  if next = last_not_after then some false else m.keyIsAfterNode cmp key next

/-- `prev[level] = x` of `FindLessThan`, where `prev` is not null. -/
def storePrev (prev : Option (ℕ → Node)) (level : ℕ) (x : Node) : Option (Option (ℕ → Node)) :=
  match prev with
  | none => some none
  | some p => if level < m.kMaxHeight then some (some (Function.update p level x)) else none

/-- `next == nullptr || compare_(next->key, key) >= 0` of `EstimateCount`. -/
def notSmaller (key : Key) : Option Node → Option Bool
  | none => some true
  | some n => (m.key n).map fun k => decide (0 ≤ cmp.compare_ k key)

/-- `Contains`, with the node that `FindGreaterOrEqual` returned. -/
def contains (key : Key) : Option Node → Option Bool
  | none => some false
  | some x => (m.key x).map fun k => decide (cmp.compare_ key k = 0)

/-- `NewNode`: the links hold nothing yet. -/
def newNode (x : Node) (key : Key) (height : ℕ) : Memory Key :=
  { m with
    key := Function.update m.key x (some key)
    height := Function.update m.height x height
    next_ := Function.update m.next_ x fun _ => none }

end Memory

/-- `assert`. -/
def assert_ (condition : Option Bool) : Option Unit :=
  condition.bind fun b => if b then some () else none

/-! ## The searches -/

/-- The local variables of a search. -/
structure Cursor where
  /-- `x`. -/
  x : Option Node
  /-- `level`. -/
  level : ℕ
  /-- `last_bigger` or `last_not_after`. -/
  last : Option Node

/-- The local variables at the beginning, with the height of the list that was loaded. -/
def Cursor.start (maxHeight : ℕ) : Cursor := ⟨some head_, maxHeight - 1, none⟩

section Searches

variable {Key β : Type} [LinearOrder β] (cmp : Comparator Key β)

/-- One turn of the loop of `FindGreaterOrEqual`. -/
def findGreaterOrEqual (key : Key) (m : Memory Key) (c : Cursor) :
    Option (Pass Cursor (Option Node)) := do
  let x ← c.x
  let next ← m.next x c.level
  assert_ (m.linkSorted cmp x next)
  assert_ (m.notOvershot cmp key x)
  let order ← m.compareNext cmp key next c.last
  if order = 0 ∨ (0 < order ∧ c.level = 0) then
    return .leave next
  else if order < 0 then
    return .again { c with x := next }
  else
    return .again { c with last := next, level := c.level - 1 }

/-- One turn of the loop of `FindLessThan`; `prev` is null for a caller that does not need it. -/
def findLessThan (key : Key) (m : Memory Key) (c : Cursor × Option (ℕ → Node)) :
    Option (Pass (Cursor × Option (ℕ → Node)) (Node × Option (ℕ → Node))) := do
  let (c, prev) := c
  let x ← c.x
  let next ← m.next x c.level
  assert_ (m.linkSorted cmp x next)
  assert_ (m.notOvershot cmp key x)
  let after ← m.keyIsAfterNext cmp key next c.last
  if after then
    return .again ({ c with x := next }, prev)
  else
    let prev ← m.storePrev prev c.level x
    if c.level = 0 then
      return .leave (x, prev)
    else
      return .again ({ c with last := next, level := c.level - 1 }, prev)

/-- One turn of the loop of `FindLast`. -/
def findLast (m : Memory Key) (c : Cursor) : Option (Pass Cursor Node) := do
  let x ← c.x
  let next ← m.next x c.level
  if next = none then
    if c.level = 0 then
      return .leave x
    else
      return .again { c with level := c.level - 1 }
  else
    return .again { c with x := next }

/-- One turn of the loop of `EstimateCount`, with the count so far. -/
def estimateCount (key : Key) (m : Memory Key) (c : Cursor × ℕ) :
    Option (Pass (Cursor × ℕ) ℕ) := do
  let (c, count) := c
  let x ← c.x
  assert_ (m.notOvershot cmp key x)
  let next ← m.next x c.level
  let stop ← m.notSmaller cmp key next
  if stop then
    if c.level = 0 then
      return .leave count
    else
      return .again ({ c with level := c.level - 1 }, count * m.kBranching % 2 ^ 64)
  else
    return .again ({ c with x := next }, (count + 1) % 2 ^ 64)

/-- One turn of the loop that an iterator is used in: `SeekToFirst` before the first turn and `Next`
before every other one load the link, and the key is read while the iterator is `Valid`. The local
variables are the node whose link is loaded and the keys so far. -/
def iterate (m : Memory Key) (c : Node × List Key) :
    Option (Pass (Node × List Key) (List Key)) := do
  let (x, keys) := c
  let next ← m.next x 0
  match next with
  | none => return .leave keys
  | some n => do
    let k ← m.key n
    return .again (n, keys ++ [k])

/-- What an iterator keeps of the result of `FindLessThan` or `FindLast`. -/
def positionOf (x : Node) : Option Node := if x = head_ then none else some x

end Searches

/-! ## Insertion -/

/-- Where the thread that may insert stands. -/
inductive Pc (Key : Type)
  /-- Outside `Insert`. -/
  | idle
  /-- The predecessors of the key are in `prev_`. -/
  | located (key : Key)
  /-- The height of the new node is chosen. -/
  | sized (key : Key) (height : ℕ)
  /-- The new node `x` is to get its link of level `i`. -/
  | fill (x : Node) (height i : ℕ)
  /-- The new node `x` has its link of level `i` and is to be linked in there. -/
  | publish (x : Node) (height i : ℕ)

/-- The skip list. -/
structure State (Key : Type) where
  /-- What the threads share. -/
  mem : Memory Key
  /-- `kScaledInverseBranching_`. -/
  kScaledInverseBranching : ℕ
  /-- `prev_`. -/
  prev : ℕ → Node
  /-- `prev_height_`. -/
  prev_height : ℕ
  /-- The number of nodes allocated so far. -/
  count : ℕ
  /-- Where the thread that inserts stands. -/
  pc : Pc Key

/-- What the thread that inserts does next. -/
inductive Act (Key : Type)
  /-- It calls `Insert` with a key that it finds the place of. -/
  | insert (key : Key)
  /-- It chooses a height with these random numbers and stores `max_height_` if it has to. -/
  | randomHeight (draws : ℕ → ℕ)
  /-- It allocates the node, or does its next store. -/
  | write

section Insertion

variable {Key β : Type} [LinearOrder β] (cmp : Comparator Key β)

/-- The loop of `RandomHeight` at a height, with what is left up to `kMaxHeight_`. -/
def randomHeightFrom (scaled : ℕ) (draws : ℕ → ℕ) (height : ℕ) : ℕ → ℕ
  | 0 => height
  | room + 1 =>
    if draws height < scaled then randomHeightFrom scaled draws (height + 1) room else height

/-- `RandomHeight`, without its assertions. -/
def randomHeight (kMaxHeight scaled : ℕ) (draws : ℕ → ℕ) : ℕ :=
  randomHeightFrom scaled draws 1 (kMaxHeight - 1)

/-- The constructor. `zero` is the key `0` of `head_`; the parameters are cast to 16 bits first. -/
def create (zero : Key) (max_height branching_factor : ℤ) : Option (State Key) :=
  let kMaxHeight : ℕ := (max_height % 2 ^ 16).toNat
  let kBranching : ℕ := (branching_factor % 2 ^ 16).toNat
  -- A branching factor that is cast to zero is divided by before any assertion.
  if kBranching = 0 then none
  else do
    assert_ (some (decide (0 < max_height ∧ kMaxHeight = max_height)))
    assert_ (some (decide (0 < branching_factor ∧ kBranching = branching_factor)))
    assert_ (some (decide (0 < 0xffffffff / kBranching)))
    return {
      mem := {
        kMaxHeight := kMaxHeight
        kBranching := kBranching
        key := fun n => if n = head_ then some zero else none
        height := fun n => if n = head_ then kMaxHeight else 0
        next_ := fun n i => if n = head_ ∧ i < kMaxHeight then some none else none
        max_height := 1 }
      kScaledInverseBranching := 0xffffffff / kBranching
      prev := fun _ => head_
      prev_height := 1
      count := 1
      pc := .idle }

namespace State

variable (s : State Key)

/-- `FindLessThan` by the thread that inserts, which nobody disturbs. -/
def searchLessThan (key : Key) (prev : Option (ℕ → Node)) : Option (Node × Option (ℕ → Node)) :=
  search (findLessThan cmp key s.mem) (s.count + s.mem.max_height + 1)
    (.start s.mem.getMaxHeight, prev)

/-- The condition of the fast path of `Insert`. -/
def fastPath (key : Key) : Option Bool := do
  let next ← s.mem.next (s.prev 0) 0
  let after ← s.mem.keyIsAfterNode cmp key next
  if after then
    return false
  else if s.prev 0 = head_ then
    return true
  else
    s.mem.keyIsAfterNode cmp key (some (s.prev 0))

/-- `prev_` after the loop of the fast path. -/
def fastPrev : ℕ → Node :=
  fun i => if 1 ≤ i ∧ i < s.prev_height then s.prev 0 else s.prev i

/-- The beginning of `Insert`: `prev_` with the predecessors of the key. -/
def locate (key : Key) : Option (ℕ → Node) := do
  let fast ← s.fastPath cmp key
  if fast then
    assert_ (some (decide (s.prev 0 ≠ head_ ∨ (s.prev_height = 1 ∧ s.mem.getMaxHeight = 1))))
    if s.prev_height ≤ s.mem.kMaxHeight then some s.fastPrev else none
  else
    let r ← s.searchLessThan cmp key (some s.prev)
    r.2

/-- The condition of the assertion that the key is not in the list. -/
def notDuplicate (key : Key) (prev : ℕ → Node) : Option Bool := do
  let next ← s.mem.next (prev 0) 0
  match next with
  | none => return true
  | some n =>
    let k ← s.mem.key n
    return decide (cmp.compare_ key k ≠ 0)

/-- `prev_[i]`. -/
def prevAt (i : ℕ) : Option Node := if i < s.mem.kMaxHeight then some (s.prev i) else none

/-- One step of the thread that inserts. -/
def step : Act Key → Option (State Key)
  | .insert key => match s.pc with
    | .idle => do
      let prev ← s.locate cmp key
      assert_ (s.notDuplicate cmp key prev)
      return { s with prev := prev, pc := .located key }
    | _ => none
  | .randomHeight draws => match s.pc with
    | .located key => do
      let height := randomHeight s.mem.kMaxHeight s.kScaledInverseBranching draws
      assert_ (some (decide (0 < height)))
      assert_ (some (decide (height ≤ s.mem.kMaxHeight)))
      if s.mem.getMaxHeight < height then
        return { s with
          prev := fun i => if s.mem.getMaxHeight ≤ i ∧ i < height then head_ else s.prev i
          mem := { s.mem with max_height := height }
          pc := .sized key height }
      else
        return { s with pc := .sized key height }
    | _ => none
  | .write => match s.pc with
    | .sized key height =>
      some { s with
        mem := s.mem.newNode s.count key height
        count := s.count + 1
        pc := .fill s.count height 0 }
    | .fill x height i => do
      let p ← s.prevAt i
      let next ← s.mem.next p i
      let mem ← s.mem.setNext x i next
      return { s with mem := mem, pc := .publish x height i }
    | .publish x height i => do
      let p ← s.prevAt i
      let mem ← s.mem.setNext p i (some x)
      if i + 1 < height then
        return { s with mem := mem, pc := .fill x height (i + 1) }
      else
        return { s with
          mem := mem
          prev := Function.update s.prev 0 x
          prev_height := height
          pc := .idle }
    | _ => none

/-- The stores of the thread that inserts, up to the end of `Insert`. -/
def writes : ℕ → State Key → Option (State Key)
  | 0, s => match s.pc with
    | .idle => some s
    | _ => none
  | n + 1, s => match s.pc with
    | .idle => some s
    | _ => (s.step cmp .write).bind (writes n)

/-- `Insert` from its beginning to its end. -/
protected def insert (key : Key) (draws : ℕ → ℕ) : Option (State Key) := do
  let s ← s.step cmp (.insert key)
  let s ← s.step cmp (.randomHeight draws)
  writes cmp (2 * s.mem.kMaxHeight + 1) s

/-- One `Insert` after another. -/
def insertAll (s : State Key) : List (Key × (ℕ → ℕ)) → Option (State Key)
  | [] => some s
  | (key, draws) :: rest => (s.insert cmp key draws).bind fun s => insertAll s rest

end State

end Insertion

end CPStudy.SkipList
