import CPStudy.Lib.CriticalSection

/-!
# The locked queue of `LockedQueue.h`

A `std::deque` with a flag behind a mutex. Each operation locks the mutex, accesses the deque and
unlocks the mutex; `peek` without `autoUnlock` leaves it locked until the caller, who has a
reference to the front item, calls `unlock`, so that the two calls are one operation here with what
the caller does to the item in between. The threads are those of a type `ι` and the items those of
a type `T`.

`code` is what the operations do step by step, and `effect` what they do at once. The functions of
`std::deque` are not defined on an empty one where they access the front item.
-/

namespace CPStudy.LockedQueue

open Lib (Code CriticalSection.State CriticalSection.Action)

variable {ι T : Type*}

/-- A locked queue without the mutex. -/
structure Queue (T : Type*) where
  /-- `_queue`, the front first. -/
  queue : List T
  /-- `_canceled`. -/
  canceled : Bool

/-- `LockedQueue()`. -/
def Queue.init : Queue T := ⟨[], false⟩

/-- A call of an operation. -/
inductive Op (T : Type*)
  /-- `add(item)`. -/
  | add (item : T)
  /-- `readd(begin, end)` with these items between the iterators. -/
  | readd (items : List T)
  /-- `next(result)`. -/
  | next
  /-- `next(result, check)` with this `check.Process`. -/
  | nextCheck (check : T → Bool)
  /-- `peek(true)`. -/
  | peek
  /-- `peek(false)` and `unlock()`, with this change to the item in between. -/
  | peekUnlock (change : T → T)
  /-- `cancel()`. -/
  | cancel
  /-- `cancelled()`. -/
  | cancelled
  /-- `pop_front()`. -/
  | popFront
  /-- `empty()`. -/
  | empty

/-- What an operation returns. -/
inductive Result (T : Type*)
  /-- Nothing. -/
  | unit
  /-- A `bool`. -/
  | bool (b : Bool)
  /-- A `bool`, and what has been assigned to `result` if anything has. -/
  | item (b : Bool) (result : Option T)
  /-- A reference to this item. -/
  | ref (x : T)
  /-- Nothing, and this item was destroyed. -/
  | popped (x : T)

/-- `_queue.empty()`. -/
def isEmpty (k : Bool → Code (Queue T) (Result T)) : Code (Queue T) (Result T) :=
  .act id fun q => k q.queue.isEmpty

/-- `_queue.front()`. -/
def front (k : T → Code (Queue T) (Result T)) : Code (Queue T) (Result T) :=
  .act id fun q => match q.queue with
    | x :: _ => k x
    | [] => .undefined

/-- `_queue.pop_front()`. -/
def dequePopFront (k : T → Code (Queue T) (Result T)) : Code (Queue T) (Result T) :=
  .act (fun q => { q with queue := q.queue.tail }) fun q => match q.queue with
    | x :: _ => k x
    | [] => .undefined

/-- What an operation does between `lock` and `unlock`. -/
def code : Op T → Code (Queue T) (Result T)
  | .add item => .act (fun q => { q with queue := q.queue ++ [item] }) fun _ => .ret .unit
  | .readd items => .act (fun q => { q with queue := items ++ q.queue }) fun _ => .ret .unit
  | .next => isEmpty fun e =>
    if e then .ret (.item false none)
    else front fun x => dequePopFront fun _ => .ret (.item true (some x))
  | .nextCheck check => isEmpty fun e =>
    if e then .ret (.item false none)
    else front fun x =>
      if check x then dequePopFront fun _ => .ret (.item true (some x))
      else .ret (.item false (some x))
  | .peek => front fun x => .ret (.ref x)
  | .peekUnlock change => front fun x =>
    .act (fun q => { q with queue := change x :: q.queue.tail }) fun _ => .ret (.ref x)
  | .cancel => .act (fun q => { q with canceled := true }) fun _ => .ret .unit
  | .cancelled => .act id fun q => .ret (.bool q.canceled)
  | .popFront => dequePopFront fun x => .ret (.popped x)
  | .empty => isEmpty fun e => .ret (.bool e)

/-- What an operation does to the queue, and what it returns. -/
def effect : Op T → Queue T → Option (Queue T × Result T)
  | .add item, ⟨q, c⟩ => some (⟨q ++ [item], c⟩, .unit)
  | .readd items, ⟨q, c⟩ => some (⟨items ++ q, c⟩, .unit)
  | .next, ⟨[], c⟩ => some (⟨[], c⟩, .item false none)
  | .next, ⟨x :: q, c⟩ => some (⟨q, c⟩, .item true (some x))
  | .nextCheck _, ⟨[], c⟩ => some (⟨[], c⟩, .item false none)
  | .nextCheck check, ⟨x :: q, c⟩ =>
    some (⟨if check x then q else x :: q, c⟩, .item (check x) (some x))
  | .peek, ⟨[], _⟩ => none
  | .peek, ⟨x :: q, c⟩ => some (⟨x :: q, c⟩, .ref x)
  | .peekUnlock _, ⟨[], _⟩ => none
  | .peekUnlock change, ⟨x :: q, c⟩ => some (⟨change x :: q, c⟩, .ref x)
  | .cancel, ⟨q, _⟩ => some (⟨q, true⟩, .unit)
  | .cancelled, ⟨q, c⟩ => some (⟨q, c⟩, .bool c)
  | .popFront, ⟨[], _⟩ => none
  | .popFront, ⟨x :: q, c⟩ => some (⟨q, c⟩, .popped x)
  | .empty, ⟨q, c⟩ => some (⟨q, c⟩, .bool q.isEmpty)

/-- An operation that nobody interrupts does what it does at once. -/
theorem run_code (op : Op T) (q : Queue T) : (code op).run q = effect op q := by
  obtain ⟨l, c⟩ := q
  cases op with
  | add item => rfl
  | readd items => rfl
  | next => cases l <;> rfl
  | nextCheck check =>
    cases l with
    | nil => rfl
    | cons x l =>
      dsimp only [code, isEmpty, front, effect, Code.run, List.isEmpty]
      cases hx : check x <;> simp [Code.run, dequePopFront, hx]
  | peek => cases l <;> rfl
  | peekUnlock change => cases l <;> rfl
  | cancel => rfl
  | cancelled => rfl
  | popFront => cases l <;> rfl
  | empty => rfl

/-- A state of the queue and of its users. -/
abbrev State (ι T : Type*) := CriticalSection.State ι (Queue T) (Op T) (Result T)

/-- A finished call: the thread, the operation and the result. -/
abbrev Entry (ι T : Type*) := ι × Op T × Result T

/-- The item that a call has put at the back. -/
def added : Entry ι T → Option T
  | (_, .add x, _) => some x
  | _ => none

/-- The item that a call has taken from the front. -/
def taken : Entry ι T → Option T
  | (_, _, .item true x) => x
  | (_, _, .popped x) => some x
  | _ => none

end CPStudy.LockedQueue
