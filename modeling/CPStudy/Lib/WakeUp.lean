import Mathlib.Tactic.Common

/-!
# Wake-up accounting of a condition variable

Threads take work items out of a shared pool and sleep on a condition variable when there are
none; whoever adds an item notifies the variable afterwards. A `Board` keeps four numbers: the
items, the notifications that are still to be made for items already added, the threads that were
notified and have not yet looked at the pool again, and the threads asleep that nobody notified.
`Board.Move` is what the parties of such a protocol can do to the numbers. No item is left to a
thread that nobody will wake: `Board.Covered` is kept by every move.
-/

namespace CPStudy.Lib

/-- The numbers that decide whether a sleeping thread is needed. -/
@[ext]
structure Board where
  /-- The items in the pool. -/
  work : ℕ
  /-- The notifications still to be made for items already added. -/
  pending : ℕ
  /-- The notified threads that have not yet looked at the pool. -/
  woken : ℕ
  /-- The threads asleep and not notified. -/
  asleep : ℕ

/-- One step of one party, as the numbers before and after it. -/
inductive Board.Move (b b' : Board) : Prop
  /-- An item is added; its notification is to follow. -/
  | push (hw : b'.work = b.work + 1) (hp : b'.pending = b.pending + 1) (hk : b'.woken = b.woken)
      (ha : b'.asleep = b.asleep)
  /-- A notification wakes one sleeping thread. -/
  | notify (hw : b'.work = b.work) (hp : b'.pending + 1 = b.pending)
      (hk : b'.woken = b.woken + 1) (ha : b'.asleep + 1 = b.asleep)
  /-- A notification is lost, since nobody sleeps. -/
  | lost (hw : b'.work = b.work) (hp : b'.pending + 1 = b.pending) (hk : b'.woken = b.woken)
      (ha : b.asleep = 0) (ha' : b'.asleep = 0)
  /-- A thread takes an item; it may have been a notified one. -/
  | take (hw : b'.work + 1 = b.work) (hp : b'.pending = b.pending)
      (hk : b'.woken ≤ b.woken ∧ b.woken ≤ b'.woken + 1) (ha : b'.asleep = b.asleep)
  /-- A thread finds no item and falls asleep; it may have been a notified one. -/
  | sleep (hw : b.work = 0) (hw' : b'.work = 0) (hp : b'.pending = b.pending)
      (hk : b'.woken ≤ b.woken ∧ b.woken ≤ b'.woken + 1) (ha : b'.asleep = b.asleep + 1)
  /-- A thread finds no item and leaves; it may have been a notified one. -/
  | leave (hw : b.work = 0) (hw' : b'.work = 0) (hp : b'.pending = b.pending)
      (hk : b'.woken ≤ b.woken ∧ b.woken ≤ b'.woken + 1) (ha : b'.asleep = b.asleep)
  /-- Everybody asleep is notified. -/
  | notifyAll (hw : b'.work ≤ b.work) (hp : b'.pending = b.pending)
      (hk : b'.woken = b.woken + b.asleep) (ha : b'.asleep = 0)
  /-- A thread wakes up although nobody notified it. -/
  | spurious (hw : b'.work = b.work) (hp : b'.pending = b.pending)
      (hk : b'.woken = b.woken + 1) (ha : b'.asleep + 1 = b.asleep)

/-- While anybody sleeps, every item has a notification to come or a notified thread on its way. -/
def Board.Covered (b : Board) : Prop := b.asleep ≠ 0 → b.work ≤ b.woken + b.pending

/-- Every move keeps the items covered. -/
theorem Board.Move.covered {b b' : Board} (h : Board.Move b b') (hb : b.Covered) : b'.Covered := by
  unfold Board.Covered at *
  cases h <;> omega

end CPStudy.Lib
