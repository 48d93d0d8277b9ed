import Mathlib.Data.Fintype.Basic
import Mathlib.Logic.Function.Basic
import CPStudy.Lib.Transition

/-!
# The producer-consumer queue of `3_pool/queue_design-master/ProducerConsumerQueue.h`

`ProducerConsumerQueue<T>` as a transition system over a type `ι` of threads, any of which may call
`Push`, `Pop`, `WaitAndPop` and `Cancel`. Every member function holds `_queueLock` from its first
line to its return, but for the wait of `WaitAndPop`, so a call is one step, and a `WaitAndPop` that
waits is one step up to the wait and one from each wake-up on.

A value in the queue is kept with the number of the `Push` that put it there, so that two pushes of
equal values stay apart. The fields `pushed`, `delivered`, `deleted` and `cancels` are history: no
step's outcome depends on them, but for the number that the next `Push` gets.

`Effect s s'` lists the changes that a step can make, with what the code has tested before each;
every invariant is proved by cases on it.
-/

namespace CPStudy.ProducerConsumerQueue

open Function (update)

/-- A value in the queue and the number of its `Push`. -/
abbrev Item (T : Type*) := T × ℕ

/-- Where a thread stands. -/
inductive ThreadPc
  /-- Not in a call. -/
  | idle
  /-- Asleep in `_condition.wait(lock)`, not notified. -/
  | waiting
  /-- Notified in `_condition.wait(lock)`, the lock not yet re-acquired. -/
  | notified
deriving DecidableEq

/-- A state of the queue and of every thread that uses it. -/
structure State (ι T : Type*) where
  /-- `_queue`, front first. -/
  queue : List (Item T)
  /-- `_shutdown`. -/
  shutdown : Bool
  /-- The threads. -/
  thread : ι → ThreadPc
  /-- The values pushed so far, in order. -/
  pushed : List T
  /-- What `Pop` and `WaitAndPop` have delivered, in order, each with the thread it went to. -/
  delivered : List (Item T × ι)
  /-- What `DeleteQueuedObject` has been called with, in order. -/
  deleted : List (Item T)
  /-- The number of calls of `Cancel` that have returned. -/
  cancels : ℕ

variable {ι T : Type*}

/-- The queue that the constructor makes, with every thread outside. -/
def State.init (ι T : Type*) : State ι T where
  queue := []
  shutdown := false
  thread := fun _ => .idle
  pushed := []
  delivered := []
  deleted := []
  cancels := 0

/-- What a thread does next. -/
inductive Action (ι T : Type*)
  /-- `Push(value)`, with the waiter that its `notify_one` wakes. -/
  | push (t : ι) (value : T) (w : Option ι)
  /-- `Pop`. -/
  | pop (t : ι)
  /-- `WaitAndPop`, up to its return or its wait. -/
  | waitAndPop (t : ι)
  /-- A notified thread re-acquires the lock in `_condition.wait`. -/
  | wake (t : ι)
  /-- `Cancel`. -/
  | cancel (t : ι)
  /-- A spurious wake-up. -/
  | spurious (t : ι)

/-- The end of `Pop` and of `WaitAndPop`: nothing is delivered when `_queue.empty() || _shutdown`,
and the front of the queue otherwise. -/
def takeFront (s : State ι T) (t : ι) : State ι T :=
  match s.queue with
  | [] => s
  | item :: rest =>
    -- `Push` tests no flag, so that the queue may hold values here with `_shutdown` set.
    if s.shutdown then s
    else { s with queue := rest, delivered := s.delivered ++ [(item, t)] }

/-- The loop of `Cancel`, `while (!_queue.empty())`, on the queue and the objects deleted so
far. -/
def deleteAll : List (Item T) → List (Item T) → List (Item T) × List (Item T)
  | [], deleted => ([], deleted)
  | item :: rest, deleted => deleteAll rest (deleted ++ [item])

variable [DecidableEq ι]

/-- `WaitAndPop` from the test of its `while`: it ends in the wait or runs to the return. -/
def waitSection (s : State ι T) (t : ι) : State ι T :=
  if s.queue.isEmpty && !s.shutdown then { s with thread := update s.thread t .waiting }
  else takeFront { s with thread := update s.thread t .idle } t

/-- `_condition.notify_one()`. It wakes the waiting thread that the action names, and nobody only
where nobody waits. -/
def notifyOne [Fintype ι] (s : State ι T) (w : Option ι) : Option (State ι T) :=
  match w with
  | some w =>
    if s.thread w = .waiting then some { s with thread := update s.thread w .notified } else none
  | none => if ∀ w, s.thread w ≠ .waiting then some s else none

/-- `Push`. -/
def push [Fintype ι] (s : State ι T) (value : T) (w : Option ι) : Option (State ι T) :=
  notifyOne { s with
    queue := s.queue ++ [(value, s.pushed.length)]
    pushed := s.pushed ++ [value] } w

omit [DecidableEq ι] in
/-- `Cancel`, with its `_condition.notify_all()`. -/
def cancel (s : State ι T) : State ι T :=
  let (queue, deleted) := deleteAll s.queue s.deleted
  { s with
    queue := queue
    deleted := deleted
    shutdown := true
    -- `notify_all` wakes every waiter; each still has to re-acquire the lock.
    thread := fun t => if s.thread t = .waiting then .notified else s.thread t
    cancels := s.cancels + 1 }

/-- A step of the system. -/
def step [Fintype ι] (s : State ι T) : Action ι T → Option (State ι T)
  -- No test of `_shutdown`.
  | .push t value w => if s.thread t = .idle then push s value w else none
  | .pop t => if s.thread t = .idle then some (takeFront s t) else none
  | .waitAndPop t => if s.thread t = .idle then some (waitSection s t) else none
  | .wake t => if s.thread t = .notified then some (waitSection s t) else none
  | .cancel t => if s.thread t = .idle then some (cancel s) else none
  | .spurious t =>
    if s.thread t = .waiting then some { s with thread := update s.thread t .notified } else none

omit [DecidableEq ι] in
/-- The loop of `Cancel` ends with the queue empty and each of its values deleted once. -/
theorem deleteAll_eq (queue deleted : List (Item T)) :
    deleteAll queue deleted = ([], deleted ++ queue) := by
  induction queue generalizing deleted with
  | nil => simp [deleteAll]
  | cons item rest ih => simp [deleteAll, ih]

/-- The changes a step can make. -/
inductive Effect (s : State ι T) : State ι T → Prop
  /-- `Push` wakes a waiter. -/
  | pushWake (value : T) (w : ι) (hw : s.thread w = .waiting) :
      Effect s { s with
        queue := s.queue ++ [(value, s.pushed.length)]
        pushed := s.pushed ++ [value]
        thread := update s.thread w .notified }
  /-- `Push` finds nobody waiting. -/
  | pushLost (value : T) (hw : ∀ w, s.thread w ≠ .waiting) :
      Effect s { s with
        queue := s.queue ++ [(value, s.pushed.length)]
        pushed := s.pushed ++ [value] }
  /-- `Pop` delivers the front of the queue. -/
  | pop (t : ι) (item : Item T) (rest : List (Item T)) (ht : s.thread t = .idle)
      (hq : s.queue = item :: rest) (hs : s.shutdown = false) :
      Effect s { s with queue := rest, delivered := s.delivered ++ [(item, t)] }
  /-- `Pop` returns `false`. -/
  | popNone (hq : s.queue = [] ∨ s.shutdown = true) : Effect s s
  /-- `WaitAndPop` finds the queue empty and waits. -/
  | wait (t : ι) (ht : s.thread t = .idle ∨ s.thread t = .notified) (hq : s.queue = [])
      (hs : s.shutdown = false) : Effect s { s with thread := update s.thread t .waiting }
  /-- `WaitAndPop` delivers the front of the queue. -/
  | take (t : ι) (item : Item T) (rest : List (Item T))
      (ht : s.thread t = .idle ∨ s.thread t = .notified) (hq : s.queue = item :: rest)
      (hs : s.shutdown = false) :
      Effect s { s with
        queue := rest
        delivered := s.delivered ++ [(item, t)]
        thread := update s.thread t .idle }
  /-- `WaitAndPop` returns without a value. -/
  | leave (t : ι) (ht : s.thread t = .idle ∨ s.thread t = .notified) (hs : s.shutdown = true) :
      Effect s { s with thread := update s.thread t .idle }
  /-- `Cancel`. -/
  | cancel :
      Effect s { s with
        queue := []
        deleted := s.deleted ++ s.queue
        shutdown := true
        thread := fun t => if s.thread t = .waiting then .notified else s.thread t
        cancels := s.cancels + 1 }
  /-- A waiting thread wakes up spuriously. -/
  | spurious (t : ι) (ht : s.thread t = .waiting) :
      Effect s { s with thread := update s.thread t .notified }

/-- `WaitAndPop` from the test of its `while` waits, delivers or returns without a value. -/
theorem effect_waitSection {s : State ι T} {t : ι}
    (ht : s.thread t = .idle ∨ s.thread t = .notified) : Effect s (waitSection s t) := by
  unfold waitSection
  split
  case isTrue hw =>
    simp only [Bool.and_eq_true, List.isEmpty_iff, Bool.not_eq_true'] at hw
    exact .wait t ht hw.1 hw.2
  case isFalse hw =>
    unfold takeFront
    dsimp only
    split
    case h_1 hq =>
      -- The queue is empty, so that only `_shutdown` has ended the loop.
      have hs : s.shutdown = true := by simpa [hq] using hw
      exact .leave t ht hs
    case h_2 item rest hq =>
      split
      case isTrue hs => exact .leave t ht hs
      case isFalse hs => exact .take t item rest ht hq (by simpa using hs)

/-- `Pop` delivers the front of the queue or nothing. -/
theorem effect_takeFront {s : State ι T} {t : ι} (ht : s.thread t = .idle) :
    Effect s (takeFront s t) := by
  unfold takeFront
  split
  case h_1 hq => exact .popNone (.inl hq)
  case h_2 item rest hq =>
    split
    case isTrue hs => exact .popNone (.inr hs)
    case isFalse hs => exact .pop t item rest ht hq (by simpa using hs)

variable [Fintype ι]

/-- `Push` wakes a waiter or finds nobody waiting. -/
theorem effect_push {s s' : State ι T} {value : T} {w : Option ι} (h : push s value w = some s') :
    Effect s s' := by
  unfold push notifyOne at h
  cases w with
  | some w =>
    dsimp only at h
    split at h
    case isTrue hw => exact Option.some.inj h ▸ .pushWake value w hw
    case isFalse => cases h
  | none =>
    dsimp only at h
    split at h
    case isTrue hw => exact Option.some.inj h ▸ .pushLost value hw
    case isFalse => cases h

/-- Every step has one of the effects. -/
theorem effect_of_step {s s' : State ι T} {a : Action ι T} (h : step s a = some s') :
    Effect s s' := by
  cases a with
  | push t value w =>
    obtain ⟨-, h⟩ := Option.ite_none_right_eq_some.mp h
    exact effect_push h
  | pop t =>
    obtain ⟨ht, h⟩ := Option.ite_none_right_eq_some.mp h
    exact Option.some.inj h ▸ effect_takeFront ht
  | waitAndPop t =>
    obtain ⟨ht, h⟩ := Option.ite_none_right_eq_some.mp h
    exact Option.some.inj h ▸ effect_waitSection (.inl ht)
  | wake t =>
    obtain ⟨ht, h⟩ := Option.ite_none_right_eq_some.mp h
    exact Option.some.inj h ▸ effect_waitSection (.inr ht)
  | cancel t =>
    obtain ⟨-, h⟩ := Option.ite_none_right_eq_some.mp h
    have heff : Effect s (cancel s) := by
      unfold cancel
      rw [deleteAll_eq]
      exact .cancel
    exact Option.some.inj h ▸ heff
  | spurious t =>
    obtain ⟨ht, h⟩ := Option.ite_none_right_eq_some.mp h
    exact Option.some.inj h ▸ .spurious t ht

/-- A state that some run reaches each of whose steps is allowed by `ok`. -/
def ReachableIf (ok : State ι T → Action ι T → Prop) (s : State ι T) : Prop :=
  Lib.Reaches step ok (State.init ι T) s

/-- A state that some run of the queue reaches. -/
def Reachable (s : State ι T) : Prop := ReachableIf (fun _ _ => True) s

/-- What every effect preserves from the initial state holds in every reachable state. -/
theorem Reachable.invariant (I : State ι T → Prop) {s : State ι T} (hs : Reachable s)
    (h0 : I (State.init ι T)) (hI : ∀ t u, I t → Effect t u → I u) : I s :=
  Lib.Reaches.invariant h0 (fun _ _ _ ht _ hstep => hI _ _ ht (effect_of_step hstep)) hs

/-- A run under a discipline is a run. -/
theorem ReachableIf.reachable {ok : State ι T → Action ι T → Prop} {s : State ι T}
    (h : ReachableIf ok s) : Reachable s :=
  Lib.Reaches.mono (fun _ _ _ => trivial) h

/-- A state that a list of actions allowed by `okb` leads to is reachable under it. -/
theorem exists_reachable (okb : State ι T → Action ι T → Bool) (as : List (Action ι T))
    (p : State ι T → Bool) (h : (Lib.replay step okb (State.init ι T) as).any p = true) :
    ∃ s : State ι T, ReachableIf (fun s a => okb s a = true) s ∧ p s = true :=
  Lib.exists_reaches step okb (State.init ι T) as p h

end CPStudy.ProducerConsumerQueue
