import Mathlib.Data.Fintype.Sum
import Mathlib.Logic.Function.Basic
import CPStudy.Lib.Transition

/-!
# The C++ thread pool of `1_CPBase/threadPool/tp.cpp`

`ThreadPool` as a transition system over `n` workers and a type `P` of outside threads that call
`enqueue`. A step is what one thread does between two points at which others can interfere. The
sections under `queue_mutex` are one step each, since every access to `tasks` and `stop` is made
under that mutex; `condition.wait(lock, pred)` is split at its wait, and the push and the
`notify_one` of `enqueue` are two steps. A task may itself call `enqueue`, so a worker that runs
one has an `enqueue` program point as an outside thread has.

A packaged task is named by the `enqueue` call that made it, a number that no other call gets. The
fields `pushed`, `invoked`, `futures` and `thrown` are history: no step reads them.
-/

namespace CPStudy.ThreadPool

open Function (update)

/-- The `enqueue` call that made a packaged task. -/
abbrev TaskId := ℕ

/-- Where a worker stands in the loop that the constructor gives it. -/
inductive WorkerPc
  /-- Before `std::unique_lock<std::mutex> lock(this->queue_mutex)`. -/
  | lock
  /-- Asleep in `condition.wait`, not notified. -/
  | waiting
  /-- Notified in `condition.wait`, the mutex not yet re-acquired. -/
  | notified
  /-- The task is moved out of the queue and the mutex released, before `task()`. -/
  | holding (task : TaskId)
  /-- Inside `task()`. -/
  | running (task : TaskId)
  /-- After `return`. -/
  | returned
deriving DecidableEq

/-- Where a thread stands in `enqueue`. -/
inductive EnqueuePc
  /-- Not in `enqueue`. -/
  | idle
  /-- The packaged task and its future are made, before the lock. -/
  | lock (task : TaskId)
  /-- The task is pushed and the mutex released, before `condition.notify_one()`. -/
  | notify (task : TaskId)
deriving DecidableEq

/-- Where the destructor stands. -/
inductive DtorPc
  /-- Before the section that sets `stop`. -/
  | notStarted
  /-- Before `condition.notify_all()`. -/
  | notifyAll
  /-- Before `workers[i].join()`. -/
  | join (i : ℕ)
  /-- After every join. -/
  | returned
deriving DecidableEq

/-- The threads that may call `enqueue`: the workers, from inside a task, and outside threads. -/
abbrev Thread (n : ℕ) (P : Type*) := Fin n ⊕ P

/-- A state of the pool and of every thread that uses it. -/
structure State (n : ℕ) (P : Type*) where
  /-- `tasks`, front first. -/
  tasks : List TaskId
  /-- `stop`. -/
  stop : Bool
  /-- The worker threads. -/
  worker : Fin n → WorkerPc
  /-- The `enqueue` calls in progress. -/
  call : Thread n P → EnqueuePc
  /-- The destructor. -/
  dtor : DtorPc
  /-- The name that the next `enqueue` call gets. -/
  nextId : TaskId
  /-- The tasks pushed so far, in order. -/
  pushed : List TaskId
  /-- The packaged tasks invoked so far. -/
  invoked : List TaskId
  /-- The `enqueue` calls that have returned a future. -/
  futures : List TaskId
  /-- The `enqueue` calls that have thrown. -/
  thrown : List TaskId

variable {n : ℕ} {P : Type*}

/-- The pool that the constructor makes: `stop(false)` and every worker at the top of its loop. -/
def State.init (n : ℕ) (P : Type*) : State n P where
  tasks := []
  stop := false
  worker := fun _ => .lock
  call := fun _ => .idle
  dtor := .notStarted
  nextId := 0
  pushed := []
  invoked := []
  futures := []
  thrown := []

/-- What a thread does next. -/
inductive Action (n : ℕ) (P : Type*)
  /-- The next step of a worker. -/
  | work (w : Fin n)
  /-- A spurious wake-up. -/
  | spurious (w : Fin n)
  /-- The thread calls `enqueue`, up to the lock. -/
  | enqueue (t : Thread n P)
  /-- The section of `enqueue` under the lock. -/
  | push (t : Thread n P)
  /-- `notify_one`, with the worker it wakes. -/
  | notify (t : Thread n P) (w : Option (Fin n))
  /-- The next step of the destructor. -/
  | dtor

/-- The section of the worker loop under the lock, from the test of the wait's predicate: it ends
in the wait, in the return, or with the front of the queue in hand. -/
def criticalSection (s : State n P) (w : Fin n) : State n P :=
  match s.tasks with
  | [] =>
    if s.stop then { s with worker := update s.worker w .returned }
    else { s with worker := update s.worker w .waiting }
  -- A queued task is taken whether or not `stop` is set.
  | task :: rest => { s with tasks := rest, worker := update s.worker w (.holding task) }

variable [DecidableEq P]

/-- A step of the worker loop. -/
def stepWorker (s : State n P) (w : Fin n) : Option (State n P) :=
  match s.worker w with
  | .lock => some (criticalSection s w)
  | .waiting => none
  | .notified => some (criticalSection s w)
  | .holding task =>
    some { s with worker := update s.worker w (.running task), invoked := s.invoked ++ [task] }
  -- The task returns when no `enqueue` that it has called is in progress.
  | .running _ =>
    if s.call (.inl w) = .idle then some { s with worker := update s.worker w .lock } else none
  | .returned => none

/-- A worker calls `enqueue` only from inside a task. -/
def mayCall (s : State n P) : Thread n P → Bool
  | .inl w => match s.worker w with
    | .running _ => true
    | _ => false
  | .inr _ => true

/-- `enqueue` up to the lock: the packaged task and its future are made. -/
def beginEnqueue (s : State n P) (t : Thread n P) : Option (State n P) :=
  if s.call t = .idle ∧ mayCall s t = true then
    some { s with call := update s.call t (.lock s.nextId), nextId := s.nextId + 1 }
  else none

/-- The section of `enqueue` under the lock: it throws when `stop` is set and pushes otherwise. -/
def pushTask (s : State n P) (t : Thread n P) : Option (State n P) :=
  match s.call t with
  | .lock task =>
    if s.stop then
      some { s with call := update s.call t .idle, thrown := s.thrown ++ [task] }
    else
      some { s with
        tasks := s.tasks ++ [task]
        pushed := s.pushed ++ [task]
        call := update s.call t (.notify task) }
  | _ => none

/-- `condition.notify_one()` and the return of the future. It wakes the waiting worker that the
action names, and nobody only where nobody waits. -/
def notifyOne (s : State n P) (t : Thread n P) (w : Option (Fin n)) : Option (State n P) :=
  match s.call t with
  | .notify task =>
    let done := { s with call := update s.call t .idle, futures := s.futures ++ [task] }
    match w with
    | some w =>
      if s.worker w = .waiting then
        some { done with worker := update s.worker w .notified }
      else none
    | none => if ∀ w, s.worker w ≠ .waiting then some done else none
  | _ => none

/-- A step of the destructor. -/
def stepDtor (s : State n P) : Option (State n P) :=
  match s.dtor with
  -- `stop` is set under the lock, and `notify_all` comes after it.
  | .notStarted => some { s with stop := true, dtor := .notifyAll }
  | .notifyAll =>
    some { s with
      worker := fun w => if s.worker w = .waiting then .notified else s.worker w
      dtor := .join 0 }
  | .join i =>
    if h : i < n then
      if s.worker ⟨i, h⟩ = .returned then some { s with dtor := .join (i + 1) } else none
    else some { s with dtor := .returned }
  | .returned => none

/-- A step of the system. -/
def step (s : State n P) : Action n P → Option (State n P)
  | .work w => stepWorker s w
  | .spurious w =>
    if s.worker w = .waiting then some { s with worker := update s.worker w .notified } else none
  | .enqueue t => beginEnqueue s t
  | .push t => pushTask s t
  | .notify t w => notifyOne s t w
  | .dtor => stepDtor s

/-- A state that some run of the pool reaches. -/
def Reachable (s : State n P) : Prop :=
  Lib.Reaches step (fun _ _ => True) (State.init n P) s

/-- A state that a list of actions leads to is reachable. -/
theorem exists_reachable (as : List (Action n P)) (p : State n P → Bool)
    (h : (Lib.replay step (fun _ _ => true) (State.init n P) as).any p = true) :
    ∃ s, Reachable s ∧ p s = true := by
  obtain ⟨s, hs, hp⟩ := Lib.exists_reaches step (fun _ _ => true) (State.init n P) as p h
  exact ⟨s, hs.mono fun _ _ _ => trivial, hp⟩

end CPStudy.ThreadPool
