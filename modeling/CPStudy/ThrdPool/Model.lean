import Mathlib.Data.Fintype.Basic
import CPStudy.Lib.Transition
import CPStudy.ThrdPool.TaskQueue

/-!
# The C thread pool of `thread_pool-master/thrd_pool.c`

`thrdpool_t` as a transition system over `n` workers and a type `P` of other threads. A step is
what one thread does between two points at which others can interfere: the sections of
`__add_task` and `__pop_task` under the spinlock are one step each; locking the mutex, what is
done under it and unlocking it are separate steps; `pthread_cond_wait` releases the mutex and
starts to wait in one step, and re-acquires the mutex in a later one. The handler of a task may
itself call `thrdpool_post` and `thrdpool_terminate`, so a worker that runs one has a program point
in these calls as any other thread has. `thrdpool_waitdone` is called once, by a thread that makes
no other call meanwhile.

`malloc` hands out any address that is not allocated, with any content, or fails. An access to
freed memory has no defined result: the step that would make it is not there.

A call of `thrdpool_post` is named by its number. The names and the fields from `posts` on are
history: no step reads them.
-/

namespace CPStudy.ThrdPool

open Function (update)

/-- A call of `thrdpool_post`. -/
abbrev PostId := ℕ

/-- Where a worker stands in `__thrdpool_worker` and `__get_task`. -/
inductive WorkerPc (A H X : Type*)
  /-- Before `atomic_load(&pool->quit)`. -/
  | quitTest
  /-- Before `__pop_task`. -/
  | popTask
  /-- `__pop_task` has returned `NULL`, before `pthread_mutex_lock`. -/
  | lock
  /-- With the mutex, before the test of `block`. -/
  | blockTest
  /-- With the mutex, `block` read as 0, before `pthread_mutex_unlock`. -/
  | unlockNull
  /-- With the mutex, `block` read as 1, before `pthread_cond_wait`. -/
  | condWait
  /-- Waiting on `cond`, not signalled. -/
  | waiting
  /-- Signalled, the mutex not yet re-acquired. -/
  | woken
  /-- With the mutex, after the wait, before `pthread_mutex_unlock`. -/
  | unlock
  /-- With a task, before its `func` and `arg` are read. -/
  | held (post : PostId) (task : A)
  /-- Before `free(task)`. -/
  | loaded (post : PostId) (task : A) (func : H) (ctx : X)
  /-- Before `func(ctx)`. -/
  | ready (post : PostId) (func : H) (ctx : X)
  /-- Inside `func(ctx)`. -/
  | running (post : PostId)
  /-- After the return of `__thrdpool_worker`. -/
  | exited

/-- Where a thread stands in `thrdpool_post` or `thrdpool_terminate`. -/
inductive CallPc (A H X : Type*)
  /-- In neither. -/
  | idle
  /-- In `thrdpool_post`, before `atomic_load(&pool->quit)`. -/
  | postQuit (post : PostId) (func : H) (arg : X)
  /-- Before `malloc`. -/
  | postMalloc (post : PostId) (func : H) (arg : X)
  /-- The task is filled in, before the section of `__add_task` under the spinlock. -/
  | postAppend (post : PostId) (task : A)
  /-- The task is in the queue, before `pthread_cond_signal`. -/
  | postSignal (post : PostId)
  /-- In `thrdpool_terminate`, before `atomic_store(&pool->quit, 1)`. -/
  | termQuit
  /-- In `__nonblock`, before `pthread_mutex_lock`. -/
  | termLock
  /-- With the mutex, before `queue->block = 0`. -/
  | termBlock
  /-- With the mutex, before `pthread_mutex_unlock`. -/
  | termUnlock
  /-- Before `pthread_cond_broadcast`. -/
  | termBroadcast

/-- Where the caller of `thrdpool_waitdone` stands. -/
inductive WaitPc (A : Type*)
  /-- Not yet called. -/
  | notCalled
  /-- Before `pthread_join(pool->threads[i], NULL)`, or at the end of this loop. -/
  | join (i : ℕ)
  /-- In `__taskqueue_destroy`, before `__pop_task`. -/
  | drain
  /-- Before `free(task)`. -/
  | freeTask (post : PostId) (task : A)
  /-- Before the locks are destroyed and the queue is freed. -/
  | destroy
  /-- After `__taskqueue_destroy`, before the pool is freed. -/
  | freePool
  /-- `thrdpool_waitdone` has returned. -/
  | returned

/-- The threads that may call `thrdpool_post` and `thrdpool_terminate`: the workers, from inside a
handler, and the other threads. -/
abbrev Thread (n : ℕ) (P : Type*) := Fin n ⊕ P

/-- A state of the pool and of every thread that uses it. -/
structure State (n : ℕ) (P A H X : Type*) where
  /-- `head` and `tail` of the task queue, and the memory of the tasks. -/
  queue : TaskQueue A H X
  /-- `block`. -/
  block : Bool
  /-- The owner of `mutex`. -/
  owner : Option (Thread n P)
  /-- `quit`. -/
  quit : Bool
  /-- The worker threads. -/
  worker : Fin n → WorkerPc A H X
  /-- The calls of `thrdpool_post` and `thrdpool_terminate` in progress. -/
  call : Thread n P → CallPc A H X
  /-- The call of `thrdpool_waitdone`. -/
  wait : WaitPc A
  /-- What each `thrdpool_post` was called with. -/
  posts : List (H × X)
  /-- What each `thrdpool_post` has returned. -/
  result : PostId → Option ℤ
  /-- The post whose task is at an address. -/
  postOf : A → PostId
  /-- The posts whose tasks were appended to the queue, in order. -/
  appended : List PostId
  /-- The tasks taken out of the queue, in order, by post, with the worker that took each, or with
  `none` for `__taskqueue_destroy`. -/
  popped : List (PostId × Option (Fin n))
  /-- The tasks freed, by post, with the worker that freed each, or with `none` for
  `__taskqueue_destroy`. -/
  freed : List (PostId × Option (Fin n))
  /-- The handlers called, with their arguments. -/
  called : List (PostId × H × X)
  /-- The posts whose handlers have returned. -/
  finished : List PostId
  /-- How many tasks each worker has popped. -/
  pops : Fin n → ℕ
  /-- Some `pthread_cond_broadcast` has run. -/
  broadcasted : Bool

section Predicates

variable {A H X : Type*}

/-- The worker waits on `cond` and is not signalled. -/
def WorkerPc.isWaiting : WorkerPc A H X → Bool
  | .waiting => true
  | _ => false

/-- The worker has left `__thrdpool_worker`. -/
def WorkerPc.isExited : WorkerPc A H X → Bool
  | .exited => true
  | _ => false

/-- The worker is inside a handler. -/
def WorkerPc.isRunning : WorkerPc A H X → Bool
  | .running _ => true
  | _ => false

/-- The thread is in no call. -/
def CallPc.isIdle : CallPc A H X → Bool
  | .idle => true
  | _ => false

/-- `thrdpool_waitdone` is not called yet. -/
def WaitPc.isNotCalled : WaitPc A → Bool
  | .notCalled => true
  | _ => false

/-- `__taskqueue_destroy` has freed the queue. -/
def WaitPc.queueFreed : WaitPc A → Bool
  | .freePool => true
  | .returned => true
  | _ => false

/-- `thrdpool_waitdone` has freed the pool. -/
def WaitPc.poolFreed : WaitPc A → Bool
  | .returned => true
  | _ => false

end Predicates

variable {n : ℕ} {P A H X : Type*}

/-- The pool that `thrdpool_create` makes, with every worker at the start of its loop. -/
def State.init (n : ℕ) (P A H X : Type*) : State n P A H X where
  queue := TaskQueue.create
  block := true
  owner := none
  quit := false
  worker := fun _ => .quitTest
  call := fun _ => .idle
  wait := .notCalled
  posts := []
  result := fun _ => none
  postOf := fun _ => 0
  appended := []
  popped := []
  freed := []
  called := []
  finished := []
  pops := fun _ => 0
  broadcasted := false

/-- What a thread does next. -/
inductive Action (n : ℕ) (P A H X : Type*)
  /-- The next step of a worker. -/
  | work (w : Fin n)
  /-- A spurious wake-up. -/
  | spurious (w : Fin n)
  /-- The thread calls `thrdpool_post`. -/
  | post (t : Thread n P) (func : H) (arg : X)
  /-- `malloc` in `thrdpool_post`, with the address it returns and the content of the first word
  there, or with a failure. -/
  | malloc (t : Thread n P) (block : Option (A × Option A))
  /-- `pthread_cond_signal`, with the worker it wakes. -/
  | signal (t : Thread n P) (w : Option (Fin n))
  /-- The thread calls `thrdpool_terminate`. -/
  | terminate (t : Thread n P)
  /-- The next step of the call that the thread is in, if it is not one of the above. -/
  | call (t : Thread n P)
  /-- `thrdpool_waitdone` is called. -/
  | waitdone
  /-- The next step of `thrdpool_waitdone`. -/
  | wait

/-- `pthread_cond_broadcast`. -/
def wakeAll (worker : Fin n → WorkerPc A H X) (w : Fin n) : WorkerPc A H X :=
  match worker w with
  | .waiting => .woken
  | pc => pc

/-- A thread may make a call when it is in none, a worker only from inside a handler. -/
def mayCall (s : State n P A H X) (t : Thread n P) : Bool :=
  (s.call t).isIdle && match t with
    | .inl w => (s.worker w).isRunning
    | .inr _ => true

variable [DecidableEq A]

/-- A step of a worker. -/
def stepWorker (s : State n P A H X) (w : Fin n) : Option (State n P A H X) :=
  match s.worker w with
  | .quitTest =>
    if s.quit then some { s with worker := update s.worker w .exited }
    else some { s with worker := update s.worker w .popTask }
  | .popTask =>
    match s.queue.popTask with
    | none => none
    | some (_, none) => some { s with worker := update s.worker w .lock }
    | some (queue, some task) => some { s with
        queue := queue
        worker := update s.worker w (.held (s.postOf task) task)
        popped := s.popped ++ [(s.postOf task, some w)]
        pops := update s.pops w (s.pops w + 1) }
  -- A thread that wants the mutex has no step while another has it.
  | .lock =>
    match s.owner with
    | none => some { s with owner := some (.inl w), worker := update s.worker w .blockTest }
    | some _ => none
  | .blockTest =>
    if s.block then some { s with worker := update s.worker w .condWait }
    else some { s with worker := update s.worker w .unlockNull }
  | .unlockNull => some { s with owner := none, worker := update s.worker w .exited }
  | .condWait => some { s with owner := none, worker := update s.worker w .waiting }
  | .waiting => none
  | .woken =>
    match s.owner with
    | none => some { s with owner := some (.inl w), worker := update s.worker w .unlock }
    | some _ => none
  -- Back to the `while` of `__get_task`, whatever the wake-up was for.
  | .unlock => some { s with owner := none, worker := update s.worker w .popTask }
  -- `task->func` and `task->arg` are read before `free(task)`; a freed task cannot be read.
  | .held post task =>
    (s.queue.mem task).map fun t =>
      { s with worker := update s.worker w (.loaded post task t.func t.arg) }
  | .loaded post task func ctx => some { s with
      queue := { s.queue with mem := update s.queue.mem task none }
      worker := update s.worker w (.ready post func ctx)
      freed := s.freed ++ [(post, some w)] }
  | .ready post func ctx => some { s with
      worker := update s.worker w (.running post)
      called := s.called ++ [(post, func, ctx)] }
  -- The handler does not return while a call that it has made is in progress.
  | .running post =>
    if (s.call (.inl w)).isIdle then
      some { s with
        worker := update s.worker w .quitTest
        finished := s.finished ++ [post] }
    else none
  | .exited => none

/-- A step of `thrdpool_waitdone`. -/
def stepWait (s : State n P A H X) : Option (State n P A H X) :=
  match s.wait with
  | .notCalled => none
  | .join i =>
    if h : i < n then
      if (s.worker ⟨i, h⟩).isExited then some { s with wait := .join (i + 1) } else none
    else some { s with wait := .drain }
  | .drain =>
    match s.queue.popTask with
    | none => none
    | some (_, none) => some { s with wait := .destroy }
    | some (queue, some task) => some { s with
        queue := queue
        wait := .freeTask (s.postOf task) task
        popped := s.popped ++ [(s.postOf task, none)] }
  | .freeTask post task => some { s with
      queue := { s.queue with mem := update s.queue.mem task none }
      wait := .drain
      freed := s.freed ++ [(post, none)] }
  | .destroy => some { s with wait := .freePool }
  | .freePool => some { s with wait := .returned }
  | .returned => none

variable [DecidableEq P]

/-- `thrdpool_post` is called. -/
def beginPost (s : State n P A H X) (t : Thread n P) (func : H) (arg : X) :
    Option (State n P A H X) :=
  if mayCall s t then
    some { s with
      call := update s.call t (.postQuit s.posts.length func arg)
      posts := s.posts ++ [(func, arg)] }
  else none

/-- `malloc` in `thrdpool_post`, and the stores that fill the task in. -/
def mallocTask (s : State n P A H X) (t : Thread n P) (block : Option (A × Option A)) :
    Option (State n P A H X) :=
  match s.call t, block with
  | .postMalloc post _ _, none => some { s with
      call := update s.call t .idle
      result := update s.result post (some (-1)) }
  | .postMalloc post func arg, some (task, junk) =>
    -- `malloc` returns an address that is not in use, and `next` keeps what was there.
    match s.queue.mem task with
    | none => some { s with
        queue := { s.queue with mem := update s.queue.mem task (some ⟨junk, func, arg⟩) }
        call := update s.call t (.postAppend post task)
        postOf := update s.postOf task post }
    | some _ => none
  | _, _ => none

/-- `pthread_cond_signal` and the return of `thrdpool_post`. It wakes the waiting worker that the
action names, and nobody only where nobody waits. -/
def signalCond (s : State n P A H X) (t : Thread n P) (w : Option (Fin n)) :
    Option (State n P A H X) :=
  match s.call t with
  | .postSignal post =>
    if s.wait.queueFreed then none
    else
      let done := { s with
        call := update s.call t .idle
        result := update s.result post (some 0) }
      match w with
      | some w =>
        if (s.worker w).isWaiting then some { done with worker := update s.worker w .woken }
        else none
      | none => if ∀ w, (s.worker w).isWaiting = false then some done else none
  | _ => none

/-- `thrdpool_terminate` is called. -/
def beginTerminate (s : State n P A H X) (t : Thread n P) : Option (State n P A H X) :=
  if mayCall s t then some { s with call := update s.call t .termQuit } else none

/-- A step of `thrdpool_post` or `thrdpool_terminate` in which the thread has no choice. -/
def stepCall (s : State n P A H X) (t : Thread n P) : Option (State n P A H X) :=
  match s.call t with
  -- The caller reads the pool, which is gone once `thrdpool_waitdone` has returned.
  | .postQuit post func arg =>
    if s.wait.poolFreed then none
    else if s.quit then
      some { s with
        call := update s.call t .idle
        result := update s.result post (some (-1)) }
    else some { s with call := update s.call t (.postMalloc post func arg) }
  | .postAppend post task =>
    if s.wait.queueFreed then none
    else
      (s.queue.addTask task).map fun queue =>
        { s with
          queue := queue
          call := update s.call t (.postSignal post)
          appended := s.appended ++ [post] }
  | .termQuit =>
    if s.wait.poolFreed then none
    else some { s with quit := true, call := update s.call t .termLock }
  | .termLock =>
    match s.owner with
    | none =>
      if s.wait.queueFreed then none
      else some { s with owner := some t, call := update s.call t .termBlock }
    | some _ => none
  | .termBlock =>
    if s.wait.queueFreed then none
    else some { s with block := false, call := update s.call t .termUnlock }
  | .termUnlock =>
    if s.wait.queueFreed then none
    else some { s with owner := none, call := update s.call t .termBroadcast }
  | .termBroadcast =>
    if s.wait.queueFreed then none
    else
      some { s with
        worker := wakeAll s.worker
        call := update s.call t .idle
        broadcasted := true }
  | _ => none

/-- A step of the system. -/
def step (s : State n P A H X) : Action n P A H X → Option (State n P A H X)
  | .work w => stepWorker s w
  | .spurious w =>
    if (s.worker w).isWaiting then some { s with worker := update s.worker w .woken } else none
  | .post t func arg => beginPost s t func arg
  | .malloc t block => mallocTask s t block
  | .signal t w => signalCond s t w
  | .terminate t => beginTerminate s t
  | .call t => stepCall s t
  | .waitdone => if s.wait.isNotCalled then some { s with wait := .join 0 } else none
  | .wait => stepWait s

/-- A call of `thrdpool_post` up to its append, with the address that `malloc` returns. -/
def postCall (t : Thread n P) (func : H) (arg : X) (task : A) : List (Action n P A H X) :=
  [.post t func arg, .call t, .malloc t (some (task, none)), .call t]

/-- A call of `thrdpool_terminate` up to its return. -/
def terminateCall (t : Thread n P) : List (Action n P A H X) :=
  .terminate t :: List.replicate 5 (.call t)

/-- Steps of a worker. -/
def workSteps (w : Fin n) (k : ℕ) : List (Action n P A H X) := List.replicate k (.work w)

/-- A call of `thrdpool_waitdone` and steps of it. -/
def waitdoneCall (k : ℕ) : List (Action n P A H X) := .waitdone :: List.replicate k .wait

/-- A concrete list of allowed actions that leads to a state where `p` holds. -/
theorem exists_run (ok : State n P A H X → Action n P A H X → Prop)
    [∀ s a, Decidable (ok s a)] (as : List (Action n P A H X)) (p : State n P A H X → Bool)
    (h : (Lib.replay step (fun s a => decide (ok s a)) (State.init n P A H X) as).any p = true) :
    ∃ s, Lib.Reaches step ok (State.init n P A H X) s ∧ p s = true := by
  obtain ⟨s, hs, hp⟩ := Lib.exists_reaches step (fun s a => decide (ok s a))
    (State.init n P A H X) as p h
  exact ⟨s, hs.mono fun _ _ hok => of_decide_eq_true hok, hp⟩

end CPStudy.ThrdPool
