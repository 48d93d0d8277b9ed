import Mathlib.Tactic.Ring
import CPStudy.Lib.Resource

/-!
# Creating the C thread pool, and what is left of a failed attempt

`thrdpool_create` of `thrd_pool.c` with the functions it calls, as far as they acquire and release
resources: memory, the mutex, the condition variable, the spinlock, the thread attributes and the
started threads. Each function appends to a log what it does to them. Which calls fail is given by
an `Outcome`. A thread is released by `pthread_join`, which returns when the worker has left.

`__threads_create` returns without `pthread_attr_destroy` where its `malloc` fails, which it does
for every negative `thrd_count`: the conversion to `size_t` makes the size larger than any object.
In every other case the rollback is complete (`create_rolls_back`).
-/

namespace CPStudy.ThrdPool

open Lib (ResourceEvent settle settle_append settle_acquire settle_release settle_acquires
  settle_releases)

/-- What the functions acquire and release. -/
inductive Resource
  /-- The memory of the pool. -/
  | pool
  /-- The memory of the task queue. -/
  | queue
  /-- `queue->mutex`. -/
  | mutex
  /-- `queue->cond`. -/
  | cond
  /-- `queue->lock`. -/
  | spinlock
  /-- The attribute object of `__threads_create`. -/
  | attr
  /-- The memory of `pool->threads`. -/
  | threads
  /-- The thread `pool->threads[i]`. -/
  | thread (i : ℕ)
  /-- The memory of a task, made by `thrdpool_post`. -/
  | task (k : ℕ)
deriving DecidableEq

/-- The resource belongs to a task. -/
def Resource.isTask : Resource → Bool
  | .task _ => true
  | .pool | .queue | .mutex | .cond | .spinlock | .attr | .threads | .thread _ => false

/-- What was acquired and released, in order. -/
abbrev Log := List (ResourceEvent Resource)

/-- Which of the calls succeed. -/
structure Outcome where
  /-- `malloc` of the pool. -/
  pool : Bool
  /-- `malloc` of the queue. -/
  queue : Bool
  /-- `pthread_mutex_init`. -/
  mutex : Bool
  /-- `pthread_cond_init`. -/
  cond : Bool
  /-- `pthread_attr_init`. -/
  attr : Bool
  /-- `malloc` of the thread array, for a size that an object can have. -/
  threads : Bool
  /-- `pthread_create` of each thread. -/
  thread : ℕ → Bool

/-- `sizeof(pthread_t)`. -/
def sizeofPthread : ℕ := 8

/-- `PTRDIFF_MAX`, the size of the largest object. -/
def ptrdiffMax : ℕ := 2 ^ 63 - 1

/-- The conversion of an `int` to `size_t`. -/
def toSizeT (n : Int32) : ℕ := (n.toInt % 2 ^ 64).toNat

/-- `malloc(sizeof(pthread_t) * thrd_count)` succeeds; the product is one of `size_t`. -/
def Outcome.mallocThreads (o : Outcome) (thrdCount : ℕ) : Bool :=
  o.threads && decide (sizeofPthread * thrdCount % 2 ^ 64 ≤ ptrdiffMax)

/-- `__taskqueue_create()`, and whether it returns a queue. -/
def taskqueueCreate (o : Outcome) (log : Log) : Bool × Log :=
  if o.queue then
    let log := log ++ [.acquire .queue]
    if o.mutex then
      let log := log ++ [.acquire .mutex]
      if o.cond then (true, log ++ [.acquire .cond, .acquire .spinlock])
      else (false, log ++ [.release .mutex, .release .queue])
    else (false, log ++ [.release .queue])
  else (false, log)

/-- `__taskqueue_destroy(queue)` of a queue that holds the tasks `queued`. -/
def taskqueueDestroy (queued : List ℕ) (log : Log) : Log :=
  log ++ queued.map (fun k => .release (.task k)) ++
    [.release .spinlock, .release .cond, .release .mutex, .release .queue]

/-- The joins of `__threads_terminate(pool)` and of `thrdpool_waitdone(pool)`. -/
def joinThreads (thrdCount : ℕ) (log : Log) : Log :=
  log ++ (List.range thrdCount).map fun i => .release (.thread i)

/-- The loop of `__threads_create` at the index `i`, with `n` passes to come at most. It gives the
index at which it is left. -/
def startThreads (thread : ℕ → Bool) : ℕ → ℕ → Log → ℕ × Log
  | 0, i, log => (i, log)
  | n + 1, i, log =>
    if thread i then startThreads thread n (i + 1) (log ++ [.acquire (.thread i)]) else (i, log)

/-- `__threads_create(pool, thrd_count)`. It returns 0 with the given `pool->thrd_count`, or
another value. -/
def threadsCreate (o : Outcome) (thrdCount : ℕ) (log : Log) : Option ℕ × Log :=
  if o.attr then
    let log := log ++ [.acquire .attr]
    if o.mallocThreads thrdCount then
      let (i, log) := startThreads o.thread thrdCount 0 (log ++ [.acquire .threads])
      let log := log ++ [.release .attr]
      if i = thrdCount then (some i, log)
      else (none, joinThreads i log ++ [.release .threads])
    -- No thread array: `pthread_attr_destroy` stands inside the branch above.
    -- No thread array: `pthread_attr_destroy` stands inside the branch above.
    else (none, log)
  else (none, log)

/-- `thrdpool_create(thrd_count)`. It returns a pool with the given `pool->thrd_count`, or
`NULL`. -/
def thrdpoolCreate (o : Outcome) (thrdCount : Int32) : Option ℕ × Log :=
  if o.pool then
    match taskqueueCreate o [.acquire .pool] with
    | (true, log) =>
      match threadsCreate o (toSizeT thrdCount) log with
      | (some count, log) => (some count, log)
      | (none, log) => (none, taskqueueDestroy [] log ++ [.release .pool])
    | (false, log) => (none, log ++ [.release .pool])
  else (none, [])

/-- `thrdpool_terminate(pool)` acquires and releases nothing. -/
def thrdpoolTerminate (log : Log) : Log := log

/-- `thrdpool_waitdone(pool)` where the queue still holds the tasks `queued`. -/
def thrdpoolWaitdone (thrdCount : ℕ) (queued : List ℕ) (log : Log) : Log :=
  taskqueueDestroy queued (joinThreads thrdCount log) ++ [.release .threads, .release .pool]

/-- The entries of a log that are not about tasks. -/
def poolEvents (log : Log) : Log := log.filter fun e => !e.resource.isTask

/-- The resources released in a log, in order. -/
def released (log : Log) : List Resource := log.filterMap ResourceEvent.released?

/-- Each resource acquired was released once, after it was acquired, and nothing else was. -/
def RolledBack (log : Log) : Prop := settle log ∅ = some ∅

instance (log : Log) : Decidable (RolledBack log) :=
  inferInstanceAs (Decidable (settle log ∅ = some ∅))

/-- After a rollback each resource was released as often as it was acquired. -/
theorem RolledBack.count_eq {log : Log} (h : RolledBack log) (r : Resource) :
    log.count (.acquire r) = log.count (.release r) := by
  have hcount := Lib.count_of_settle h r
  rwa [if_neg (Finset.notMem_empty r), Nat.add_zero, Nat.add_zero] at hcount

/-- What `thrdpool_create` is to do with the resources. -/
structure CreateContract (o : Outcome) (thrdCount : Int32) : Prop where
  /-- Where it returns `NULL`, everything is rolled back. -/
  failed : (thrdpoolCreate o thrdCount).1 = none → RolledBack (thrdpoolCreate o thrdCount).2
  /-- Where it returns a pool, the attribute object alone has been released. -/
  attr : (thrdpoolCreate o thrdCount).1.isSome = true →
    released (thrdpoolCreate o thrdCount).2 = [.attr]
  /-- Whatever tasks are posted and run then, `thrdpool_terminate` and `thrdpool_waitdone` release
  the rest. -/
  waitdone : ∀ count, (thrdpoolCreate o thrdCount).1 = some count →
    ∀ (used : Log) (queued : List ℕ), (∀ e ∈ used, e.resource.isTask = true) →
      RolledBack (poolEvents (thrdpoolWaitdone count queued
        (thrdpoolTerminate ((thrdpoolCreate o thrdCount).2 ++ used))))

/-- Everything up to `pthread_attr_init` succeeds, and the `malloc` of the thread array fails. -/
def ThreadArrayFails (o : Outcome) (thrdCount : Int32) : Prop :=
  o.pool = true ∧ o.queue = true ∧ o.mutex = true ∧ o.cond = true ∧ o.attr = true ∧
    o.mallocThreads (toSizeT thrdCount) = false

/-- For a negative `thrd_count` the `malloc` of the thread array fails. -/
theorem mallocThreads_of_neg (o : Outcome) {thrdCount : Int32} (h : thrdCount.toInt < 0) :
    o.mallocThreads (toSizeT thrdCount) = false := by
  -- `-n` becomes `2 ^ 64 - n`, and eight times that is `2 ^ 64 - 8 * n` in `size_t`.
  -- `-n` becomes `2 ^ 64 - n`, and eight times that is `2 ^ 64 - 8 * n` in `size_t`.
  have hlow := Int32.le_toInt thrdCount
  have hsize : ¬sizeofPthread * toSizeT thrdCount % 2 ^ 64 ≤ ptrdiffMax := by
    unfold toSizeT sizeofPthread ptrdiffMax
    omega
  unfold Outcome.mallocThreads
  rw [decide_eq_false hsize, Bool.and_false]

/-- The first `m` threads. -/
def threadList (m : ℕ) : List Resource := (List.range m).map .thread

/-- No thread is in the list twice. -/
theorem threadList_nodup (m : ℕ) : (threadList m).Nodup :=
  List.nodup_range.map fun _ _ h => Resource.thread.inj h

/-- What is in the list is a thread. -/
theorem eq_thread_of_mem {m : ℕ} {r : Resource} (h : r ∈ threadList m) : ∃ i, r = .thread i := by
  obtain ⟨i, -, rfl⟩ := List.mem_map.mp h
  exact ⟨i, rfl⟩

/-- The joins release the threads. -/
theorem joinThreads_eq (m : ℕ) (log : Log) :
    joinThreads m log = log ++ (threadList m).map .release := by
  unfold joinThreads threadList
  rw [List.map_map]
  rfl

/-- The loop of `__threads_create` starts threads from `i` on, up to the first that fails. -/
theorem startThreads_spec (thread : ℕ → Bool) (n i : ℕ) (log : Log) :
    ∃ m ≤ n, startThreads thread n i log =
      (i + m, log ++ (List.range' i m).map fun j => .acquire (.thread j)) := by
  induction n generalizing i log with
  | zero => exact ⟨0, le_rfl, by simp [startThreads]⟩
  | succ n ih =>
    unfold startThreads
    split
    case isTrue hi =>
      obtain ⟨m, hm, heq⟩ := ih (i + 1) (log ++ [.acquire (.thread i)])
      refine ⟨m + 1, by omega, ?_⟩
      rw [heq, List.range'_succ, List.map_cons, List.append_assoc, List.singleton_append]
      congr 1
      omega
    case isFalse hi => exact ⟨0, Nat.zero_le _, by simp⟩

/-- The loop of `__threads_create` from its start. -/
theorem startThreads_zero (thread : ℕ → Bool) (n : ℕ) (log : Log) :
    ∃ m ≤ n, startThreads thread n 0 log = (m, log ++ (threadList m).map .acquire) := by
  obtain ⟨m, hm, heq⟩ := startThreads_spec thread n 0 log
  refine ⟨m, hm, ?_⟩
  rw [heq, Nat.zero_add, ← List.range_eq_range', threadList, List.map_map]
  rfl

/-- The log of a `thrdpool_create` that has made its queue. -/
def queueLog : Log :=
  [.acquire .pool, .acquire .queue, .acquire .mutex, .acquire .cond, .acquire .spinlock]

/-- The log of a `thrdpool_create` that has started `m` threads and destroyed the attributes. -/
def startedLog (m : ℕ) : Log :=
  queueLog ++ [.acquire .attr, .acquire .threads] ++ (threadList m).map .acquire ++
    [.release .attr]

/-- What is held once the queue is made. -/
def queueHeld : Finset Resource := {.pool, .queue, .mutex, .cond, .spinlock}

/-- A thread is none of the other resources. -/
theorem thread_notMem (i : ℕ) : Resource.thread i ∉ insert .threads queueHeld := by
  simp [queueHeld]

/-- When the threads are joined, the thread array and the queue are still held. -/
theorem settle_joined (m : ℕ) :
    settle (startedLog m ++ (threadList m).map .release) ∅ =
      some (insert .threads queueHeld) := by
  have hprefix : settle (queueLog ++ [.acquire .attr, .acquire .threads]) ∅ =
      some (insert .attr (insert .threads queueHeld)) := by decide
  have hfresh : ∀ r ∈ threadList m, r ∉ insert Resource.attr (insert .threads queueHeld) := by
    intro r hr
    obtain ⟨i, rfl⟩ := eq_thread_of_mem hr
    rw [Finset.mem_insert, not_or]
    exact ⟨by simp, thread_notMem i⟩
  unfold startedLog
  rw [settle_append, settle_append, settle_append, hprefix, Option.bind_some,
    settle_acquires (threadList_nodup m) hfresh, Option.bind_some, settle_release (by simp), settle,
    Option.bind_some, settle_releases (threadList_nodup m)]
  · congr 1
    ext r
    have hthread : r ∈ threadList m → r ∉ insert .threads queueHeld := fun hr => by
      obtain ⟨i, rfl⟩ := eq_thread_of_mem hr
      exact thread_notMem i
    -- The attributes are destroyed and the threads joined: what is left was held before them.
    -- The attributes are destroyed and the threads joined: what is left was held before them.
    have hattr : Resource.attr ∉ insert Resource.threads queueHeld := by decide
    simp only [Finset.mem_sdiff, Finset.mem_erase, Finset.mem_union, List.mem_toFinset]
    rw [Finset.mem_insert (a := r) (b := Resource.attr)]
    constructor
    · rintro ⟨⟨hne, (heq | hmem) | hr⟩, hnot⟩
      · exact absurd heq hne
      · exact hmem
      · exact absurd hr hnot
    · intro hmem
      refine ⟨⟨?_, .inl (.inr hmem)⟩, fun hr => hthread hr hmem⟩
      rintro rfl
      exact hattr hmem
  · intro r hr
    obtain ⟨i, rfl⟩ := eq_thread_of_mem hr
    simp [hr]

/-- What `__taskqueue_create` does to the log of `thrdpool_create`. -/
theorem taskqueueCreate_cases (o : Outcome) :
    (taskqueueCreate o [.acquire .pool] = (true, queueLog) ∧
      o.queue = true ∧ o.mutex = true ∧ o.cond = true) ∨
    (∃ log, taskqueueCreate o [.acquire .pool] = (false, log) ∧
      RolledBack (log ++ [.release .pool]) ∧
      ¬(o.queue = true ∧ o.mutex = true ∧ o.cond = true)) := by
  unfold taskqueueCreate
  cases o.queue with
  | false => exact .inr ⟨_, rfl, by decide, by simp⟩
  | true =>
    cases o.mutex with
    | false => exact .inr ⟨_, rfl, by decide, by simp⟩
    | true =>
      cases o.cond with
      | false => exact .inr ⟨_, rfl, by decide, by simp⟩
      | true => exact .inl ⟨rfl, rfl, rfl, rfl⟩

/-- What `__threads_create` does to the log of a `thrdpool_create` that has made its queue. -/
theorem threadsCreate_cases (o : Outcome) (n : ℕ) :
    (o.attr = true ∧ o.mallocThreads n = false ∧
      threadsCreate o n queueLog = (none, queueLog ++ [.acquire .attr])) ∨
    (¬(o.attr = true ∧ o.mallocThreads n = false) ∧
      (threadsCreate o n queueLog = (some n, startedLog n) ∨
        threadsCreate o n queueLog = (none, queueLog) ∨
        ∃ m, threadsCreate o n queueLog =
          (none, startedLog m ++ (threadList m).map .release ++ [.release .threads]))) := by
  unfold threadsCreate
  cases hattr : o.attr with
  | false => exact .inr ⟨by simp, .inr (.inl rfl)⟩
  | true =>
    cases hmalloc : o.mallocThreads n with
    | false => exact .inl ⟨rfl, rfl, rfl⟩
    | true =>
      refine .inr ⟨by simp, ?_⟩
      -- The loop is left at `m`, and a pool is returned exactly where `m` is the number asked for.
      -- The loop is left at `m`, and a pool is returned exactly where `m` is the number asked for.
      obtain ⟨m, -, hstart⟩ :=
        startThreads_zero o.thread n (queueLog ++ [.acquire .attr] ++ [.acquire .threads])
      dsimp only
      rw [if_pos rfl, if_pos rfl, hstart]
      have hlog : queueLog ++ [.acquire .attr] ++ [.acquire .threads] ++
          (threadList m).map .acquire ++ [.release .attr] = startedLog m := by
        unfold startedLog
        simp
      dsimp only
      rw [hlog]
      split
      case isTrue hm =>
        subst hm
        exact .inl rfl
      case isFalse hm => exact .inr (.inr ⟨m, by rw [joinThreads_eq]⟩)

/-- The ways in which `thrdpool_create` can end, with its log. -/
inductive CreateEffect (o : Outcome) (thrdCount : Int32) : Option ℕ → Log → Prop
  /-- Something fails and everything is rolled back. -/
  | failed (log : Log) (hlog : RolledBack log) (ho : ¬ThreadArrayFails o thrdCount) :
      CreateEffect o thrdCount none log
  /-- The `malloc` of the thread array fails and everything but the attributes is rolled back. -/
  | leaked (log : Log) (hlog : settle log ∅ = some {.attr}) (ho : ThreadArrayFails o thrdCount) :
      CreateEffect o thrdCount none log
  /-- A pool is returned. -/
  | returned (ho : ¬ThreadArrayFails o thrdCount) :
      CreateEffect o thrdCount (some (toSizeT thrdCount)) (startedLog (toSizeT thrdCount))

/-- `thrdpool_create` ends in one of these ways. -/
theorem createEffect (o : Outcome) (thrdCount : Int32) :
    CreateEffect o thrdCount (thrdpoolCreate o thrdCount).1 (thrdpoolCreate o thrdCount).2 := by
  unfold thrdpoolCreate
  split
  case isFalse hpool => exact .failed _ rfl fun h => hpool h.1
  case isTrue hpool =>
    -- The cases follow the calls in their order, the first that fails deciding the rollback.
    -- The cases follow the calls in their order, the first that fails deciding the rollback.
    rcases taskqueueCreate_cases o with ⟨hqueue, hok⟩ | ⟨log, hqueue, hlog, hfail⟩
    · rw [hqueue]
      dsimp only
      rcases threadsCreate_cases o (toSizeT thrdCount) with ⟨hattr, hmalloc, hthreads⟩ | ⟨hno, h⟩
      · rw [hthreads]
        exact .leaked _ (by decide) ⟨hpool, hok.1, hok.2.1, hok.2.2, hattr, hmalloc⟩
      · have ho : ¬ThreadArrayFails o thrdCount := fun h => hno h.2.2.2.2
        rcases h with hthreads | hthreads | ⟨m, hthreads⟩
        · rw [hthreads]
          exact .returned ho
        · rw [hthreads]
          exact .failed _ (by decide) ho
        · rw [hthreads]
          refine .failed _ ?_ ho
          -- The threads are joined, and the rest is released in the order of the source.
          show settle (taskqueueDestroy [] _ ++ [.release .pool]) ∅ = some ∅
          unfold taskqueueDestroy
          simp only [List.map_nil, List.append_nil, List.append_assoc]
          rw [← List.append_assoc, settle_append, settle_joined, Option.bind_some]
          decide
    · rw [hqueue]
      exact .failed _ hlog fun h => hfail ⟨h.2.1, h.2.2.1, h.2.2.2.1⟩

/-- Entries about other things than tasks are kept. -/
theorem poolEvents_eq_self {log : Log} (h : ∀ e ∈ log, e.resource.isTask = false) :
    poolEvents log = log := by
  unfold poolEvents
  rw [List.filter_eq_self]
  intro e he
  rw [h e he]
  rfl

/-- Entries about tasks are dropped. -/
theorem poolEvents_eq_nil {log : Log} (h : ∀ e ∈ log, e.resource.isTask = true) :
    poolEvents log = [] := by
  unfold poolEvents
  rw [List.filter_eq_nil_iff]
  intro e he
  rw [h e he]
  simp

/-- One log after the other. -/
theorem poolEvents_append (log log' : Log) :
    poolEvents (log ++ log') = poolEvents log ++ poolEvents log' := List.filter_append ..

/-- The entries about threads are not about tasks. -/
theorem isTask_of_threadList {m : ℕ} {f : Resource → ResourceEvent Resource}
    (hf : ∀ r, (f r).resource = r) : ∀ e ∈ (threadList m).map f, e.resource.isTask = false := by
  intro e he
  obtain ⟨r, hr, rfl⟩ := List.mem_map.mp he
  obtain ⟨i, rfl⟩ := eq_thread_of_mem hr
  rw [hf]
  rfl

/-- The log of a returned pool has no task in it. -/
theorem isTask_of_startedLog {m : ℕ} : ∀ e ∈ startedLog m, e.resource.isTask = false := by
  intro e he
  unfold startedLog at he
  rw [List.mem_append, List.mem_append] at he
  rcases he with (he | he) | he
  · revert e
    decide
  · exact isTask_of_threadList (fun _ => rfl) e he
  · revert e
    decide

/-- The attributes are what a returned pool has released. -/
theorem released_startedLog (m : ℕ) : released (startedLog m) = [.attr] := by
  have hthreads : ((threadList m).map ResourceEvent.acquire).filterMap
      ResourceEvent.released? = [] := by
    rw [List.filterMap_eq_nil_iff]
    intro e he
    obtain ⟨r, -, rfl⟩ := List.mem_map.mp he
    rfl
  unfold released startedLog
  rw [List.filterMap_append, List.filterMap_append, hthreads]
  rfl

/-- After the joins, `thrdpool_waitdone` releases all that is left of a returned pool. -/
theorem rolledBack_waitdone {m : ℕ} {used : Log} {queued : List ℕ}
    (hused : ∀ e ∈ used, e.resource.isTask = true) :
    RolledBack (poolEvents (thrdpoolWaitdone m queued
      (thrdpoolTerminate (startedLog m ++ used)))) := by
  have hqueued : ∀ e ∈ queued.map fun k => ResourceEvent.release (Resource.task k),
      e.resource.isTask = true := by
    intro e he
    obtain ⟨k, -, rfl⟩ := List.mem_map.mp he
    rfl
  -- The tasks' entries drop out, so that the log is that of a pool on which nothing was posted.
  -- The tasks' entries drop out, so that the log is that of a pool on which nothing was posted.
  have hjoins := isTask_of_threadList (m := m) (f := ResourceEvent.release) fun _ => rfl
  unfold thrdpoolWaitdone thrdpoolTerminate taskqueueDestroy RolledBack
  rw [joinThreads_eq]
  simp only [poolEvents_append]
  rw [poolEvents_eq_self isTask_of_startedLog, poolEvents_eq_nil hused, poolEvents_eq_nil hqueued,
    poolEvents_eq_self hjoins, List.append_nil, List.append_nil, List.append_assoc, settle_append,
    settle_joined, Option.bind_some]
  decide

/-- `thrdpool_create` meets its contract, whichever calls fail, exactly where it is not the
`malloc` of the thread array that fails after every earlier call has succeeded. -/
theorem create_rolls_back (o : Outcome) (thrdCount : Int32) :
    CreateContract o thrdCount ↔ ¬ThreadArrayFails o thrdCount := by
  have heff := createEffect o thrdCount
  generalize hr : (thrdpoolCreate o thrdCount).1 = r at heff
  generalize hlog : (thrdpoolCreate o thrdCount).2 = log at heff
  cases heff with
  | failed _ hback ho =>
    refine ⟨fun _ => ho, fun _ => ⟨fun _ => hlog ▸ hback, fun h => ?_, fun count h => ?_⟩⟩
    · rw [hr] at h
      cases h
    · rw [hr] at h
      cases h
  | leaked _ hleak ho =>
    refine ⟨fun h => ?_, fun h => absurd ho h⟩
    -- `NULL` is returned with the attributes still held.
    -- `NULL` is returned with the attributes still held.
    have hback := h.failed hr
    unfold RolledBack at hback
    rw [hlog, hleak] at hback
    exact absurd hback (by decide)
  | returned ho =>
    refine ⟨fun _ => ho, fun _ => ⟨fun h => ?_, fun _ => ?_, fun count h used queued hused => ?_⟩⟩
    · rw [hr] at h
      cases h
    · rw [hlog]
      exact released_startedLog _
    · rw [hr] at h
      obtain rfl := Option.some.inj h
      rw [hlog]
      exact rolledBack_waitdone hused

/-- Every call succeeds that can. -/
def Outcome.allSucceed : Outcome where
  pool := true
  queue := true
  mutex := true
  cond := true
  attr := true
  threads := true
  thread := fun _ => true

/-- `thrdpool_create(-1)` returns `NULL`, and the attribute object it initialised is not
destroyed. -/
theorem create_rolls_back_negative :
    (thrdpoolCreate Outcome.allSucceed (-1)).1 = none ∧
      (thrdpoolCreate Outcome.allSucceed (-1)).2.count (.acquire .attr) = 1 ∧
      (thrdpoolCreate Outcome.allSucceed (-1)).2.count (.release .attr) = 0 ∧
      ¬RolledBack (thrdpoolCreate Outcome.allSucceed (-1)).2 := by
  decide

end CPStudy.ThrdPool
