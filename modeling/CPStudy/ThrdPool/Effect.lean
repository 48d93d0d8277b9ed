import CPStudy.ThrdPool.Model

/-!
# What a step of the C thread pool can do

`Effect s a s'` lists the changes a step can make, with what the code has tested before each.
`effect_of_step` is the one place where the step function is unfolded; every invariant of the pool
is proved by cases on the effect.
-/

namespace CPStudy.ThrdPool

open Function (update)

section Predicates

variable {A H X : Type*}

/-- A worker is waiting exactly when it is at `waiting`. -/
@[simp]
theorem WorkerPc.isWaiting_iff (pc : WorkerPc A H X) : pc.isWaiting = true ↔ pc = .waiting := by
  cases pc <;> simp [isWaiting]

/-- A worker has left exactly when it is at `exited`. -/
@[simp]
theorem WorkerPc.isExited_iff (pc : WorkerPc A H X) : pc.isExited = true ↔ pc = .exited := by
  cases pc <;> simp [isExited]

/-- A worker is inside a handler exactly when it is at `running`. -/
@[simp]
theorem WorkerPc.isRunning_iff (pc : WorkerPc A H X) :
    pc.isRunning = true ↔ ∃ post, pc = .running post := by
  cases pc <;> simp [isRunning]

/-- A thread is in no call exactly when it is at `idle`. -/
@[simp]
theorem CallPc.isIdle_iff (pc : CallPc A H X) : pc.isIdle = true ↔ pc = .idle := by
  cases pc <;> simp [isIdle]

/-- `thrdpool_waitdone` is not called exactly when its caller is at `notCalled`. -/
@[simp]
theorem WaitPc.isNotCalled_iff (pc : WaitPc A) : pc.isNotCalled = true ↔ pc = .notCalled := by
  cases pc <;> simp [isNotCalled]

/-- `thrdpool_waitdone` has freed the pool exactly when it has returned. -/
@[simp]
theorem WaitPc.poolFreed_iff (pc : WaitPc A) : pc.poolFreed = true ↔ pc = .returned := by
  cases pc <;> simp [poolFreed]

end Predicates

variable {n : ℕ} {P A H X : Type*}

/-- What a thread that may make a call is doing. -/
theorem mayCall_iff (s : State n P A H X) (t : Thread n P) :
    mayCall s t = true ↔
      s.call t = .idle ∧ ∀ w, t = .inl w → ∃ post, s.worker w = .running post := by
  cases t <;> simp [mayCall]

/-- `pthread_cond_broadcast` moves a waiting worker and no other. -/
theorem wakeAll_cases (worker : Fin n → WorkerPc A H X) (w : Fin n) :
    (worker w = .waiting ∧ wakeAll worker w = .woken) ∨
      (worker w ≠ .waiting ∧ wakeAll worker w = worker w) := by
  unfold wakeAll
  cases worker w <;> simp

variable [DecidableEq A] [DecidableEq P]

/-- The changes a step can make. -/
inductive Effect (s : State n P A H X) : Action n P A H X → State n P A H X → Prop
  /-- A worker finds `quit` set and leaves. -/
  | quitSeen (w : Fin n) (hw : s.worker w = .quitTest) (hq : s.quit = true) :
      Effect s (.work w) { s with worker := update s.worker w .exited }
  /-- A worker finds `quit` not set. -/
  | quitPassed (w : Fin n) (hw : s.worker w = .quitTest) (hq : s.quit = false) :
      Effect s (.work w) { s with worker := update s.worker w .popTask }
  /-- A worker finds the queue empty. -/
  | popNull (w : Fin n) (queue : TaskQueue A H X) (hw : s.worker w = .popTask)
      (hp : s.queue.popTask = some (queue, none)) :
      Effect s (.work w) { s with worker := update s.worker w .lock }
  /-- A worker takes the oldest task. -/
  | pop (w : Fin n) (queue : TaskQueue A H X) (task : A) (hw : s.worker w = .popTask)
      (hp : s.queue.popTask = some (queue, some task)) :
      Effect s (.work w) { s with
        queue := queue
        worker := update s.worker w (.held (s.postOf task) task)
        popped := s.popped ++ [(s.postOf task, some w)]
        pops := update s.pops w (s.pops w + 1) }
  /-- A worker locks the mutex. -/
  | lock (w : Fin n) (hw : s.worker w = .lock) (ho : s.owner = none) :
      Effect s (.work w) { s with
        owner := some (.inl w), worker := update s.worker w .blockTest }
  /-- A worker reads `block` as 1. -/
  | blocking (w : Fin n) (hw : s.worker w = .blockTest) (hb : s.block = true) :
      Effect s (.work w) { s with worker := update s.worker w .condWait }
  /-- A worker reads `block` as 0. -/
  | nonblocking (w : Fin n) (hw : s.worker w = .blockTest) (hb : s.block = false) :
      Effect s (.work w) { s with worker := update s.worker w .unlockNull }
  /-- A worker without a task unlocks the mutex and leaves. -/
  | leave (w : Fin n) (hw : s.worker w = .unlockNull) :
      Effect s (.work w) { s with owner := none, worker := update s.worker w .exited }
  /-- A worker releases the mutex and starts to wait. -/
  | sleep (w : Fin n) (hw : s.worker w = .condWait) :
      Effect s (.work w) { s with owner := none, worker := update s.worker w .waiting }
  /-- A signalled worker locks the mutex again. -/
  | relock (w : Fin n) (hw : s.worker w = .woken) (ho : s.owner = none) :
      Effect s (.work w) { s with owner := some (.inl w), worker := update s.worker w .unlock }
  /-- A worker unlocks the mutex after its wait. -/
  | unlock (w : Fin n) (hw : s.worker w = .unlock) :
      Effect s (.work w) { s with owner := none, worker := update s.worker w .popTask }
  /-- A worker reads what its task is to run. -/
  | read (w : Fin n) (post : PostId) (task : A) (t : Task A H X)
      (hw : s.worker w = .held post task) (hm : s.queue.mem task = some t) :
      Effect s (.work w) { s with
        worker := update s.worker w (.loaded post task t.func t.arg) }
  /-- A worker frees its task. -/
  | free (w : Fin n) (post : PostId) (task : A) (func : H) (ctx : X)
      (hw : s.worker w = .loaded post task func ctx) :
      Effect s (.work w) { s with
        queue := { s.queue with mem := update s.queue.mem task none }
        worker := update s.worker w (.ready post func ctx)
        freed := s.freed ++ [(post, some w)] }
  /-- A worker calls a handler. -/
  | invoke (w : Fin n) (post : PostId) (func : H) (ctx : X)
      (hw : s.worker w = .ready post func ctx) :
      Effect s (.work w) { s with
        worker := update s.worker w (.running post)
        called := s.called ++ [(post, func, ctx)] }
  /-- A handler returns. -/
  | finish (w : Fin n) (post : PostId) (hw : s.worker w = .running post)
      (hc : s.call (.inl w) = .idle) :
      Effect s (.work w) { s with
        worker := update s.worker w .quitTest
        finished := s.finished ++ [post] }
  /-- A waiting worker wakes up spuriously. -/
  | spurious (w : Fin n) (hw : s.worker w = .waiting) :
      Effect s (.spurious w) { s with worker := update s.worker w .woken }
  /-- `thrdpool_post` is called. -/
  | post (t : Thread n P) (func : H) (arg : X) (hc : s.call t = .idle)
      (hr : ∀ w, t = .inl w → ∃ post, s.worker w = .running post) :
      Effect s (.post t func arg) { s with
        call := update s.call t (.postQuit s.posts.length func arg)
        posts := s.posts ++ [(func, arg)] }
  /-- `thrdpool_post` finds `quit` set and returns -1. -/
  | refuse (t : Thread n P) (post : PostId) (func : H) (arg : X)
      (hc : s.call t = .postQuit post func arg) (hq : s.quit = true) :
      Effect s (.call t) { s with
        call := update s.call t .idle
        result := update s.result post (some (-1)) }
  /-- `thrdpool_post` finds `quit` not set. -/
  | accept (t : Thread n P) (post : PostId) (func : H) (arg : X)
      (hc : s.call t = .postQuit post func arg) (hq : s.quit = false) :
      Effect s (.call t) { s with call := update s.call t (.postMalloc post func arg) }
  /-- `malloc` fails and `thrdpool_post` returns -1. -/
  | mallocNull (t : Thread n P) (post : PostId) (func : H) (arg : X)
      (hc : s.call t = .postMalloc post func arg) :
      Effect s (.malloc t none) { s with
        call := update s.call t .idle
        result := update s.result post (some (-1)) }
  /-- `thrdpool_post` allocates a task and fills it in. -/
  | malloc (t : Thread n P) (post : PostId) (func : H) (arg : X) (task : A) (junk : Option A)
      (hc : s.call t = .postMalloc post func arg) (hm : s.queue.mem task = none) :
      Effect s (.malloc t (some (task, junk))) { s with
        queue := { s.queue with mem := update s.queue.mem task (some ⟨junk, func, arg⟩) }
        call := update s.call t (.postAppend post task)
        postOf := update s.postOf task post }
  /-- `__add_task` appends the task. -/
  | append (t : Thread n P) (post : PostId) (task : A) (queue : TaskQueue A H X)
      (hc : s.call t = .postAppend post task) (hl : s.wait.queueFreed = false)
      (ha : s.queue.addTask task = some queue) :
      Effect s (.call t) { s with
        queue := queue
        call := update s.call t (.postSignal post)
        appended := s.appended ++ [post] }
  /-- `__add_task` signals a waiting worker and `thrdpool_post` returns 0. -/
  | signal (t : Thread n P) (post : PostId) (w : Fin n) (hc : s.call t = .postSignal post)
      (hl : s.wait.queueFreed = false) (hw : s.worker w = .waiting) :
      Effect s (.signal t (some w)) { s with
        worker := update s.worker w .woken
        call := update s.call t .idle
        result := update s.result post (some 0) }
  /-- The signal of `__add_task` is lost and `thrdpool_post` returns 0. -/
  | signalLost (t : Thread n P) (post : PostId) (hc : s.call t = .postSignal post)
      (hl : s.wait.queueFreed = false) (hw : ∀ w, s.worker w ≠ .waiting) :
      Effect s (.signal t none) { s with
        call := update s.call t .idle
        result := update s.result post (some 0) }
  /-- `thrdpool_terminate` is called. -/
  | terminate (t : Thread n P) (hc : s.call t = .idle)
      (hr : ∀ w, t = .inl w → ∃ post, s.worker w = .running post) :
      Effect s (.terminate t) { s with call := update s.call t .termQuit }
  /-- `thrdpool_terminate` sets `quit`. -/
  | setQuit (t : Thread n P) (hc : s.call t = .termQuit) :
      Effect s (.call t) { s with quit := true, call := update s.call t .termLock }
  /-- `__nonblock` locks the mutex. -/
  | termLock (t : Thread n P) (hc : s.call t = .termLock) (ho : s.owner = none) :
      Effect s (.call t) { s with owner := some t, call := update s.call t .termBlock }
  /-- `__nonblock` clears `block`. -/
  | setNonblock (t : Thread n P) (hc : s.call t = .termBlock) :
      Effect s (.call t) { s with block := false, call := update s.call t .termUnlock }
  /-- `__nonblock` unlocks the mutex. -/
  | termUnlock (t : Thread n P) (hc : s.call t = .termUnlock) :
      Effect s (.call t) { s with owner := none, call := update s.call t .termBroadcast }
  /-- `__nonblock` wakes every waiting worker and `thrdpool_terminate` returns. -/
  | broadcast (t : Thread n P) (hc : s.call t = .termBroadcast) :
      Effect s (.call t) { s with
        worker := wakeAll s.worker
        call := update s.call t .idle
        broadcasted := true }
  /-- `thrdpool_waitdone` is called. -/
  | waitdone (hw : s.wait = .notCalled) : Effect s .waitdone { s with wait := .join 0 }
  /-- `thrdpool_waitdone` has joined a worker. -/
  | join (i : ℕ) (hi : i < n) (hw : s.wait = .join i) (he : s.worker ⟨i, hi⟩ = .exited) :
      Effect s .wait { s with wait := .join (i + 1) }
  /-- `thrdpool_waitdone` has joined every worker. -/
  | joined (i : ℕ) (hi : ¬i < n) (hw : s.wait = .join i) : Effect s .wait { s with wait := .drain }
  /-- `__taskqueue_destroy` finds the queue empty. -/
  | drainNull (queue : TaskQueue A H X) (hw : s.wait = .drain)
      (hp : s.queue.popTask = some (queue, none)) : Effect s .wait { s with wait := .destroy }
  /-- `__taskqueue_destroy` takes a task. -/
  | drain (queue : TaskQueue A H X) (task : A) (hw : s.wait = .drain)
      (hp : s.queue.popTask = some (queue, some task)) :
      Effect s .wait { s with
        queue := queue
        wait := .freeTask (s.postOf task) task
        popped := s.popped ++ [(s.postOf task, none)] }
  /-- `__taskqueue_destroy` frees a task. -/
  | discard (post : PostId) (task : A) (hw : s.wait = .freeTask post task) :
      Effect s .wait { s with
        queue := { s.queue with mem := update s.queue.mem task none }
        wait := .drain
        freed := s.freed ++ [(post, none)] }
  /-- `__taskqueue_destroy` frees the queue. -/
  | destroy (hw : s.wait = .destroy) : Effect s .wait { s with wait := .freePool }
  /-- `thrdpool_waitdone` frees the pool and returns. -/
  | freePool (hw : s.wait = .freePool) : Effect s .wait { s with wait := .returned }

variable {s s' : State n P A H X}

/-- The effects of a step of a worker. -/
theorem effect_stepWorker {w : Fin n} (h : stepWorker s w = some s') :
    Effect s (.work w) s' := by
  unfold stepWorker at h
  split at h
  case h_1 hw =>
    split at h
    case isTrue hq => exact Option.some.inj h ▸ .quitSeen w hw hq
    case isFalse hq => exact Option.some.inj h ▸ .quitPassed w hw (by simpa using hq)
  -- `__pop_task` runs under the spinlock and is one step.
  case h_2 hw =>
    split at h
    case h_1 => cases h
    case h_2 queue hp => exact Option.some.inj h ▸ .popNull w queue hw hp
    case h_3 queue task hp => exact Option.some.inj h ▸ .pop w queue task hw hp
  case h_3 hw =>
    split at h
    case h_1 ho => exact Option.some.inj h ▸ .lock w hw ho
    case h_2 => cases h
  -- `if (queue->block)`: the worker sleeps, or leaves with what it has.
  case h_4 hw =>
    split at h
    case isTrue hb => exact Option.some.inj h ▸ .blocking w hw hb
    case isFalse hb => exact Option.some.inj h ▸ .nonblocking w hw (by simpa using hb)
  case h_5 hw => exact Option.some.inj h ▸ .leave w hw
  case h_6 hw => exact Option.some.inj h ▸ .sleep w hw
  case h_7 => cases h
  case h_8 hw =>
    split at h
    case h_1 ho => exact Option.some.inj h ▸ .relock w hw ho
    case h_2 => cases h
  case h_9 hw => exact Option.some.inj h ▸ .unlock w hw
  case h_10 post task hw =>
    obtain ⟨t, hm, rfl⟩ := Option.map_eq_some_iff.mp h
    exact .read w post task t hw hm
  case h_11 post task func ctx hw => exact Option.some.inj h ▸ .free w post task func ctx hw
  case h_12 post func ctx hw => exact Option.some.inj h ▸ .invoke w post func ctx hw
  -- The callback returns when the calls that it has made have returned.
  case h_13 post hw =>
    split at h
    case isTrue hc => exact Option.some.inj h ▸ .finish w post hw (by simpa using hc)
    case isFalse => cases h
  case h_14 => cases h

/-- The effects of a step of `thrdpool_waitdone`. -/
theorem effect_stepWait (h : stepWait s = some s') : Effect s .wait s' := by
  unfold stepWait at h
  split at h
  case h_1 => cases h
  case h_2 i hw =>
    split at h
    case isTrue hi =>
      split at h
      case isTrue he => exact Option.some.inj h ▸ .join i hi hw (by simpa using he)
      case isFalse => cases h
    case isFalse hi => exact Option.some.inj h ▸ .joined i hi hw
  case h_3 hw =>
    split at h
    case h_1 => cases h
    case h_2 queue hp => exact Option.some.inj h ▸ .drainNull queue hw hp
    case h_3 queue task hp => exact Option.some.inj h ▸ .drain queue task hw hp
  case h_4 post task hw => exact Option.some.inj h ▸ .discard post task hw
  case h_5 hw => exact Option.some.inj h ▸ .destroy hw
  case h_6 hw => exact Option.some.inj h ▸ .freePool hw
  case h_7 => cases h

/-- The effects of `malloc`. -/
theorem effect_mallocTask {t : Thread n P} {block : Option (A × Option A)}
    (h : mallocTask s t block = some s') : Effect s (.malloc t block) s' := by
  unfold mallocTask at h
  split at h
  case h_1 post func arg hc => exact Option.some.inj h ▸ .mallocNull t post func arg hc
  case h_2 post func arg task junk hc =>
    split at h
    case h_1 hm => exact Option.some.inj h ▸ .malloc t post func arg task junk hc hm
    case h_2 => cases h
  case h_3 => cases h

/-- The effects of `pthread_cond_signal`. -/
theorem effect_signalCond {t : Thread n P} {w : Option (Fin n)}
    (h : signalCond s t w = some s') : Effect s (.signal t w) s' := by
  unfold signalCond at h
  split at h
  case h_2 => cases h
  case h_1 post hc =>
    split at h
    case isTrue => cases h
    case isFalse hl =>
      have hl' : s.wait.queueFreed = false := by simpa using hl
      cases w with
      | none =>
        dsimp only at h
        split at h
        case isTrue hw =>
          refine Option.some.inj h ▸ .signalLost t post hc hl' fun w hww => ?_
          have := hw w
          simp [hww, WorkerPc.isWaiting] at this
        case isFalse => cases h
      | some w =>
        dsimp only at h
        split at h
        case isTrue hw => exact Option.some.inj h ▸ .signal t post w hc hl' (by simpa using hw)
        case isFalse => cases h

/-- The effects of the other steps of a call. -/
theorem effect_stepCall {t : Thread n P} (h : stepCall s t = some s') :
    Effect s (.call t) s' := by
  unfold stepCall at h
  split at h
  -- `thrdpool_post` reads `quit`; a pool that is freed cannot be read.
  case h_1 post func arg hc =>
    split at h
    case isTrue => cases h
    case isFalse =>
      split at h
      case isTrue hq => exact Option.some.inj h ▸ .refuse t post func arg hc hq
      case isFalse hq => exact Option.some.inj h ▸ .accept t post func arg hc (by simpa using hq)
  -- `__add_task` runs under the spinlock and is one step.
  case h_2 post task hc =>
    split at h
    case isTrue => cases h
    case isFalse hl =>
      obtain ⟨queue, ha, rfl⟩ := Option.map_eq_some_iff.mp h
      exact .append t post task queue hc (by simpa using hl) ha
  case h_3 hc =>
    split at h
    case isTrue => cases h
    case isFalse => exact Option.some.inj h ▸ .setQuit t hc
  case h_4 hc =>
    split at h
    case h_1 ho =>
      split at h
      case isTrue => cases h
      case isFalse => exact Option.some.inj h ▸ .termLock t hc ho
    case h_2 => cases h
  case h_5 hc =>
    split at h
    case isTrue => cases h
    case isFalse => exact Option.some.inj h ▸ .setNonblock t hc
  case h_6 hc =>
    split at h
    case isTrue => cases h
    case isFalse => exact Option.some.inj h ▸ .termUnlock t hc
  case h_7 hc =>
    split at h
    case isTrue => cases h
    case isFalse => exact Option.some.inj h ▸ .broadcast t hc
  case h_8 => cases h

/-- Every step has one of the effects. -/
theorem effect_of_step {a : Action n P A H X} (h : step s a = some s') : Effect s a s' := by
  cases a with
  | work w => exact effect_stepWorker h
  | spurious w =>
    simp only [step] at h
    split at h
    case isTrue hw => exact Option.some.inj h ▸ .spurious w (by simpa using hw)
    case isFalse => cases h
  | post t func arg =>
    simp only [step, beginPost] at h
    split at h
    case isTrue hc =>
      rw [mayCall_iff] at hc
      exact Option.some.inj h ▸ .post t func arg hc.1 hc.2
    case isFalse => cases h
  | malloc t block => exact effect_mallocTask h
  | signal t w => exact effect_signalCond h
  | terminate t =>
    simp only [step, beginTerminate] at h
    split at h
    case isTrue hc =>
      rw [mayCall_iff] at hc
      exact Option.some.inj h ▸ .terminate t hc.1 hc.2
    case isFalse => cases h
  | call t => exact effect_stepCall h
  | waitdone =>
    simp only [step] at h
    split at h
    case isTrue hw => exact Option.some.inj h ▸ .waitdone (by simpa using hw)
    case isFalse => cases h
  | wait => exact effect_stepWait h

/-- What every allowed effect preserves from the initial state holds in every state of every
run. -/
theorem invariant_of_effect {ok : State n P A H X → Action n P A H X → Prop}
    (I : State n P A H X → Prop) (hs : Lib.Reaches step ok (State.init n P A H X) s)
    (h0 : I (State.init n P A H X)) (hI : ∀ t a u, I t → ok t a → Effect t a u → I u) : I s :=
  hs.invariant h0 fun t a u ht hok hstep => hI t a u ht hok (effect_of_step hstep)

end CPStudy.ThrdPool
