import CPStudy.Lib.Custody
import CPStudy.ThrdPool.Effect

/-!
# The life of a task in the C thread pool

Every call of `thrdpool_post` is at each moment in one stage of its life: before its task is
filled in, in the queue, held by one worker, and so on to the return of its handler, or in the hands
of `__taskqueue_destroy`. `Tracked s xs stage` says how the stages show in the state: in the program
points of the threads, in the queue with the tasks `xs`, in the memory, and in the history. Since
`stage` is a function, a task is never in two places. Every step moves one post to its next stage
or none at all.
-/

namespace CPStudy.ThrdPool

open Function (update)
open Lib (Custody Recorded)

variable {n : ℕ} {P A H X : Type*}

/-- The stages of a post. -/
inductive Stage (n : ℕ) (P A : Type*)
  /-- No call has this number yet. -/
  | unposted
  /-- In `thrdpool_post`, before `malloc`. -/
  | posting (t : Thread n P)
  /-- `thrdpool_post` has returned -1. -/
  | refused
  /-- The task is filled in and not yet appended. -/
  | filled (t : Thread n P) (task : A)
  /-- The task is in the queue. -/
  | queued (task : A)
  /-- A worker has popped the task and not yet freed it. -/
  | held (w : Fin n) (task : A)
  /-- The worker has freed the task and not yet called the handler. -/
  | ready (w : Fin n)
  /-- The worker is inside the handler. -/
  | running (w : Fin n)
  /-- The handler has returned. -/
  | finished
  /-- `__taskqueue_destroy` has popped the task and not yet freed it. -/
  | draining (task : A)
  /-- `__taskqueue_destroy` has freed the task. -/
  | discarded

namespace Stage

/-- The task of the post, while it is allocated. -/
def task? : Stage n P A → Option A
  | filled _ task => some task
  | queued task => some task
  | held _ task => some task
  | draining task => some task
  | _ => none

/-- The worker that has the post. -/
def worker? : Stage n P A → Option (Fin n)
  | held w _ => some w
  | ready w => some w
  | running w => some w
  | _ => none

/-- The thread that has the post in its call. -/
def call? : Stage n P A → Option (Thread n P)
  | posting t => some t
  | filled t _ => some t
  | _ => none

/-- Whether `__taskqueue_destroy` has the post. -/
def drain? : Stage n P A → Option Unit
  | draining _ => some ()
  | _ => none

/-- The call was made and has not returned -1. -/
def isOpen : Stage n P A → Bool
  | unposted => false
  | refused => false
  | _ => true

/-- The task was appended. -/
def isAppended : Stage n P A → Bool
  | unposted => false
  | posting _ => false
  | refused => false
  | filled _ _ => false
  | _ => true

/-- The task was freed. -/
def isFreed : Stage n P A → Bool
  | ready _ => true
  | running _ => true
  | finished => true
  | discarded => true
  | _ => false

/-- `__taskqueue_destroy` has popped the task. -/
def isDrained : Stage n P A → Bool
  | draining _ => true
  | discarded => true
  | _ => false

/-- The handler was called. -/
def isCalled : Stage n P A → Bool
  | running _ => true
  | finished => true
  | _ => false

/-- The handler has returned. -/
def isFinished : Stage n P A → Bool
  | finished => true
  | _ => false

end Stage

/-- The post that a worker has at its program point, and its stage. -/
def WorkerPc.stage? (w : Fin n) : WorkerPc A H X → Option (PostId × Stage n P A)
  | .held post task => some (post, .held w task)
  | .loaded post task _ _ => some (post, .held w task)
  | .ready post _ _ => some (post, .ready w)
  | .running post => some (post, .running w)
  | _ => none

/-- What a worker has read of its task. -/
def WorkerPc.job? : WorkerPc A H X → Option (PostId × H × X)
  | .loaded post _ func ctx => some (post, func, ctx)
  | .ready post func ctx => some (post, func, ctx)
  | _ => none

/-- The post that a thread has in its call before the append, and its stage. -/
def CallPc.stage? (t : Thread n P) : CallPc A H X → Option (PostId × Stage n P A)
  | .postQuit post _ _ => some (post, .posting t)
  | .postMalloc post _ _ => some (post, .posting t)
  | .postAppend post task => some (post, .filled t task)
  | _ => none

/-- What a thread is to fill its task with. -/
def CallPc.job? : CallPc A H X → Option (PostId × H × X)
  | .postQuit post func arg => some (post, func, arg)
  | .postMalloc post func arg => some (post, func, arg)
  | _ => none

/-- The post that `__taskqueue_destroy` has, and its stage. -/
def WaitPc.stage? : WaitPc A → Option (PostId × Stage n P A)
  | .freeTask post task => some (post, .draining task)
  | _ => none

/-- The stages of the posts whose tasks are allocated. -/
structure MemoryAt (queue : TaskQueue A H X) (postOf : A → PostId) (posts : List (H × X))
    (xs : List A) (stage : PostId → Stage n P A) : Prop where
  /-- The queue has the shape of a list. -/
  holds : queue.Holds xs
  /-- The tasks of the queue. -/
  queued : ∀ id a, stage id = .queued a ↔ a ∈ xs ∧ postOf a = id
  /-- The task of a post is at an address of its own. -/
  own : ∀ id a, (stage id).task? = some a → postOf a = id ∧ queue.mem a ≠ none
  /-- Every task allocated is that of a post. -/
  live : ∀ a, queue.mem a ≠ none → (stage (postOf a)).task? = some a
  /-- A task is filled with what was posted. -/
  job : ∀ a t, queue.mem a = some t → posts[postOf a]? = some t.job

/-- What the posts have returned. -/
structure ResultsAt (posts : List (H × X)) (result : PostId → Option ℤ)
    (stage : PostId → Stage n P A) : Prop where
  /-- The numbers given out. -/
  unposted : ∀ id, stage id = .unposted ↔ posts.length ≤ id
  /-- The posts that have returned -1. -/
  refused : ∀ id, result id = some (-1) ↔ stage id = .refused
  /-- The posts that have returned 0 have appended their tasks. -/
  accepted : ∀ id, result id = some 0 → (stage id).isAppended = true

/-- Who has popped and freed the tasks. -/
structure PoppedAt (popped freed : List (PostId × Option (Fin n)))
    (stage : PostId → Stage n P A) : Prop where
  /-- Who frees a task has popped it. -/
  taken : ∀ e ∈ freed, e ∈ popped
  /-- A worker holds only what it has popped. -/
  held : ∀ id w a, stage id = .held w a → (id, some w) ∈ popped
  /-- The tasks that `__taskqueue_destroy` has popped. -/
  drained : ∀ id, (id, none) ∈ popped ↔ (stage id).isDrained = true

/-- The history of the posts, as their stages have it. -/
structure HistoryAt (s : State n P A H X) (xs : List A) (stage : PostId → Stage n P A) :
    Prop where
  /-- What the posts have returned. -/
  results : ResultsAt s.posts s.result stage
  /-- Who has popped and freed the tasks. -/
  popped : PoppedAt s.popped s.freed stage
  /-- Each task was appended at most once. -/
  appended : Recorded s.appended Stage.isAppended stage
  /-- Each task was freed at most once. -/
  freed : Recorded (s.freed.map Prod.fst) Stage.isFreed stage
  /-- Each handler was called at most once. -/
  called : Recorded (s.called.map Prod.fst) Stage.isCalled stage
  /-- Each handler has returned at most once. -/
  finished : Recorded s.finished Stage.isFinished stage
  /-- Handlers were called with what was posted. -/
  called_job : ∀ c ∈ s.called, s.posts[c.1]? = some c.2
  /-- The tasks appended are those popped and those in the queue, in order. -/
  fifo : s.appended = s.popped.map Prod.fst ++ xs.map s.postOf

/-- The stages of the posts, as they show in the state. -/
structure Tracked (s : State n P A H X) (xs : List A) (stage : PostId → Stage n P A) :
    Prop where
  /-- In the workers. -/
  workers : Custody (fun w => (s.worker w).stage? w) stage Stage.worker?
  /-- In the calls. -/
  calls : Custody (fun t => (s.call t).stage? t) stage Stage.call?
  /-- In `thrdpool_waitdone`. -/
  draining : Custody (fun _ => s.wait.stage?) stage Stage.drain?
  /-- A thread that is about to signal has appended. -/
  signal : ∀ t id, s.call t = .postSignal id → (stage id).isAppended = true
  /-- What a worker has read is what was posted. -/
  worker_job : ∀ w id job, (s.worker w).job? = some (id, job) → s.posts[id]? = some job
  /-- What a thread is to fill its task with is what was posted. -/
  call_job : ∀ t id job, (s.call t).job? = some (id, job) → s.posts[id]? = some job
  /-- In the memory. -/
  memory : MemoryAt s.queue s.postOf s.posts xs stage
  /-- In the history. -/
  history : HistoryAt s xs stage

/-- A list keeps its elements when another one is appended. -/
theorem getElem?_concat {α : Type*} {l : List α} {i : ℕ} {x y : α} (h : l[i]? = some x) :
    (l ++ [y])[i]? = some x := by
  obtain ⟨hi, -⟩ := List.getElem?_eq_some_iff.mp h
  rw [List.getElem?_append_left hi, h]

section Memory

variable {queue queue' : TaskQueue A H X} {postOf : A → PostId} {posts : List (H × X)}
  {xs : List A} {stage : PostId → Stage n P A} {id : PostId} {st : Stage n P A} {a : A}

/-- A post without a task moves to a stage without one. -/
theorem MemoryAt.other (h : MemoryAt queue postOf posts xs stage)
    (hold : (stage id).task? = none) (hst : st.task? = none) :
    MemoryAt queue postOf posts xs (update stage id st) := by
  have hqueued := h.queued
  have hown := h.own
  have hlive := h.live
  refine { h with queued := ?_, own := ?_, live := ?_ } <;> grind [Stage.task?]

/-- A post begins. -/
theorem MemoryAt.post (h : MemoryAt queue postOf posts xs stage) {t : Thread n P} {job : H × X}
    (hold : (stage id).task? = none) :
    MemoryAt queue postOf (posts ++ [job]) xs (update stage id (.posting t)) := by
  have hother : MemoryAt queue postOf posts xs (update stage id (.posting t)) := h.other hold rfl
  exact { hother with job := fun a t ha => getElem?_concat (h.job a t ha) }

/-- A task is popped: its post leaves the queue. -/
theorem MemoryAt.pop (h : MemoryAt queue postOf posts xs stage)
    (hp : queue.popTask = some (queue', some a)) :
    ∃ xs', xs = a :: xs' ∧ stage (postOf a) = .queued a ∧
      ∀ st, st.task? = some a → st ≠ .queued a →
        MemoryAt queue' postOf posts xs' (update stage (postOf a) st) := by
  have hqueued := h.queued
  have hown := h.own
  have hlive := h.live
  have hjob := h.job
  have hnd := h.holds.nodup
  rcases h.holds.popTask_cases hp with ⟨hnone, -⟩ | ⟨task, xs', htask, rfl, hholds, hmem⟩
  · cases hnone
  · cases htask
    refine ⟨xs', rfl, (hqueued _ _).mpr ⟨by simp, rfl⟩, fun st hst hne => ?_⟩
    refine { holds := hholds, queued := ?_, own := ?_, live := ?_, job := ?_ } <;>
      grind [Stage.task?]

variable [DecidableEq A]

/-- A task is allocated and filled in. -/
theorem MemoryAt.malloc (h : MemoryAt queue postOf posts xs stage) {t : Thread n P} {func : H}
    {arg : X} {junk : Option A} (hm : queue.mem a = none) (hold : (stage id).task? = none)
    (hjob : posts[id]? = some (func, arg)) :
    MemoryAt { queue with mem := update queue.mem a (some ⟨junk, func, arg⟩) } (update postOf a id)
      posts xs (update stage id (.filled t a)) := by
  have hqueued := h.queued
  have hown := h.own
  have hlive := h.live
  have hjobs := h.job
  -- The address was free, and every queued task is allocated.
  have ha : a ∉ xs := fun hmem => h.holds.linked.live a hmem hm
  refine { holds := h.holds.update ha _, queued := ?_, own := ?_, live := ?_, job := ?_ } <;>
    grind [Stage.task?, Task.job]

/-- A task is appended. -/
theorem MemoryAt.append (h : MemoryAt queue postOf posts xs stage) {t : Thread n P}
    (hold : stage id = .filled t a) (ha : queue.addTask a = some queue') :
    MemoryAt queue' postOf posts (xs ++ [a]) (update stage id (.queued a)) := by
  have hqueued := h.queued
  have hown := h.own
  have hlive := h.live
  have hjobs := h.job
  obtain ⟨hpost, hmem⟩ := hown id a (by rw [hold]; rfl)
  have hnot : a ∉ xs := by
    intro hax
    have := (hqueued id a).mpr ⟨hax, hpost⟩
    rw [hold] at this
    cases this
  obtain ⟨q, hq, hholds, hjob⟩ := h.holds.addTask hnot hmem
  obtain rfl : q = queue' := Option.some.inj (hq.symm.trans ha)
  -- `__add_task` writes links only, so the same tasks are allocated before and after.
  have hnone : ∀ b, q.mem b = none ↔ queue.mem b = none := by
    intro b
    rw [← Option.map_eq_none_iff, hjob b, Option.map_eq_none_iff]
  refine { holds := hholds, queued := ?_, own := ?_, live := ?_, job := ?_ }
  · grind
  · grind [Stage.task?]
  · grind [Stage.task?]
  · intro b t hb
    have hb' := hjob b
    rw [hb] at hb'
    obtain ⟨t', ht', hj⟩ := Option.map_eq_some_iff.mp hb'.symm
    rw [hjobs b t' ht', hj]

/-- A task outside the queue is freed. -/
theorem MemoryAt.free (h : MemoryAt queue postOf posts xs stage)
    (hold : (stage id).task? = some a) (hne : stage id ≠ .queued a) (hst : st.task? = none) :
    MemoryAt { queue with mem := update queue.mem a none } postOf posts xs
      (update stage id st) := by
  have hqueued := h.queued
  have hown := h.own
  have hlive := h.live
  have hjobs := h.job
  -- A task that its post no longer has in the queue is not there for another post either.
  have hpost := (hown id a hold).1
  have ha : a ∉ xs := fun hax => hne ((hqueued id a).mpr ⟨hax, hpost⟩)
  refine { holds := h.holds.update ha _, queued := ?_, own := ?_, live := ?_, job := ?_ } <;>
    grind [Stage.task?]

end Memory

section History

variable {posts : List (H × X)} {result : PostId → Option ℤ} {stage : PostId → Stage n P A}
  {popped freed : List (PostId × Option (Fin n))} {id : PostId} {st : Stage n P A}

/-- A post begins. -/
theorem ResultsAt.post (h : ResultsAt posts result stage) {t : Thread n P} {job : H × X} :
    ResultsAt (posts ++ [job]) result (update stage posts.length (.posting t)) := by
  have hunposted := h.unposted
  have hrefused := h.refused
  have haccepted := h.accepted
  have hnew : stage posts.length = .unposted := (hunposted _).mpr le_rfl
  refine { unposted := ?_, refused := ?_, accepted := ?_ } <;> grind [Stage.isAppended]

/-- A post moves on. -/
theorem ResultsAt.move (h : ResultsAt posts result stage) (hold : (stage id).isOpen = true)
    (hst : st.isOpen = true) (happ : (stage id).isAppended = true → st.isAppended = true) :
    ResultsAt posts result (update stage id st) := by
  have hunposted := h.unposted
  have hrefused := h.refused
  have haccepted := h.accepted
  refine { unposted := ?_, refused := ?_, accepted := ?_ } <;> grind [Stage.isOpen]

/-- A post returns -1. -/
theorem ResultsAt.refuse (h : ResultsAt posts result stage) (hold : stage id ≠ .unposted) :
    ResultsAt posts (update result id (some (-1))) (update stage id .refused) := by
  have hunposted := h.unposted
  have hrefused := h.refused
  have haccepted := h.accepted
  refine { unposted := ?_, refused := ?_, accepted := ?_ } <;> grind

/-- A post that has appended its task returns 0. -/
theorem ResultsAt.accept (h : ResultsAt posts result stage)
    (hold : (stage id).isAppended = true) :
    ResultsAt posts (update result id (some 0)) stage := by
  have hrefused := h.refused
  have haccepted := h.accepted
  refine { unposted := h.unposted, refused := ?_, accepted := ?_ } <;> grind [Stage.isAppended]

/-- A post moves on and is neither popped nor freed. -/
theorem PoppedAt.other (h : PoppedAt popped freed stage) (hold : (stage id).isDrained = false)
    (hst : st.isDrained = false) (hheld : ∀ w a, st ≠ .held w a) :
    PoppedAt popped freed (update stage id st) := by
  have hheld' := h.held
  have hdrained := h.drained
  refine { taken := h.taken, held := ?_, drained := ?_ } <;> grind

/-- A worker pops a task. -/
theorem PoppedAt.hold (h : PoppedAt popped freed stage) (w : Fin n) (a : A)
    (hold : (stage id).isDrained = false) :
    PoppedAt (popped ++ [(id, some w)]) freed (update stage id (.held w a)) := by
  have htaken := h.taken
  have hheld := h.held
  have hdrained := h.drained
  refine { taken := ?_, held := ?_, drained := ?_ } <;> grind [Stage.isDrained]

/-- `__taskqueue_destroy` pops a task. -/
theorem PoppedAt.drain (h : PoppedAt popped freed stage) (a : A) :
    PoppedAt (popped ++ [(id, none)]) freed (update stage id (.draining a)) := by
  have htaken := h.taken
  have hheld := h.held
  have hdrained := h.drained
  refine { taken := ?_, held := ?_, drained := ?_ } <;> grind [Stage.isDrained]

/-- A worker frees a task that it holds. -/
theorem PoppedAt.free (h : PoppedAt popped freed stage) {w : Fin n} {a : A}
    (hold : stage id = .held w a) :
    PoppedAt popped (freed ++ [(id, some w)]) (update stage id (.ready w)) := by
  have htaken := h.taken
  have hheld := h.held
  have hdrained := h.drained
  refine { taken := ?_, held := ?_, drained := ?_ } <;> grind [Stage.isDrained]

/-- `__taskqueue_destroy` frees a task that it holds. -/
theorem PoppedAt.discard (h : PoppedAt popped freed stage) {a : A}
    (hold : stage id = .draining a) :
    PoppedAt popped (freed ++ [(id, none)]) (update stage id .discarded) := by
  have htaken := h.taken
  have hheld := h.held
  have hdrained := h.drained
  refine { taken := ?_, held := ?_, drained := ?_ } <;> grind [Stage.isDrained]

end History

variable {s s' : State n P A H X} {xs : List A} {stage : PostId → Stage n P A}

/-- A post moves between stages past the same points, and nothing is recorded. -/
theorem HistoryAt.records (h : HistoryAt s xs stage) {id : PostId} {st₀ : Stage n P A}
    (st : Stage n P A) (hst : stage id = st₀) (happended : st.isAppended = st₀.isAppended)
    (hfreed : st.isFreed = st₀.isFreed) (hcalled : st.isCalled = st₀.isCalled)
    (hfinished : st.isFinished = st₀.isFinished) :
    Recorded s.appended Stage.isAppended (update stage id st) ∧
      Recorded (s.freed.map Prod.fst) Stage.isFreed (update stage id st) ∧
      Recorded (s.called.map Prod.fst) Stage.isCalled (update stage id st) ∧
      Recorded s.finished Stage.isFinished (update stage id st) := by
  subst hst
  exact ⟨h.appended.keep happended, h.freed.keep hfreed, h.called.keep hcalled,
    h.finished.keep hfinished⟩

/-- A worker that keeps its post, or has none, leaves the stages as they are. -/
theorem Tracked.workers_move (h : Tracked s xs stage) {w : Fin n} {pc : WorkerPc A H X}
    (hs : pc.stage? w = ((s.worker w).stage? w : Option (PostId × Stage n P A))) :
    Custody (fun v => (update s.worker w pc v).stage? v) stage Stage.worker? := by
  have heq : (fun v => (update s.worker w pc v).stage? v : Fin n → Option (PostId × Stage n P A)) =
      fun v => (s.worker v).stage? v := by
    funext v
    by_cases hv : v = w
    · subst hv
      simpa using hs
    · simp [hv]
  rw [heq]
  exact h.workers

/-- What a worker has read, after a step of one of them. -/
theorem Tracked.worker_job_move (h : Tracked s xs stage) {w : Fin n} {pc : WorkerPc A H X}
    (hpc : ∀ id job, pc.job? = some (id, job) → s.posts[id]? = some job) (v : Fin n) (id : PostId)
    (job : H × X) (hv : (update s.worker w pc v).job? = some (id, job)) :
    s.posts[id]? = some job := by
  by_cases hvw : v = w
  · subst hvw
    exact hpc id job (by simpa using hv)
  · exact h.worker_job v id job (by simpa [hvw] using hv)

/-- A broadcast leaves the stages as they are. -/
theorem Tracked.workers_wakeAll (h : Tracked s xs stage) :
    Custody (fun v => (wakeAll s.worker v).stage? v) stage Stage.worker? := by
  have heq : (fun v => (wakeAll s.worker v).stage? v : Fin n → Option (PostId × Stage n P A)) =
      fun v => (s.worker v).stage? v := by
    funext v
    rcases wakeAll_cases s.worker v with ⟨hv, heq⟩ | ⟨-, heq⟩ <;> rw [heq]
    rw [hv]
    rfl
  rw [heq]
  exact h.workers

/-- What a worker has read, after a broadcast. -/
theorem Tracked.worker_job_wakeAll (h : Tracked s xs stage) (v : Fin n) (id : PostId)
    (job : H × X) (hv : (wakeAll s.worker v).job? = some (id, job)) : s.posts[id]? = some job := by
  rcases wakeAll_cases s.worker v with ⟨-, heq⟩ | ⟨-, heq⟩ <;> rw [heq] at hv
  · cases hv
  · exact h.worker_job v id job hv

/-- A post that moves on keeps those appended. -/
theorem isAppended_update {id id' : PostId} {st : Stage n P A}
    (hst : (stage id).isAppended = true → st.isAppended = true)
    (h : (stage id').isAppended = true) : (update stage id st id').isAppended = true := by
  by_cases hid : id' = id
  · subst hid
    simpa using hst h
  · simpa [hid] using h

/-- The threads about to signal, after a post has moved on. -/
theorem Tracked.signal_stage (h : Tracked s xs stage) {id : PostId} {st : Stage n P A}
    (hst : (stage id).isAppended = true → st.isAppended = true) (t : Thread n P) (id' : PostId)
    (ht : s.call t = .postSignal id') : (update stage id st id').isAppended = true :=
  isAppended_update hst (h.signal t id' ht)

/-- A worker pops the oldest task. -/
theorem Tracked.pop (h : Tracked s xs stage) {w : Fin n} {queue : TaskQueue A H X} {task : A}
    (hw : s.worker w = .popTask) (hp : s.queue.popTask = some (queue, some task)) :
    ∃ xs' stage', Tracked { s with
      queue := queue
      worker := update s.worker w (.held (s.postOf task) task)
      popped := s.popped ++ [(s.postOf task, some w)]
      pops := update s.pops w (s.pops w + 1) } xs' stage' := by
  obtain ⟨xs', rfl, hst, hmem⟩ := h.memory.pop hp
  have hist := h.history
  refine ⟨xs', update stage (s.postOf task) (.held w task), ?_⟩
  refine { workers := ?_, calls := h.calls.other (by rw [hst]; rfl) rfl,
           draining := h.draining.other (by rw [hst]; rfl) rfl,
           signal := h.signal_stage fun _ => rfl, worker_job := ?_, call_job := h.call_job,
           memory := hmem _ rfl (by simp), history := ?_ }
  · exact h.workers.take (by rw [hw]; rfl) (by rw [hst]; rfl) rfl (by simp [WorkerPc.stage?])
      fun v hv => by simp [hv]
  · exact h.worker_job_move fun id job hjob => by cases hjob
  · obtain ⟨happended, hfreed, hcalled, hfinished⟩ :=
      hist.records (.held w task) hst rfl rfl rfl rfl
    exact
      { results := hist.results.move (by rw [hst]; rfl) rfl fun _ => rfl
        popped := hist.popped.hold w task (by rw [hst]; rfl)
        appended := happended
        freed := hfreed
        called := hcalled
        finished := hfinished
        called_job := hist.called_job
        fifo := by simp [hist.fifo] }

/-- `__taskqueue_destroy` pops the oldest task. -/
theorem Tracked.drain (h : Tracked s xs stage) {queue : TaskQueue A H X} {task : A}
    (hw : s.wait = .drain) (hp : s.queue.popTask = some (queue, some task)) :
    ∃ xs' stage', Tracked { s with
      queue := queue
      wait := .freeTask (s.postOf task) task
      popped := s.popped ++ [(s.postOf task, none)] } xs' stage' := by
  obtain ⟨xs', rfl, hst, hmem⟩ := h.memory.pop hp
  have hist := h.history
  refine ⟨xs', update stage (s.postOf task) (.draining task), ?_⟩
  refine { workers := h.workers.other (by rw [hst]; rfl) rfl,
           calls := h.calls.other (by rw [hst]; rfl) rfl, draining := ?_,
           signal := h.signal_stage fun _ => rfl, worker_job := h.worker_job,
           call_job := h.call_job, memory := hmem _ rfl (by simp), history := ?_ }
  · exact h.draining.take (by rw [hw]; rfl) (by rw [hst]; rfl) rfl rfl
      fun j hj => absurd (Subsingleton.elim j ()) hj
  · obtain ⟨happended, hfreed, hcalled, hfinished⟩ :=
      hist.records (.draining task) hst rfl rfl rfl rfl
    exact
      { results := hist.results.move (by rw [hst]; rfl) rfl fun _ => rfl
        popped := hist.popped.drain task
        appended := happended
        freed := hfreed
        called := hcalled
        finished := hfinished
        called_job := hist.called_job
        fifo := by simp [hist.fifo] }

/-- A worker reads its task. -/
theorem Tracked.read (h : Tracked s xs stage) {w : Fin n} {id : PostId} {task : A}
    {t : Task A H X} (hw : s.worker w = .held id task) (hm : s.queue.mem task = some t) :
    ∃ xs' stage', Tracked { s with
      worker := update s.worker w (.loaded id task t.func t.arg) } xs' stage' := by
  have hw' : (s.worker w).stage? w = some (id, Stage.held (P := P) w task) := by rw [hw]; rfl
  have hst : stage id = .held w task := h.workers.stage_eq hw'
  -- The task is still the one that this post has filled in.
  obtain ⟨hpost, -⟩ := h.memory.own id task (by rw [hst]; rfl)
  have hjob : s.posts[id]? = some (t.func, t.arg) := hpost ▸ h.memory.job task t hm
  refine ⟨xs, stage, { h with workers := ?_, worker_job := ?_, history := { h.history with } }⟩
  · exact h.workers_move (by rw [hw]; rfl)
  · refine h.worker_job_move fun id' job heq => ?_
    obtain ⟨rfl, rfl⟩ : id = id' ∧ (t.func, t.arg) = job := by
      simpa [WorkerPc.job?] using heq
    exact hjob

/-- A worker calls a handler. -/
theorem Tracked.invoke (h : Tracked s xs stage) {w : Fin n} {id : PostId} {func : H} {ctx : X}
    (hw : s.worker w = .ready id func ctx) :
    ∃ xs' stage', Tracked { s with
      worker := update s.worker w (.running id)
      called := s.called ++ [(id, func, ctx)] } xs' stage' := by
  have hw' : (s.worker w).stage? w = some (id, Stage.ready (P := P) (A := A) w) := by rw [hw]; rfl
  have hst : stage id = .ready w := h.workers.stage_eq hw'
  have hjob : s.posts[id]? = some (func, ctx) := h.worker_job w id _ (by rw [hw]; rfl)
  have hist := h.history
  -- What the worker has read of its task is what was posted.
  have hcalled : ∀ c ∈ s.called ++ [(id, func, ctx)], s.posts[c.1]? = some c.2 := by
    intro c hc
    rcases List.mem_append.mp hc with hc | hc
    · exact hist.called_job c hc
    · obtain rfl := List.mem_singleton.mp hc
      exact hjob
  refine ⟨xs, update stage id (.running w), ?_⟩
  refine { workers := ?_, calls := h.calls.other (by rw [hst]; rfl) rfl,
           draining := h.draining.other (by rw [hst]; rfl) rfl,
           signal := h.signal_stage fun _ => rfl, worker_job := ?_, call_job := h.call_job,
           memory := h.memory.other (by rw [hst]; rfl) rfl, history := ?_ }
  · exact h.workers.advance hw' rfl (by simp [WorkerPc.stage?]) fun v hv => by simp [hv]
  · exact h.worker_job_move fun id' job hjob => by cases hjob
  · exact
      { results := hist.results.move (by rw [hst]; rfl) rfl fun _ => rfl
        popped := hist.popped.other (by rw [hst]; rfl) rfl (by simp)
        appended := hist.appended.keep (by rw [hst]; rfl)
        freed := hist.freed.keep (by rw [hst]; rfl)
        called := by simpa using hist.called.add (by rw [hst]; rfl) rfl
        finished := hist.finished.keep (by rw [hst]; rfl)
        called_job := hcalled
        fifo := hist.fifo }

/-- A handler returns. -/
theorem Tracked.finish (h : Tracked s xs stage) {w : Fin n} {id : PostId}
    (hw : s.worker w = .running id) :
    ∃ xs' stage', Tracked { s with
      worker := update s.worker w .quitTest
      finished := s.finished ++ [id] } xs' stage' := by
  have hw' : (s.worker w).stage? w = some (id, Stage.running (P := P) (A := A) w) := by
    rw [hw]; rfl
  have hst : stage id = .running w := h.workers.stage_eq hw'
  have hist := h.history
  refine ⟨xs, update stage id .finished, ?_⟩
  refine { workers := ?_, calls := h.calls.other (by rw [hst]; rfl) rfl,
           draining := h.draining.other (by rw [hst]; rfl) rfl,
           signal := h.signal_stage fun _ => rfl, worker_job := ?_, call_job := h.call_job,
           memory := h.memory.other (by rw [hst]; rfl) rfl, history := ?_ }
  · exact h.workers.drop hw' rfl (by simp [WorkerPc.stage?]) fun v hv => by simp [hv]
  · exact h.worker_job_move fun id' job hjob => by cases hjob
  · exact
      { results := hist.results.move (by rw [hst]; rfl) rfl fun _ => rfl
        popped := hist.popped.other (by rw [hst]; rfl) rfl (by simp)
        appended := hist.appended.keep (by rw [hst]; rfl)
        freed := hist.freed.keep (by rw [hst]; rfl)
        called := hist.called.keep (by rw [hst]; rfl)
        finished := hist.finished.add (by rw [hst]; rfl) rfl
        called_job := hist.called_job
        fifo := hist.fifo }

section Free

variable [DecidableEq A]

/-- A worker frees its task. -/
theorem Tracked.free (h : Tracked s xs stage) {w : Fin n} {id : PostId} {task : A} {func : H}
    {ctx : X} (hw : s.worker w = .loaded id task func ctx) :
    ∃ xs' stage', Tracked { s with
      queue := { s.queue with mem := update s.queue.mem task none }
      worker := update s.worker w (.ready id func ctx)
      freed := s.freed ++ [(id, some w)] } xs' stage' := by
  have hw' : (s.worker w).stage? w = some (id, Stage.held (P := P) w task) := by rw [hw]; rfl
  have hst : stage id = .held w task := h.workers.stage_eq hw'
  have hist := h.history
  refine ⟨xs, update stage id (.ready w), ?_⟩
  refine { workers := ?_, calls := h.calls.other (by rw [hst]; rfl) rfl,
           draining := h.draining.other (by rw [hst]; rfl) rfl,
           signal := h.signal_stage fun _ => rfl, worker_job := ?_, call_job := h.call_job,
           memory := h.memory.free (by rw [hst]; rfl) (by simp [hst]) rfl, history := ?_ }
  · exact h.workers.advance hw' rfl (by simp [WorkerPc.stage?]) fun v hv => by simp [hv]
  · refine h.worker_job_move fun id' job hjob => h.worker_job w id' job ?_
    rw [hw]
    exact hjob
  · exact
      { results := hist.results.move (by rw [hst]; rfl) rfl fun _ => rfl
        popped := hist.popped.free hst
        appended := hist.appended.keep (by rw [hst]; rfl)
        freed := by simpa using hist.freed.add (by rw [hst]; rfl) rfl
        called := hist.called.keep (by rw [hst]; rfl)
        finished := hist.finished.keep (by rw [hst]; rfl)
        called_job := hist.called_job
        fifo := hist.fifo }

/-- `__taskqueue_destroy` frees its task. -/
theorem Tracked.discard (h : Tracked s xs stage) {id : PostId} {task : A}
    (hw : s.wait = .freeTask id task) :
    ∃ xs' stage', Tracked { s with
      queue := { s.queue with mem := update s.queue.mem task none }
      wait := .drain
      freed := s.freed ++ [(id, none)] } xs' stage' := by
  have hw' : s.wait.stage? = some (id, Stage.draining (n := n) (P := P) task) := by rw [hw]; rfl
  have hst : stage id = .draining task := h.draining.stage_eq (i := ()) hw'
  have hist := h.history
  refine ⟨xs, update stage id .discarded, ?_⟩
  refine { workers := h.workers.other (by rw [hst]; rfl) rfl,
           calls := h.calls.other (by rw [hst]; rfl) rfl, draining := ?_,
           signal := h.signal_stage fun _ => rfl, worker_job := h.worker_job,
           call_job := h.call_job,
           memory := h.memory.free (by rw [hst]; rfl) (by simp [hst]) rfl, history := ?_ }
  · exact h.draining.drop (i := ()) hw' rfl rfl fun j hj => absurd (Subsingleton.elim j ()) hj
  · exact
      { results := hist.results.move (by rw [hst]; rfl) rfl fun _ => rfl
        popped := hist.popped.discard hst
        appended := hist.appended.keep (by rw [hst]; rfl)
        freed := by simpa using hist.freed.add (by rw [hst]; rfl) rfl
        called := hist.called.keep (by rw [hst]; rfl)
        finished := hist.finished.keep (by rw [hst]; rfl)
        called_job := hist.called_job
        fifo := hist.fifo }

end Free

variable [DecidableEq P]

/-- A thread that keeps its post, or has none, leaves the stages as they are. -/
theorem Tracked.calls_move (h : Tracked s xs stage) {t : Thread n P} {pc : CallPc A H X}
    (hs : pc.stage? t = (s.call t).stage? t) :
    Custody (fun u => (update s.call t pc u).stage? u) stage Stage.call? := by
  have heq : (fun u => (update s.call t pc u).stage? u) = fun u => (s.call u).stage? u := by
    funext u
    by_cases hu : u = t
    · subst hu
      simpa using hs
    · simp [hu]
  rw [heq]
  exact h.calls

/-- What a thread is to fill its task with, after a step of one of them. -/
theorem Tracked.call_job_move (h : Tracked s xs stage) {t : Thread n P} {pc : CallPc A H X}
    (hpc : ∀ id job, pc.job? = some (id, job) → s.posts[id]? = some job) (u : Thread n P)
    (id : PostId) (job : H × X) (hu : (update s.call t pc u).job? = some (id, job)) :
    s.posts[id]? = some job := by
  by_cases hut : u = t
  · subst hut
    exact hpc id job (by simpa using hu)
  · exact h.call_job u id job (by simpa [hut] using hu)

/-- The threads about to signal, after a step of one of them. -/
theorem Tracked.signal_move (h : Tracked s xs stage) {t : Thread n P} {pc : CallPc A H X}
    {stage' : PostId → Stage n P A}
    (hpc : ∀ id, pc = .postSignal id → (stage' id).isAppended = true)
    (hst : ∀ id, (stage id).isAppended = true → (stage' id).isAppended = true) (u : Thread n P)
    (id : PostId) (hu : update s.call t pc u = .postSignal id) :
    (stage' id).isAppended = true := by
  by_cases hut : u = t
  · subst hut
    exact hpc id (by simpa using hu)
  · exact hst id (h.signal u id (by simpa [hut] using hu))

/-- `thrdpool_post` is called. -/
theorem Tracked.post (h : Tracked s xs stage) {t : Thread n P} {func : H} {arg : X}
    (hc : s.call t = .idle) :
    ∃ xs' stage', Tracked { s with
      call := update s.call t (.postQuit s.posts.length func arg)
      posts := s.posts ++ [(func, arg)] } xs' stage' := by
  have hist := h.history
  -- The post gets the next number, which none has had.
  have hst : stage s.posts.length = .unposted := (hist.results.unposted _).mpr le_rfl
  refine ⟨xs, update stage s.posts.length (.posting t), ?_⟩
  refine { workers := h.workers.other (by rw [hst]; rfl) rfl, calls := ?_,
           draining := h.draining.other (by rw [hst]; rfl) rfl, signal := ?_, worker_job := ?_,
           call_job := ?_, memory := h.memory.post (by rw [hst]; rfl), history := ?_ }
  · exact h.calls.take (by rw [hc]; rfl) (by rw [hst]; rfl) rfl (by simp [CallPc.stage?])
      fun u hu => by simp [hu]
  · refine h.signal_move (fun id heq => by cases heq) fun id hid => isAppended_update ?_ hid
    rw [hst]
    exact fun hfalse => by cases hfalse
  · exact fun w id job hw => getElem?_concat (h.worker_job w id job hw)
  · intro u id job hu
    by_cases hut : u = t
    · subst hut
      obtain ⟨rfl, rfl⟩ : s.posts.length = id ∧ (func, arg) = job := by
        simpa [CallPc.job?] using hu
      simp
    · exact getElem?_concat (h.call_job u id job (by simpa [hut] using hu))
  · obtain ⟨happended, hfreed, hcalled, hfinished⟩ :=
      hist.records (.posting t) hst rfl rfl rfl rfl
    exact
      { results := hist.results.post
        popped := hist.popped.other (by rw [hst]; rfl) rfl (by simp)
        appended := happended
        freed := hfreed
        called := hcalled
        finished := hfinished
        called_job := fun c hc => getElem?_concat (hist.called_job c hc)
        fifo := hist.fifo }

/-- `thrdpool_post` returns -1. -/
theorem Tracked.refuse (h : Tracked s xs stage) {t : Thread n P} {id : PostId}
    (hc : (s.call t).stage? t = some (id, .posting t)) :
    ∃ xs' stage', Tracked { s with
      call := update s.call t .idle
      result := update s.result id (some (-1)) } xs' stage' := by
  have hist := h.history
  have hst : stage id = .posting t := h.calls.stage_eq hc
  refine ⟨xs, update stage id .refused, ?_⟩
  refine { workers := h.workers.other (by rw [hst]; rfl) rfl, calls := ?_,
           draining := h.draining.other (by rw [hst]; rfl) rfl, signal := ?_,
           worker_job := h.worker_job, call_job := ?_,
           memory := h.memory.other (by rw [hst]; rfl) rfl, history := ?_ }
  · exact h.calls.drop hc rfl (by simp [CallPc.stage?]) fun u hu => by simp [hu]
  · refine h.signal_move (fun id heq => by cases heq) fun id hid => isAppended_update ?_ hid
    rw [hst]
    exact fun hfalse => by cases hfalse
  · exact h.call_job_move fun id job heq => by cases heq
  · obtain ⟨happended, hfreed, hcalled, hfinished⟩ :=
      hist.records .refused hst rfl rfl rfl rfl
    exact
      { results := hist.results.refuse (by simp [hst])
        popped := hist.popped.other (by rw [hst]; rfl) rfl (by simp)
        appended := happended
        freed := hfreed
        called := hcalled
        finished := hfinished
        called_job := hist.called_job
        fifo := hist.fifo }

/-- `thrdpool_post` returns 0. -/
theorem Tracked.accept (h : Tracked s xs stage) {t : Thread n P} {id : PostId}
    (hc : s.call t = .postSignal id) :
    Tracked { s with
      call := update s.call t .idle
      result := update s.result id (some 0) } xs stage := by
  have hist := h.history
  refine { h with calls := ?_, signal := ?_, call_job := ?_, history := ?_ }
  · exact h.calls_move (by rw [hc]; rfl)
  · exact h.signal_move (fun id heq => by cases heq) fun id hid => hid
  · exact h.call_job_move fun id job heq => by cases heq
  · exact { hist with results := hist.results.accept (h.signal t id hc) }

variable [DecidableEq A] {a : Action n P A H X}

/-- `thrdpool_post` fills its task in. -/
theorem Tracked.malloc (h : Tracked s xs stage) {t : Thread n P} {id : PostId} {func : H}
    {arg : X} {task : A} {junk : Option A} (hc : s.call t = .postMalloc id func arg)
    (hm : s.queue.mem task = none) :
    ∃ xs' stage', Tracked { s with
      queue := { s.queue with mem := update s.queue.mem task (some ⟨junk, func, arg⟩) }
      call := update s.call t (.postAppend id task)
      postOf := update s.postOf task id } xs' stage' := by
  have hist := h.history
  have hc' : (s.call t).stage? t = some (id, Stage.posting t) := by rw [hc]; rfl
  have hst : stage id = .posting t := h.calls.stage_eq hc'
  have hjob : s.posts[id]? = some (func, arg) := h.call_job t id _ (by rw [hc]; rfl)
  -- The queue keeps its posts though the address now belongs to this one.
  have hfifo : xs.map (update s.postOf task id) = xs.map s.postOf := by
    -- The task is not in the queue, whose tasks are all allocated.
    refine List.map_congr_left fun b hb => Function.update_of_ne ?_ _ _
    rintro rfl
    exact h.memory.holds.linked.live b hb hm
  refine ⟨xs, update stage id (.filled t task), ?_⟩
  refine { workers := h.workers.other (by rw [hst]; rfl) rfl, calls := ?_,
           draining := h.draining.other (by rw [hst]; rfl) rfl, signal := ?_,
           worker_job := h.worker_job, call_job := ?_,
           memory := h.memory.malloc hm (by rw [hst]; rfl) hjob, history := ?_ }
  · exact h.calls.advance hc' rfl (by simp [CallPc.stage?]) fun u hu => by simp [hu]
  · refine h.signal_move (fun id heq => by cases heq) fun id hid => isAppended_update ?_ hid
    rw [hst]
    exact fun hfalse => by cases hfalse
  · exact h.call_job_move fun id job heq => by cases heq
  · obtain ⟨happended, hfreed, hcalled, hfinished⟩ :=
      hist.records (.filled t task) hst rfl rfl rfl rfl
    exact
      { results := hist.results.move (by rw [hst]; rfl) rfl (by simp [hst, Stage.isAppended])
        popped := hist.popped.other (by rw [hst]; rfl) rfl (by simp)
        appended := happended
        freed := hfreed
        called := hcalled
        finished := hfinished
        called_job := hist.called_job
        fifo := hist.fifo.trans (by rw [hfifo]) }

/-- `__add_task` appends the task. -/
theorem Tracked.append (h : Tracked s xs stage) {t : Thread n P} {id : PostId} {task : A}
    {queue : TaskQueue A H X} (hc : s.call t = .postAppend id task)
    (ha : s.queue.addTask task = some queue) :
    ∃ xs' stage', Tracked { s with
      queue := queue
      call := update s.call t (.postSignal id)
      appended := s.appended ++ [id] } xs' stage' := by
  have hist := h.history
  have hc' : (s.call t).stage? t = some (id, Stage.filled t task) := by rw [hc]; rfl
  have hst : stage id = .filled t task := h.calls.stage_eq hc'
  obtain ⟨hpost, -⟩ := h.memory.own id task (by rw [hst]; rfl)
  -- The task goes from the caller to the end of the queue, and nothing else changes hands.
  refine ⟨xs ++ [task], update stage id (.queued task), ?_⟩
  refine { workers := h.workers.other (by rw [hst]; rfl) rfl, calls := ?_,
           draining := h.draining.other (by rw [hst]; rfl) rfl, signal := ?_,
           worker_job := h.worker_job, call_job := ?_,
           memory := h.memory.append hst ha, history := ?_ }
  · exact h.calls.drop hc' rfl (by simp [CallPc.stage?]) fun u hu => by simp [hu]
  · refine h.signal_move (fun id' heq => ?_) fun id' hid => isAppended_update (fun _ => rfl) hid
    obtain rfl : id = id' := by simpa using heq
    simp [Stage.isAppended]
  · exact h.call_job_move fun id job heq => by cases heq
  · exact
      { results := hist.results.move (by rw [hst]; rfl) rfl fun _ => rfl
        popped := hist.popped.other (by rw [hst]; rfl) rfl (by simp)
        appended := hist.appended.add (by rw [hst]; rfl) rfl
        freed := hist.freed.keep (by rw [hst]; rfl)
        called := hist.called.keep (by rw [hst]; rfl)
        finished := hist.finished.keep (by rw [hst]; rfl)
        called_job := hist.called_job
        fifo := by simp [hist.fifo, hpost] }

/-- Every step moves one post to its next stage or none at all. -/
theorem Tracked.step (h : Tracked s xs stage) (heff : Effect s a s') :
    ∃ xs' stage', Tracked s' xs' stage' := by
  have hist := h.history
  cases heff with
  -- The thread moves and its post, if it has one, does not.
  | quitSeen w hw | quitPassed w hw | popNull w queue hw | lock w hw | blocking w hw
  | nonblocking w hw | leave w hw | sleep w hw | relock w hw | unlock w hw | spurious w hw =>
    refine ⟨xs, stage, { h with workers := ?_, worker_job := ?_, history := { hist with } }⟩
    · exact h.workers_move (by rw [hw]; rfl)
    · exact h.worker_job_move fun id job hjob => by cases hjob
  | terminate t hc | setQuit t hc | termLock t hc | setNonblock t hc | termUnlock t hc =>
    refine ⟨xs, stage, { h with calls := ?_, signal := ?_, call_job := ?_,
                                history := { hist with } }⟩
    · exact h.calls_move (by rw [hc]; rfl)
    · exact h.signal_move (fun id heq => by cases heq) fun id hid => hid
    · exact h.call_job_move fun id job hjob => by cases hjob
  | waitdone hw | join i hi hw | joined i hi hw | drainNull queue hw | destroy hw | freePool hw =>
    refine ⟨xs, stage, { h with draining := ?_, history := { hist with } }⟩
    have hd := h.draining
    rw [hw] at hd
    exact hd
  | broadcast t hc =>
    refine ⟨xs, stage, { h with workers := h.workers_wakeAll, worker_job := h.worker_job_wakeAll,
                                calls := ?_, signal := ?_, call_job := ?_,
                                history := { hist with } }⟩
    · exact h.calls_move (by rw [hc]; rfl)
    · exact h.signal_move (fun id heq => by cases heq) fun id hid => hid
    · exact h.call_job_move fun id job hjob => by cases hjob
  | pop w queue task hw hp => exact h.pop hw hp
  | read w id task t hw hm => exact h.read hw hm
  | free w id task func ctx hw => exact h.free hw
  | invoke w id func ctx hw => exact h.invoke hw
  | finish w id hw hc => exact h.finish hw
  | post t func arg hc hr => exact h.post hc
  | refuse t id func arg hc hq => exact h.refuse (by rw [hc]; rfl)
  | accept t id func arg hc hq =>
    refine ⟨xs, stage, { h with calls := ?_, signal := ?_, call_job := ?_,
                                history := { hist with } }⟩
    · exact h.calls_move (by rw [hc]; rfl)
    · exact h.signal_move (fun id heq => by cases heq) fun id hid => hid
    · refine h.call_job_move fun id' job hjob => h.call_job t id' job ?_
      rw [hc]
      exact hjob
  | mallocNull t id func arg hc => exact h.refuse (by rw [hc]; rfl)
  | malloc t id func arg task junk hc hm => exact h.malloc hc hm
  | append t id task queue hc hl ha => exact h.append hc ha
  | signal t id w hc hl hw =>
    have hacc := h.accept hc
    refine ⟨xs, stage, { hacc with workers := ?_, worker_job := ?_,
                                   history := { hacc.history with } }⟩
    · exact h.workers_move (by rw [hw]; rfl)
    · exact h.worker_job_move fun id job hjob => by cases hjob
  | signalLost t id hc hl hw => exact ⟨xs, stage, h.accept hc⟩
  | drain queue task hw hp => exact h.drain hw hp
  | discard id task hw => exact h.discard hw

/-- The posts have their stages in every run. -/
theorem tracked_of_reaches {ok : State n P A H X → Action n P A H X → Prop}
    (h : Lib.Reaches step ok (State.init n P A H X) s) : ∃ xs stage, Tracked s xs stage := by
  refine invariant_of_effect (fun s => ∃ xs stage, Tracked s xs stage) h
    ⟨[], fun _ => .unposted, ?_⟩ fun t a u ⟨xs, stage, ht⟩ _ heff => ht.step heff
  exact
    { workers := Custody.init (fun _ => rfl) fun _ => rfl
      calls := Custody.init (fun _ => rfl) fun _ => rfl
      draining := Custody.init (fun _ => rfl) fun _ => rfl
      signal := fun _ _ heq => by cases heq
      worker_job := fun _ _ _ heq => by cases heq
      call_job := fun _ _ _ heq => by cases heq
      memory :=
        { holds := TaskQueue.holds_create
          queued := fun _ _ => ⟨fun heq => (by cases heq), fun hq => by cases hq.1⟩
          own := fun _ _ heq => by cases heq
          live := fun _ hne => absurd rfl hne
          job := fun _ _ heq => by cases heq }
      history :=
        { results :=
            { unposted := fun id => ⟨fun _ => Nat.zero_le id, fun _ => rfl⟩
              refused := fun _ => ⟨fun heq => (by cases heq), fun heq => by cases heq⟩
              accepted := fun _ heq => by cases heq }
          popped :=
            { taken := fun _ he => by cases he
              held := fun _ _ _ heq => by cases heq
              drained := fun _ => by simp [State.init, Stage.isDrained] }
          appended := fun _ => rfl
          freed := fun _ => rfl
          called := fun _ => rfl
          finished := fun _ => rfl
          called_job := fun _ hc => by cases hc
          fifo := rfl } }

end CPStudy.ThrdPool
