import CPStudy.Lib.Count
import CPStudy.ThrdPool.Waitdone

/-!
# Single ownership of the tasks of the C thread pool

`places` counts where the task of a post is: in the queue, with the workers, with
`__taskqueue_destroy`, and among the freed ones. Each of the four numbers can be read off the stage
of the post, and they add up to one from the append on. Tasks are told apart by their posts, so
that an address that `malloc` hands out again belongs to a new task.
-/

namespace CPStudy.ThrdPool

open Lib (countOf)

section Predicates

variable {A H X : Type*}

/-- The task that a worker holds between `__pop_task` and `free`, with its post. -/
def WorkerPc.node? : WorkerPc A H X → Option (PostId × A)
  | .held post task => some (post, task)
  | .loaded post task _ _ => some (post, task)
  | _ => none

/-- The task that `__taskqueue_destroy` holds between `__pop_task` and `free`, with its post. -/
def WaitPc.node? : WaitPc A → Option (PostId × A)
  | .freeTask post task => some (post, task)
  | _ => none

/-- The worker holds the task of the post. -/
def WorkerPc.holds (id : PostId) (pc : WorkerPc A H X) : Bool :=
  pc.node?.any fun node => node.1 == id

/-- `__taskqueue_destroy` holds the task of the post. -/
def WaitPc.holds (id : PostId) (pc : WaitPc A) : Bool :=
  pc.node?.any fun node => node.1 == id

end Predicates

namespace Stage

variable {n : ℕ} {P A : Type*}

/-- The task is in the queue. -/
def isQueued : Stage n P A → Bool
  | queued _ => true
  | _ => false

/-- A worker has the task. -/
def isHeld : Stage n P A → Bool
  | held _ _ => true
  | _ => false

/-- `__taskqueue_destroy` has the task. -/
def isDraining : Stage n P A → Bool
  | draining _ => true
  | _ => false

end Stage

variable {n : ℕ} {P A H X : Type*}

/-- In how many places the task of a post is, where the queue consists of `xs`: in the queue, with
a worker, with `__taskqueue_destroy`, freed. -/
def places (s : State n P A H X) (xs : List A) (id : PostId) : ℕ :=
  (xs.map s.postOf).count id + countOf (WorkerPc.holds id) s.worker + (s.wait.holds id).toNat +
    (s.freed.map Prod.fst).count id

/-- Every task has one owner, where the queue consists of `xs`. -/
structure SingleOwnership (s : State n P A H X) (xs : List A) : Prop where
  /-- The links of the queue lead through `xs`. -/
  queue : s.queue.Holds xs
  /-- A post that has returned 0 has appended its task. -/
  accepted : ∀ id, s.result id = some 0 → id ∈ s.appended
  /-- A task that was appended is in exactly one place. -/
  place : ∀ id ∈ s.appended, places s xs id = 1
  /-- A post that has returned -1 has no task anywhere. -/
  refused : ∀ id, s.result id = some (-1) → id ∉ s.appended ∧ places s xs id = 0
  /-- What a worker holds is allocated and is the task of its post. -/
  held : ∀ w id task, (s.worker w).node? = some (id, task) →
    s.queue.mem task ≠ none ∧ s.postOf task = id
  /-- What `__taskqueue_destroy` holds is allocated and is the task of its post. -/
  draining : ∀ id task, s.wait.node? = some (id, task) →
    s.queue.mem task ≠ none ∧ s.postOf task = id
  /-- No task is freed twice. -/
  freed_once : (s.freed.map Prod.fst).Nodup
  /-- A task is freed by the worker that popped it, or by `__taskqueue_destroy` where that did. -/
  freed_by : ∀ e ∈ s.freed, e ∈ s.popped
  /-- When `thrdpool_waitdone` has returned every task is freed. -/
  freed_all : s.wait = .returned → ∀ id ∈ s.appended, id ∈ s.freed.map Prod.fst
  /-- No handler is called twice for one post. -/
  called_once : (s.called.map Prod.fst).Nodup
  /-- A handler is called with what was posted. -/
  called_job : ∀ c ∈ s.called, s.posts[c.1]? = some c.2
  /-- No task is appended twice. -/
  appended_once : s.appended.Nodup
  /-- Tasks are popped in the order in which they were appended. -/
  fifo : s.popped.map Prod.fst <+: s.appended

section Predicates

/-- The task of a post is in the queue exactly when the post is in that stage. -/
theorem Stage.isQueued_iff (st : Stage n P A) : st.isQueued = true ↔ ∃ a, st = .queued a := by
  cases st <;> simp [isQueued]

/-- `__taskqueue_destroy` has the task of a post exactly when the post is in that stage. -/
theorem Stage.isDraining_iff (st : Stage n P A) :
    st.isDraining = true ↔ ∃ a, st = .draining a := by
  cases st <;> simp [isDraining]

/-- `__taskqueue_destroy` holds a task exactly when the post is in that stage. -/
theorem WaitPc.holds_iff {id : PostId} {pc : WaitPc A} :
    pc.holds id = true ↔ ∃ task, pc.stage? = some (id, (.draining task : Stage n P A)) := by
  cases pc <;> simp [holds, node?, stage?]

/-- A worker holds a task exactly when the post is in that stage. -/
theorem WorkerPc.holds_iff {id : PostId} {pc : WorkerPc A H X} (w : Fin n) :
    pc.holds id = true ↔
      ∃ task, pc.stage? w = some (id, (.held w task : Stage n P A)) := by
  cases pc <;> simp [holds, node?, stage?]

/-- The stage of a post whose task a worker holds. -/
theorem WorkerPc.stage_of_node {id : PostId} {task : A} {pc : WorkerPc A H X} (w : Fin n)
    (h : pc.node? = some (id, task)) :
    pc.stage? w = some (id, (.held w task : Stage n P A)) := by
  cases pc <;> simp_all [node?, stage?]

/-- The stage of a post whose task `__taskqueue_destroy` holds. -/
theorem WaitPc.stage_of_node {id : PostId} {task : A} {pc : WaitPc A}
    (h : pc.node? = some (id, task)) :
    pc.stage? = some (id, (.draining task : Stage n P A)) := by
  cases pc <;> simp_all [node?, stage?]

end Predicates

variable {s : State n P A H X} {xs : List A} {stage : PostId → Stage n P A}

/-- How often the queue has the task of a post. -/
theorem Tracked.count_queued (h : Tracked s xs stage) (id : PostId) :
    (xs.map s.postOf).count id = (stage id).isQueued.toNat := by
  have hqueued := h.memory.queued
  have hmem : id ∈ xs.map s.postOf ↔ (stage id).isQueued = true := by
    rw [List.mem_map]
    constructor
    · rintro ⟨a, ha, hid⟩
      rw [(hqueued id a).mpr ⟨ha, hid⟩]
      rfl
    · intro hst
      obtain ⟨a, ha⟩ := (Stage.isQueued_iff _).mp hst
      exact ⟨a, (hqueued id a).mp ha⟩
  have hnodup : (xs.map s.postOf).Nodup := by
    refine List.Nodup.map_on (fun a ha b hb hab => ?_) h.memory.holds.nodup
    -- Two tasks of one post are one task.
    have hsa := (hqueued (s.postOf b) a).mpr ⟨ha, hab⟩
    have hsb := (hqueued (s.postOf b) b).mpr ⟨hb, rfl⟩
    rw [hsa] at hsb
    cases hsb
    rfl
  cases hst : (stage id).isQueued with
  | true => exact List.count_eq_one_of_mem hnodup (hmem.mpr hst)
  | false => exact List.count_eq_zero.mpr fun hid => by simp [hmem.mp hid] at hst

/-- How many workers have the task of a post. -/
theorem Tracked.count_held (h : Tracked s xs stage) (id : PostId) :
    countOf (WorkerPc.holds id) s.worker = (stage id).isHeld.toNat := by
  -- A post in a worker's hands names the worker in its stage, so one worker at most has it.
  have hstage : ∀ w, (s.worker w).holds id = true → ∃ a, stage id = .held w a := by
    intro w hw
    obtain ⟨a, ha⟩ := (WorkerPc.holds_iff (P := P) w).mp hw
    exact ⟨a, h.workers.stage_eq ha⟩
  cases hst : stage id with
  | held w a =>
    refine Lib.countOf_eq_one _ _ (i := w) ?_ fun v hv => ?_
    · exact (WorkerPc.holds_iff w).mpr ⟨a, (h.workers w id _).mpr ⟨hst, rfl⟩⟩
    · obtain ⟨b, hb⟩ := hstage v hv
      rw [hst] at hb
      cases hb
      rfl
  | _ =>
    refine (Lib.countOf_eq_zero _ _).mpr fun w => ?_
    rw [← Bool.not_eq_true]
    intro hw
    obtain ⟨a, ha⟩ := hstage w hw
    rw [hst] at ha
    cases ha

/-- Whether `__taskqueue_destroy` has the task of a post. -/
theorem Tracked.count_draining (h : Tracked s xs stage) (id : PostId) :
    s.wait.holds id = (stage id).isDraining := by
  rw [Bool.eq_iff_iff, WaitPc.holds_iff (n := n) (P := P), Stage.isDraining_iff]
  constructor
  · rintro ⟨a, ha⟩
    exact ⟨a, h.draining.stage_eq (i := ()) ha⟩
  · rintro ⟨a, ha⟩
    exact ⟨a, (h.draining () id _).mpr ⟨ha, rfl⟩⟩

/-- The task of a post is in one place from its append on, and nowhere before. -/
theorem Tracked.places_eq (h : Tracked s xs stage) (id : PostId) :
    places s xs id = (stage id).isAppended.toNat := by
  -- Each stage from the append on is in one of the four counts, and no other is in any.
  unfold places
  rw [h.count_queued, h.count_held, h.count_draining, h.history.freed id]
  cases stage id <;> rfl

variable [DecidableEq A] [DecidableEq P]

/-- In every run of a program that calls `thrdpool_waitdone` when no `thrdpool_post` is in
progress, every task has one owner at every moment. -/
theorem single_ownership
    (h : Lib.Reaches step (fun s a => a.Disciplined s) (State.init n P A H X) s) :
    ∃ xs, SingleOwnership s xs := by
  obtain ⟨xs, stage, ht⟩ := tracked_of_reaches h
  have hw := waited_of_reaches (fun _ _ hok => hok) h
  have hist := ht.history
  refine ⟨xs, ?_⟩
  exact
    { queue := ht.memory.holds
      accepted := fun id hid => hist.appended.mem_iff.mpr (hist.results.accepted id hid)
      place := fun id hid => by rw [ht.places_eq, hist.appended.mem_iff.mp hid]; rfl
      refused := fun id hid => by
        have hst := (hist.results.refused id).mp hid
        rw [ht.places_eq, hist.appended.mem_iff, hst]
        exact ⟨by simp [Stage.isAppended], rfl⟩
      held := fun w id task hnode => by
        have hst := ht.workers.stage_eq (WorkerPc.stage_of_node w hnode)
        exact (ht.memory.own id task (by rw [hst]; rfl)).symm
      draining := fun id task hnode => by
        have hst := ht.draining.stage_eq (i := ()) (WaitPc.stage_of_node hnode)
        exact (ht.memory.own id task (by rw [hst]; rfl)).symm
      freed_once := hist.freed.nodup
      freed_by := hist.popped.taken
      freed_all := fun hr id hid => by
        rw [hist.freed.mem_iff]
        rcases ht.stage_of_returned hw hr hid with hst | hst <;> rw [hst] <;> rfl
      called_once := hist.called.nodup
      called_job := hist.called_job
      appended_once := hist.appended.nodup
      fifo := ⟨xs.map s.postOf, hist.fifo.symm⟩ }

/-- A worker runs the first task; the second one is filled in at the same address, and is left to
`__taskqueue_destroy`. -/
def recycledRun (w : Fin n) (t : Thread n P) : List (Action n P ℕ ℕ ℕ) :=
  postCall t 7 8 0 ++ [.signal t none] ++ workSteps w 5 ++ postCall t 7 9 0 ++ [.signal t none] ++
    terminateCall t ++ workSteps w 2 ++ waitdoneCall 7

/-- Two posts whose tasks had the same address have each been freed once. -/
theorem single_ownership_recycled : ∃ (s : State 1 (Fin 1) ℕ ℕ ℕ) (xs : List ℕ),
    s.wait.poolFreed = true ∧ s.appended = [0, 1] ∧ s.postOf 0 = 1 ∧ SingleOwnership s xs := by
  obtain ⟨s, hs, hp⟩ := exists_run (fun s a => a.Disciplined s)
    (recycledRun (n := 1) (P := Fin 1) 0 (.inr 0))
    (fun s => s.wait.poolFreed && decide (s.appended = [0, 1]) && decide (s.postOf 0 = 1))
    (by decide)
  simp only [Bool.and_eq_true, decide_eq_true_eq] at hp
  obtain ⟨xs, hxs⟩ := single_ownership hs
  exact ⟨s, xs, hp.1.1, hp.1.2, hp.2, hxs⟩

end CPStudy.ThrdPool
