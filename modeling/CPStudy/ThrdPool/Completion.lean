import CPStudy.ThrdPool.Waitdone

/-!
# Which accepted tasks the C thread pool runs

A worker leaves when it finds `quit` set, or the queue empty and `block` cleared, and in the first
case it leaves whatever is in the queue; a `thrdpool_post` that has passed its test of `quit` also
appends when every worker has left. `__taskqueue_destroy` frees such a task without running it. As
long as the last worker to leave finds the queue empty and no task is appended after it
(`Action.Staffed`), the queue is never left with a task and nobody to run it (`Served`), and every
accepted task is run; the first step against this condition leaves a task that is never run.
-/

namespace CPStudy.ThrdPool

open Function (update)

section Predicates

variable {A H X : Type*}

/-- The next step of the worker is to leave `__thrdpool_worker`. -/
def WorkerPc.leaves (quit : Bool) : WorkerPc A H X → Bool
  | .quitTest => quit
  | .unlockNull => true
  | _ => false

/-- The next step of the thread is to append its task. -/
def CallPc.appends : CallPc A H X → Bool
  | .postAppend _ _ => true
  | _ => false

end Predicates

variable {n : ℕ} {P A H X : Type*}

/-- The condition on a step: a worker leaves only where the queue is empty or another worker is
left, and a task is appended only where a worker is left. -/
def Action.Staffed (s : State n P A H X) : Action n P A H X → Prop
  | .work w => (s.worker w).leaves s.quit = true →
      s.queue.head = none ∨ ∃ v, v ≠ w ∧ (s.worker v).isExited = false
  | .call t => (s.call t).appends = true → ∃ v, (s.worker v).isExited = false
  | _ => True

instance (s : State n P A H X) (a : Action n P A H X) : Decidable (a.Staffed s) :=
  match a with
  | .work w => inferInstanceAs (Decidable ((s.worker w).leaves s.quit = true →
      s.queue.head = none ∨ ∃ v, v ≠ w ∧ (s.worker v).isExited = false))
  | .call t =>
    inferInstanceAs (Decidable ((s.call t).appends = true → ∃ v, (s.worker v).isExited = false))
  | .spurious _ | .post _ _ _ | .malloc _ _ | .signal _ _ | .terminate _ | .waitdone | .wait =>
    inferInstanceAs (Decidable True)

/-- The queue is empty, or a worker is left. -/
def Served (s : State n P A H X) : Prop :=
  s.queue.head = none ∨ ∃ v, (s.worker v).isExited = false

/-- A task that was appended has its `thrdpool_post` return 0. -/
def Answered (s : State n P A H X) : Prop :=
  ∀ id ∈ s.appended, s.result id = some 0 ∨ ∃ t, s.call t = .postSignal id

variable {s s' : State n P A H X} {xs : List A} {stage : PostId → Stage n P A}

/-- Where nobody serves the queue, every worker has left. -/
theorem exited_of_not_served (h : ¬Served s) (w : Fin n) : s.worker w = .exited := by
  have hw : ¬(s.worker w).isExited = false := fun hw => h (.inr ⟨w, hw⟩)
  simpa using hw

variable [DecidableEq A] [DecidableEq P] {a : Action n P A H X}

/-- A step under the condition leaves the queue served. -/
theorem Served.step (h : Served s) (hok : a.Staffed s) (heff : Effect s a s') : Served s' := by
  cases heff with
  | quitSeen w hw hq =>
    rcases hok (by simp [hw, hq, WorkerPc.leaves]) with hnone | ⟨v, hvw, hv⟩
    · exact .inl hnone
    · exact .inr ⟨v, by simpa [hvw] using hv⟩
  | leave w hw =>
    rcases hok (by simp [hw, WorkerPc.leaves]) with hnone | ⟨v, hvw, hv⟩
    · exact .inl hnone
    · exact .inr ⟨v, by simpa [hvw] using hv⟩
  | append t id task queue hc hl ha => exact .inr (hok (by simp [hc, CallPc.appends]))
  | drain queue task hw hp => exact .inr (h.resolve_left (TaskQueue.head_of_popTask_some hp))
  | quitPassed w | popNull w | pop w | lock w | blocking w | nonblocking w | sleep w | relock w
  | unlock w | read w | free w | invoke w | finish w | spurious w | signal _ _ w =>
    -- The worker that takes the step is left.
    exact .inr ⟨w, by simp [WorkerPc.isExited]⟩
  | broadcast t hc =>
    rcases h with hnone | ⟨v, hv⟩
    · exact .inl hnone
    · refine .inr ⟨v, ?_⟩
      show (wakeAll s.worker v).isExited = false
      rcases wakeAll_cases s.worker v with ⟨-, heq⟩ | ⟨-, heq⟩ <;> rw [heq]
      · rfl
      · exact hv
  | post | refuse | accept | mallocNull | malloc | signalLost | terminate | setQuit | termLock
  | setNonblock | termUnlock | waitdone | join | joined | drainNull | discard | destroy
  | freePool => exact h

/-- A step against the condition leaves a task in the queue and nobody to run it. -/
theorem Effect.not_served (heff : Effect s a s') (h : Tracked s xs stage)
    (hok : ¬a.Staffed s) : ¬Served s' := by
  -- A worker that leaves as the last one, and an append behind the last one, are all there is.
  cases heff with
  | quitSeen w hw | leave w hw =>
    simp only [Action.Staffed, not_forall, not_or, not_exists, not_and] at hok
    obtain ⟨-, hnone, hothers⟩ := hok
    rintro (hnone' | ⟨v, hv⟩)
    · exact hnone hnone'
    · by_cases hvw : v = w
      · subst hvw
        simp [WorkerPc.isExited] at hv
      · exact hothers v hvw (by simpa [hvw] using hv)
  | append t id task queue hc hl ha =>
    simp only [Action.Staffed, not_forall, not_exists] at hok
    obtain ⟨-, hothers⟩ := hok
    have hst : stage id = .filled t task := h.calls.stage_eq (by rw [hc]; rfl)
    have hholds := (h.memory.append hst ha).holds
    rintro (hnone | ⟨v, hv⟩)
    · simpa using hholds.head_eq_none.mp hnone
    · exact hothers v hv
  | quitPassed w hw hq => simp [Action.Staffed, hw, hq, WorkerPc.leaves] at hok
  | popNull w queue hw | pop w queue task hw | lock w hw | blocking w hw | nonblocking w hw
  | sleep w hw | relock w hw | unlock w hw | read w id task t hw | free w id task func ctx hw
  | invoke w id func ctx hw | finish w id hw =>
    simp [Action.Staffed, hw, WorkerPc.leaves] at hok
  | refuse t id func arg hc | accept t id func arg hc | setQuit t hc | termLock t hc
  | setNonblock t hc | termUnlock t hc | broadcast t hc =>
    simp [Action.Staffed, hc, CallPc.appends] at hok
  | spurious | post | mallocNull | malloc | signal | signalLost | terminate | waitdone | join
  | joined | drainNull | drain | discard | destroy | freePool => exact absurd trivial hok

omit [DecidableEq A] in
/-- A thread that is not about to signal leaves the posts answered. -/
theorem Answered.move (h : Answered s) {t : Thread n P} {pc : CallPc A H X} {id : PostId}
    (hid : id ∈ s.appended) (ht : s.call t ≠ .postSignal id) :
    s.result id = some 0 ∨ ∃ u, update s.call t pc u = .postSignal id := by
  refine (h id hid).imp_right fun ⟨u, hu⟩ => ⟨u, ?_⟩
  have hut : u ≠ t := by
    rintro rfl
    exact ht hu
  rw [Function.update_of_ne hut]
  exact hu

/-- Every step keeps the posts answered. -/
theorem Answered.step (h : Answered s) (ht : Tracked s xs stage) (heff : Effect s a s') :
    Answered s' := by
  cases heff with
  | refuse t id func arg hc | mallocNull t id func arg hc =>
    -- The post that returns -1 has not appended anything.
    have hst : stage id = .posting t := ht.calls.stage_eq (by rw [hc]; rfl)
    have hid : id ∉ s.appended := by
      rw [ht.history.appended.mem_iff, hst]
      simp [Stage.isAppended]
    intro id' hid'
    have hne : id' ≠ id := ne_of_mem_of_not_mem hid' hid
    simpa [hne] using h.move (t := t) hid' (by simp [hc])
  | append t id task queue hc =>
    intro id' hid'
    rcases List.mem_append.mp hid' with hid' | hid'
    · exact h.move hid' (by simp [hc])
    · obtain rfl := List.mem_singleton.mp hid'
      exact .inr ⟨t, by simp⟩
  | signal t id w hc | signalLost t id hc =>
    intro id' hid'
    by_cases hne : id' = id
    · subst hne
      exact .inl (by simp)
    · simpa [hne] using h.move (t := t) hid' (by simp [hc, Ne.symm hne])
  | post t func arg hc | accept t id func arg hc | malloc t id func arg task junk hc
  | terminate t hc | setQuit t hc | termLock t hc | setNonblock t hc | termUnlock t hc
  | broadcast t hc => exact fun id' hid' => h.move hid' (by simp [hc])
  | quitSeen | quitPassed | popNull | pop | lock | blocking | nonblocking | leave | sleep | relock
  | unlock | read | free | invoke | finish | spurious | waitdone | join | joined | drainNull
  | drain | discard | destroy | freePool => exact h

/-- Where every worker has left, a task that was not run before is never run. -/
theorem Effect.not_called (heff : Effect s a s') (hw : ∀ w, s.worker w = .exited) {id : PostId}
    (hid : id ∈ s.appended) (hc : ∀ job, (id, job) ∉ s.called) :
    (∀ w, s'.worker w = .exited) ∧ id ∈ s'.appended ∧ ∀ job, (id, job) ∉ s'.called := by
  refine ⟨fun w => heff.exited (hw w), ?_⟩
  cases heff with
  | invoke w id func ctx hr =>
    rw [hw w] at hr
    cases hr
  | append => exact ⟨by simp [hid], hc⟩
  | _ => exact ⟨hid, hc⟩

/-- `__taskqueue_destroy` finds nothing where the queue is served. -/
theorem Effect.not_drained (heff : Effect s a s') (h : Served s) (hw : Waited s)
    (hd : ∀ id, (id, none) ∉ s.popped) : ∀ id, (id, none) ∉ s'.popped := by
  cases heff with
  | drain queue task hwait hp =>
    -- Every worker is joined, and so the queue is empty.
    have hleft : ∀ v, s.worker v = .exited := fun v => hw.joined v (by rw [hwait]; trivial)
    rcases h with hnone | ⟨v, hv⟩
    · exact absurd hnone (TaskQueue.head_of_popTask_some hp)
    · simp [hleft v, WorkerPc.isExited] at hv
  | pop => simpa using hd
  | _ => exact hd

/-- In every run under the condition the queue is served and `__taskqueue_destroy` finds nothing. -/
theorem served_of_reaches
    (h : Lib.Reaches step (fun s a => a.Disciplined s ∧ a.Staffed s) (State.init n P A H X) s) :
    Served s ∧ ∀ id, (id, none) ∉ s.popped := by
  refine h.invariant_of (I := fun t => Served t ∧ ∀ id, (id, none) ∉ t.popped) (J := Waited)
    (fun t ht => waited_of_reaches (fun _ _ hok => hok.1) ht)
    ⟨.inl rfl, fun id hid => by cases hid⟩ ?_
  intro t a u hw ⟨hs, hd⟩ hok hstep
  have heff := effect_of_step hstep
  exact ⟨hs.step hok.2 heff, heff.not_drained hs hw hd⟩

/-- In every run the posts are answered. -/
theorem answered_of_reaches {ok : State n P A H X → Action n P A H X → Prop}
    (h : Lib.Reaches step ok (State.init n P A H X) s) : Answered s := by
  refine h.invariant_of (J := fun t => ∃ xs stage, Tracked t xs stage)
    (fun t ht => tracked_of_reaches ht) (fun id hid => by cases hid) ?_
  exact fun t a u ⟨xs, stage, ht⟩ ha hok hstep => ha.step ht (effect_of_step hstep)

/-- Where the queue is not served some task is accepted and never run. -/
theorem exists_not_called
    (h : Lib.Reaches step (fun s a => a.Disciplined s) (State.init n P A H X) s)
    (hs : ¬Served s) (hrun : Lib.Reaches step (fun s a => a.Disciplined s) s s')
    (hr : s'.wait = .returned) : ∃ id, s'.result id = some 0 ∧ ∀ job, (id, job) ∉ s'.called := by
  obtain ⟨xs, stage, ht⟩ := tracked_of_reaches h
  have hhead : xs ≠ [] := fun hnil => hs (.inl (ht.memory.holds.head_eq_none.mpr hnil))
  obtain ⟨task, rest, rfl⟩ := List.exists_cons_of_ne_nil hhead
  have hst : stage (s.postOf task) = .queued task :=
    (ht.memory.queued _ task).mpr ⟨by simp, rfl⟩
  have happ : s.postOf task ∈ s.appended := by
    rw [ht.history.appended.mem_iff, hst]
    rfl
  have hcalled : ∀ job, (s.postOf task, job) ∉ s.called := by
    intro job hjob
    have hmem : s.postOf task ∈ s.called.map Prod.fst := List.mem_map_of_mem hjob
    rw [ht.history.called.mem_iff, hst] at hmem
    cases hmem
  -- From here on every worker has left.
  obtain ⟨hexited, happ', hcalled'⟩ : (∀ w, s'.worker w = .exited) ∧
      s.postOf task ∈ s'.appended ∧ ∀ job, (s.postOf task, job) ∉ s'.called := by
    refine hrun.invariant (I := fun t => (∀ w, t.worker w = .exited) ∧
      s.postOf task ∈ t.appended ∧ ∀ job, (s.postOf task, job) ∉ t.called)
      ⟨exited_of_not_served hs, happ, hcalled⟩ ?_
    exact fun t a u hI _ hstep => (effect_of_step hstep).not_called hI.1 hI.2.1 hI.2.2
  have hs' := h.trans hrun
  refine ⟨s.postOf task, ?_, hcalled'⟩
  -- No signal is pending any more.
  rcases answered_of_reaches hs' _ happ' with hres | ⟨t, hc⟩
  · exact hres
  · have hpost := (waited_of_reaches (fun _ _ hok => hok) hs').no_post (locked_of_reaches hs').1
      (by simp [hr]) hexited t
    rw [hc] at hpost
    cases hpost

/-- In every run of a program that calls `thrdpool_waitdone` when no `thrdpool_post` is in
progress, and in which the last worker to leave finds the queue empty and nothing is appended after
it, every accepted task has been run when `thrdpool_waitdone` returns, and no task is freed without
being run. After a step against this condition some accepted task is never run. -/
theorem every_task_run
    (h : Lib.Reaches step (fun s a => a.Disciplined s ∧ a.Staffed s) (State.init n P A H X) s) :
    (s.wait = .returned → ∀ id, s.result id = some 0 →
      ∃ job, s.posts[id]? = some job ∧ (id, job) ∈ s.called) ∧
    (∀ id, (id, none) ∉ s.freed) ∧
    ∀ a u v, a.Disciplined s → ¬a.Staffed s → step s a = some u →
      Lib.Reaches step (fun s a => a.Disciplined s) u v → v.wait = .returned →
        ∃ id, v.result id = some 0 ∧ ∀ job, (id, job) ∉ v.called := by
  obtain ⟨xs, stage, ht⟩ := tracked_of_reaches h
  obtain ⟨hserved, hpopped⟩ := served_of_reaches h
  have hw : Waited s := waited_of_reaches (fun _ _ hok => hok.1) h
  refine ⟨fun hr id hres => ?_, fun id hid => hpopped id (ht.history.popped.taken _ hid), ?_⟩
  · have happ := ht.history.appended.mem_iff.mpr (ht.history.results.accepted id hres)
    rcases ht.stage_of_returned hw hr happ with hst | hst
    · have hmem : id ∈ s.called.map Prod.fst := by
        rw [ht.history.called.mem_iff, hst]
        rfl
      obtain ⟨⟨id', job⟩, hc, rfl⟩ := List.mem_map.mp hmem
      exact ⟨job, ht.history.called_job _ hc, hc⟩
    · refine absurd ((ht.history.popped.drained id).mpr ?_) (hpopped id)
      rw [hst]
      rfl
  · intro a u v hok hns hstep hrun hr
    have hu : Lib.Reaches step (fun s a => a.Disciplined s) (State.init n P A H X) u :=
      (h.mono fun _ _ hok => hok.1).tail hok hstep
    exact exists_not_called hu ((effect_of_step hstep).not_served ht hns) hrun hr

/-- A task is accepted, and the pool is terminated before its worker takes it. -/
def discardedRun (w : Fin n) (t : Thread n P) : List (Action n P ℕ ℕ ℕ) :=
  postCall t 7 8 0 ++ [.signal t none] ++ terminateCall t ++ workSteps w 1 ++ waitdoneCall 7

/-- An accepted task is freed by `__taskqueue_destroy` and not run. -/
theorem every_task_run_discarded : ¬∀ s : State 1 (Fin 1) ℕ ℕ ℕ,
    Lib.Reaches step (fun s a => a.Disciplined s) (State.init 1 (Fin 1) ℕ ℕ ℕ) s →
      s.wait = .returned → ∀ id, s.result id = some 0 →
        ∃ job, s.posts[id]? = some job ∧ (id, job) ∈ s.called := by
  intro hall
  obtain ⟨s, hs, hp⟩ := exists_run (fun s a => a.Disciplined s)
    (discardedRun (n := 1) (P := Fin 1) 0 (.inr 0))
    (fun s => s.wait.poolFreed && decide (s.result 0 = some 0) && decide (s.called = []))
    (by decide)
  simp only [Bool.and_eq_true, decide_eq_true_eq, WaitPc.poolFreed_iff] at hp
  obtain ⟨⟨hr, hres⟩, hcalled⟩ := hp
  obtain ⟨job, -, hc⟩ := hall s hs hr 0 hres
  rw [hcalled] at hc
  cases hc

/-- A worker takes the task before the pool is terminated. -/
def completedRun (w : Fin n) (t : Thread n P) : List (Action n P ℕ ℕ ℕ) :=
  postCall t 7 8 0 ++ [.signal t none] ++ workSteps w 2 ++ terminateCall t ++ workSteps w 5 ++
    waitdoneCall 5

/-- The accepted task has been run. -/
theorem every_task_run_completed : ∃ s : State 1 (Fin 1) ℕ ℕ ℕ,
    s.wait = .returned ∧ s.result 0 = some 0 ∧
      ∃ job, s.posts[0]? = some job ∧ (0, job) ∈ s.called := by
  obtain ⟨s, hs, hp⟩ := exists_run (fun s a => a.Disciplined s ∧ a.Staffed s)
    (completedRun (n := 1) (P := Fin 1) 0 (.inr 0))
    (fun s => s.wait.poolFreed && decide (s.result 0 = some 0)) (by decide)
  simp only [Bool.and_eq_true, decide_eq_true_eq, WaitPc.poolFreed_iff] at hp
  exact ⟨s, hp.1, hp.2, (every_task_run hs).1 hp.1 0 hp.2⟩

end CPStudy.ThrdPool
