import CPStudy.Lib.Count
import CPStudy.ThrdPool.Controller

/-!
# The end of a pool whose tasks have all run

Where the controller calls `thrdpool_waitdone` when every `thrdpool_post` has returned
(`Action.AfterPosts`), nobody is in `thrdpool_post` once `__taskqueue_destroy` has freed the queue.
Where it does not wait for that, the queue can be freed under a thread that is still before its
`pthread_cond_signal`: the workers, which have nothing to run, leave, and `thrdpool_waitdone` goes
through to its end without a step of that thread (`Overtaken`).
-/

namespace CPStudy.ThrdPool

open Function (update)

variable {n : ℕ} {P A H X : Type*}

/-- The condition on a step: `thrdpool_waitdone` is called when every `thrdpool_post` has
returned. -/
def Action.AfterPosts (s : State n P A H X) : Action n P A H X → Prop
  | .waitdone => ∀ t, (s.call t).isPost = false
  | _ => True

instance [Fintype P] (s : State n P A H X) (a : Action n P A H X) : Decidable (a.AfterPosts s) :=
  match a with
  | .waitdone => inferInstanceAs (Decidable (∀ t, (s.call t).isPost = false))
  | .work _ | .spurious _ | .post _ _ _ | .malloc _ _ | .signal _ _ | .terminate _ | .call _
  | .wait => inferInstanceAs (Decidable True)

/-- `thrdpool_terminate` is called when every `thrdpool_post` has returned. -/
def Action.TerminatesAfterPosts (s : State n P A H X) : Action n P A H X → Prop
  | .terminate _ => ∀ t, (s.call t).isPost = false
  | _ => True

/-- Nobody is in `thrdpool_post` once `thrdpool_waitdone` is called. -/
def Gone (s : State n P A H X) : Prop :=
  s.wait ≠ .notCalled → ∀ t, (s.call t).isPost = false

/-- Nobody is in `thrdpool_post` once the controller has begun. -/
def GoneFrom (k : P) (s : State n P A H X) : Prop :=
  Begun k s → ∀ t, (s.call t).isPost = false

/-- After its `thrdpool_terminate` has returned the controller has told every worker. -/
def Told (k : P) (s : State n P A H X) : Prop :=
  s.quit = true → (s.call (.inr k)).isTerminate = true ∨ s.broadcasted = true

/-- A pool that is at its end while the thread `u` is in `thrdpool_post`. -/
structure Overtaken (k : P) (u : Thread n P) (s : State n P A H X) : Prop where
  /-- The thread is in `thrdpool_post`. -/
  post : (s.call u).isPost = true
  /-- The workers have nothing to run. -/
  idle : ∀ w, (s.worker w).hasNoTask
  /-- The queue is empty. -/
  empty : s.queue.head = none
  /-- The controller is in `thrdpool_terminate` or has returned from it. -/
  controller : (s.call (.inr k)).isTerminate = true ∨
    s.call (.inr k) = .idle ∧ s.broadcasted = true
  /-- `quit` is set, or about to be. -/
  quit : s.call (.inr k) = .termQuit ∨ s.quit = true
  /-- `thrdpool_waitdone` is called after `thrdpool_terminate`. -/
  after : s.wait ≠ .notCalled → s.call (.inr k) = .idle

/-- A step of a worker, of the controller or of `thrdpool_waitdone`. -/
def Action.Ends (k : P) : Action n P A H X → Prop
  | .work _ => True
  | .call t => t = .inr k
  | .waitdone => True
  | .wait => True
  | _ => False

/-- How many steps a worker without a task is from its wait or its return. -/
def WorkerPc.toStop : WorkerPc A H X → ℕ
  | .quitTest => 6
  | .popTask => 5
  | .lock => 4
  | .blockTest => 3
  | .unlockNull => 1
  | .condWait => 1
  | .woken => 7
  | .unlock => 6
  | _ => 0

/-- How many steps a thread is from its return from `thrdpool_terminate`. -/
def CallPc.toReturn : CallPc A H X → ℕ
  | .termQuit => 5
  | .termLock => 4
  | .termBlock => 3
  | .termUnlock => 2
  | .termBroadcast => 1
  | _ => 0

/-- How many steps `thrdpool_waitdone` is from its return, with `n` workers to join and no task to
free. -/
def WaitPc.toReturn (n : ℕ) : WaitPc A → ℕ
  | .notCalled => n + 6
  | .join i => n - i + 5
  | .freeTask _ _ => 5
  | .drain => 4
  | .destroy => 3
  | .freePool => 2
  | .returned => 0

/-- What every step to the end of the pool makes smaller. The broadcast, which wakes the workers,
is paid for by the step of the controller. -/
def toEnd (k : P) (s : State n P A H X) : ℕ :=
  (s.call (.inr k)).toReturn * (7 * n + 1) + Lib.sumOf WorkerPc.toStop s.worker +
    s.wait.toReturn n

variable {k : P} {u : Thread n P} {s s' : State n P A H X} {xs : List A}
  {stage : PostId → Stage n P A} [DecidableEq A] [DecidableEq P] {a : Action n P A H X}

/-- Where `thrdpool_waitdone` is called when every `thrdpool_post` has returned, nobody is there
after that. -/
theorem Gone.step (h : Gone s) (hk : ControlledBy k s) (hok : a.Controlled k s)
    (hafter : a.AfterPosts s) (heff : Effect s a s') : Gone s' := by
  intro hw t
  cases heff with
  | waitdone => exact hafter t
  | join i hi hwait | joined i hi hwait | drainNull queue hwait | drain queue task hwait
  | discard id task hwait | destroy hwait | freePool hwait => exact h (by simp [hwait]) t
  | post v func arg hc =>
    -- The controller has begun when `thrdpool_waitdone` is called.
    exact absurd (.inr (hk.quit hw)) hok
  | refuse v id func arg hc | accept v id func arg hc | mallocNull v id func arg hc
  | malloc v id func arg task junk hc | append v id task queue hc | signal v id w hc
  | signalLost v id hc | terminate v hc | setQuit v hc | termLock v hc | setNonblock v hc
  | termUnlock v hc | broadcast v hc =>
    exact isPost_update (h hw t) (by simp [hc, CallPc.isPost])
  | quitSeen | quitPassed | popNull | pop | lock | blocking | nonblocking | leave | sleep | relock
  | unlock | read | free | invoke | finish | spurious => exact h hw t

/-- The controller begins only by calling `thrdpool_terminate`. -/
theorem Effect.begun (heff : Effect s a s') (hk : ControlledBy k s) (hb : Begun k s') :
    Begun k s ∨ a = .terminate (.inr k) := by
  rcases hb with hcall | hquit
  · exact (heff.isTerminate hcall).imp_left .inl
  · rcases heff.quit.2 hquit with hold | ⟨t, hold⟩
    · exact .inl (.inr hold)
    · exact .inl (.inl (hk.controller t hold ▸ hold))

/-- Where `thrdpool_terminate` is called when every `thrdpool_post` has returned, nobody is there
after that. -/
theorem GoneFrom.step (h : GoneFrom k s) (hk : ControlledBy k s) (hok : a.Controlled k s)
    (hafter : a.TerminatesAfterPosts s) (heff : Effect s a s') : GoneFrom k s' := by
  intro hb t
  have hbegun := heff.begun hk hb
  have hold : ∀ t, (s.call t).isPost = false := by
    rcases hbegun with hbegun | rfl
    · exact h hbegun
    · exact hafter
  cases heff with
  | post v func arg hc =>
    rcases hbegun with hbegun | ha
    · exact absurd hbegun hok
    · cases ha
  | refuse v id func arg hc | accept v id func arg hc | mallocNull v id func arg hc
  | malloc v id func arg task junk hc | append v id task queue hc | signal v id w hc
  | signalLost v id hc | terminate v hc | setQuit v hc | termLock v hc | setNonblock v hc
  | termUnlock v hc | broadcast v hc =>
    exact isPost_update (hold t) (by simp [hc, CallPc.isPost])
  | quitSeen | quitPassed | popNull | pop | lock | blocking | nonblocking | leave | sleep | relock
  | unlock | read | free | invoke | finish | spurious | waitdone | join | joined | drainNull
  | drain | discard | destroy | freePool => exact hold t

/-- Every step of a controlled pool keeps the workers told. -/
theorem Told.step (h : Told k s) (hk : ControlledBy k s) (heff : Effect s a s') : Told k s' := by
  intro hquit
  -- The controller goes from one step of `thrdpool_terminate` to the next, up to the broadcast.
  have hmove : ∀ {t : Thread n P} {pc : CallPc A H X}, s.quit = true →
      (s.call t).isTerminate = false ∨ pc.isTerminate = true →
      (update s.call t pc (.inr k)).isTerminate = true ∨ s.broadcasted = true := by
    intro t pc hq hpc
    refine (h hq).imp_left fun hcall => ?_
    by_cases hkt : .inr k = t
    · subst hkt
      rw [Function.update_self]
      rcases hpc with hpc | hpc
      · rw [hcall] at hpc
        cases hpc
      · exact hpc
    · rwa [Function.update_of_ne hkt]
  cases heff with
  | setQuit t hc =>
    obtain rfl := hk.controller t (by rw [hc]; rfl)
    exact .inl (by simp [CallPc.isTerminate])
  | broadcast => exact .inr rfl
  | post t func arg hc | refuse t id func arg hc | accept t id func arg hc
  | mallocNull t id func arg hc | malloc t id func arg task junk hc | append t id task queue hc
  | signal t id w hc | signalLost t id hc => exact hmove hquit (.inl (by rw [hc]; rfl))
  | terminate t | termLock t | setNonblock t | termUnlock t => exact hmove hquit (.inr rfl)
  | quitSeen | quitPassed | popNull | pop | lock | blocking | nonblocking | leave | sleep | relock
  | unlock | read | free | invoke | finish | spurious | waitdone | join | joined | drainNull
  | drain | discard | destroy | freePool => exact h hquit

omit [DecidableEq A] [DecidableEq P] in
/-- A step of a worker brings the end nearer where it brings the worker nearer to its stop. -/
theorem toEnd_lt_of_worker {w : Fin n} {pc : WorkerPc A H X}
    (hpc : pc.toStop < (s.worker w).toStop) (hworker : s'.worker = update s.worker w pc)
    (hcall : s'.call = s.call) (hwait : s'.wait = s.wait) : toEnd k s' < toEnd k s := by
  have hsum := Lib.sumOf_update (f := s.worker) WorkerPc.toStop w pc
  unfold toEnd
  rw [hworker, hcall, hwait]
  omega

omit [DecidableEq A] [DecidableEq P] in
/-- The broadcast adds no more to the workers' steps than it wakes. -/
theorem sumOf_wakeAll_le (worker : Fin n → WorkerPc A H X) :
    Lib.sumOf WorkerPc.toStop (wakeAll worker) ≤ Lib.sumOf WorkerPc.toStop worker + 7 * n := by
  have hle := Lib.sumOf_le (f := worker) (g := wakeAll worker) (c := 7) WorkerPc.toStop fun w => by
    rcases wakeAll_cases worker w with ⟨-, heq⟩ | ⟨-, heq⟩ <;> rw [heq]
    · simp [WorkerPc.toStop]
    · omega
  rw [Fintype.card_fin] at hle
  omega

omit [DecidableEq A] in
/-- A thread in `thrdpool_post` is not in `thrdpool_terminate`. -/
theorem CallPc.not_isTerminate_of_isPost {pc : CallPc A H X} (h : pc.isPost = true) :
    pc.isTerminate = false := by
  cases pc <;> first | rfl | cases h

omit [DecidableEq A] [DecidableEq P] in
/-- The thread in `thrdpool_post` is not the controller. -/
theorem Overtaken.ne (h : Overtaken k u s) : u ≠ .inr k := by
  rintro rfl
  have hpost := h.post
  rcases h.controller with hc | ⟨hc, -⟩
  · rw [CallPc.not_isTerminate_of_isPost hpost] at hc
    cases hc
  · rw [hc] at hpost
    cases hpost

omit [DecidableEq A] in
/-- The controller's next step in `thrdpool_terminate` leaves the thread in its `thrdpool_post`. -/
theorem Overtaken.terminating (h : Overtaken k u s) {pc : CallPc A H X}
    (hpc : pc.isTerminate = true) (hc : (s.call (.inr k)).isTerminate = true)
    (hcall : s'.call = update s.call (.inr k) pc) (hworker : s'.worker = s.worker)
    (hqueue : s'.queue = s.queue) (hwait : s'.wait = s.wait) (hquit : s'.quit = true) :
    Overtaken k u s' := by
  have hnot : s.wait = .notCalled := by
    by_contra hw
    rw [h.after hw] at hc
    cases hc
  exact
    { post := by rw [hcall, Function.update_of_ne h.ne]; exact h.post
      idle := by rw [hworker]; exact h.idle
      empty := by rw [hqueue]; exact h.empty
      controller := .inl (by rw [hcall, Function.update_self]; exact hpc)
      quit := .inr hquit
      after := fun hw => absurd (hwait.trans hnot) hw }

/-- Every step of a worker leaves the thread in its `thrdpool_post`, and brings the end nearer. -/
theorem Overtaken.step_work (h : Overtaken k u s) {w : Fin n} (heff : Effect s (.work w) s') :
    Overtaken k u s' ∧ toEnd k s' < toEnd k s := by
  have hidle : ∀ pc : WorkerPc A H X, pc.hasNoTask → ∀ v, (update s.worker w pc v).hasNoTask := by
    intro pc hpc v
    by_cases hvw : v = w
    · rw [hvw, Function.update_self]
      exact hpc
    · rw [Function.update_of_ne hvw]
      exact h.idle v
  have htask := h.idle w
  cases heff with
  | quitSeen w hw | quitPassed w hw | popNull w queue hw | lock w hw | blocking w hw
  | nonblocking w hw | leave w hw | sleep w hw | relock w hw | unlock w hw =>
    refine ⟨{ h with idle := hidle _ trivial }, toEnd_lt_of_worker ?_ rfl rfl rfl⟩
    simp [hw, WorkerPc.toStop]
  | pop w queue task hw hp => exact absurd h.empty (TaskQueue.head_of_popTask_some hp)
  | read w id task t hw | free w id task func ctx hw | invoke w id func ctx hw
  | finish w id hw =>
    -- The worker would have a task.
    rw [hw] at htask
    exact htask.elim

/-- Every step of the controller leaves the thread in its `thrdpool_post`, and brings the end
nearer. -/
theorem Overtaken.step_call (h : Overtaken k u s) (heff : Effect s (.call (.inr k)) s') :
    Overtaken k u s' ∧ toEnd k s' < toEnd k s := by
  have hcontroller := h.controller
  have hquit := h.quit
  cases heff with
  | setQuit t hc =>
    refine ⟨h.terminating rfl (by rw [hc]; rfl) rfl rfl rfl rfl rfl, ?_⟩
    simp [toEnd, hc, CallPc.toReturn]
  | termLock t hc =>
    have hq : s.quit = true := hquit.resolve_left (by simp [hc])
    refine ⟨h.terminating rfl (by rw [hc]; rfl) rfl rfl rfl rfl hq, ?_⟩
    simp [toEnd, hc, CallPc.toReturn]
  | setNonblock t hc =>
    have hq : s.quit = true := hquit.resolve_left (by simp [hc])
    refine ⟨h.terminating rfl (by rw [hc]; rfl) rfl rfl rfl rfl hq, ?_⟩
    simp [toEnd, hc, CallPc.toReturn]
  | termUnlock t hc =>
    have hq : s.quit = true := hquit.resolve_left (by simp [hc])
    refine ⟨h.terminating rfl (by rw [hc]; rfl) rfl rfl rfl rfl hq, ?_⟩
    simp [toEnd, hc, CallPc.toReturn]
  | broadcast t hc =>
    have hq : s.quit = true := hquit.resolve_left (by simp [hc])
    have hle := sumOf_wakeAll_le s.worker
    refine ⟨{ post := ?_, idle := fun w => ?_, empty := h.empty, controller := ?_, quit := .inr hq,
              after := ?_ }, ?_⟩
    · simpa [h.ne] using h.post
    · show (wakeAll s.worker w).hasNoTask
      rcases wakeAll_cases s.worker w with ⟨-, heq⟩ | ⟨-, heq⟩ <;> rw [heq]
      · trivial
      · exact h.idle w
    · exact .inr ⟨by simp, rfl⟩
    · exact fun _ => by simp
    · simp only [toEnd, Function.update_self, hc, CallPc.toReturn]
      omega
  | refuse t id func arg hc | accept t id func arg hc | append t id task queue hc =>
    -- The controller is not in `thrdpool_post`.
    simp [hc, CallPc.isTerminate] at hcontroller

/-- Every step of `thrdpool_waitdone` leaves the thread in its `thrdpool_post`, and brings the end
nearer. -/
theorem Overtaken.step_wait (h : Overtaken k u s) (heff : Effect s .wait s') :
    Overtaken k u s' ∧ toEnd k s' < toEnd k s := by
  cases heff with
  | drain queue task hw hp => exact absurd h.empty (TaskQueue.head_of_popTask_some hp)
  | join i hi hw | joined i hi hw | drainNull queue hw | discard id task hw | destroy hw
  | freePool hw =>
    refine ⟨{ h with after := fun _ => h.after (by simp [hw]) }, ?_⟩
    simp only [toEnd, hw, WaitPc.toReturn]
    omega

/-- Every step to the end of the pool leaves the thread in its `thrdpool_post`, and brings the end
nearer. -/
theorem Overtaken.step (h : Overtaken k u s) (hends : a.Ends k) (hok : a.Controlled k s)
    (heff : Effect s a s') : Overtaken k u s' ∧ toEnd k s' < toEnd k s := by
  cases a with
  | work w => exact h.step_work heff
  | call t =>
    obtain rfl : t = .inr k := hends
    exact h.step_call heff
  | wait => exact h.step_wait heff
  | waitdone =>
    cases heff with
    | waitdone hw =>
      refine ⟨{ h with after := fun _ => (CallPc.isIdle_iff _).mp hok.2 }, ?_⟩
      simp only [toEnd, hw, WaitPc.toReturn]
      omega
  | spurious | post | malloc | signal | terminate => exact hends.elim

/-- A pool that is at its end and cannot go on has been freed. -/
theorem Overtaken.returned_of_rest (h : Overtaken k u s) (hk : ControlledBy k s) (ho : Owned s)
    (hsleep : NoSleep s)
    (hrest : ∀ a : Action n P A H X, a.Ends k → a.Controlled k s → ThrdPool.step s a = none) :
    s.wait = .returned := by
  have hwork : ∀ w, ThrdPool.step s (.work w) = none := fun w => hrest _ trivial trivial
  have hcallrest : ThrdPool.step s (.call (.inr k)) = none := hrest _ rfl trivial
  have hwaitrest : ThrdPool.step s .wait = none := hrest _ trivial trivial
  have hpop : s.queue.popTask = some (s.queue, none) := by
    simp [TaskQueue.popTask, h.empty]
  -- With the mutex, the controller has a step.
  have hmutex : ∀ t, ¬(s.call t).hasMutex := by
    intro t ht
    have hterm : (s.call t).isTerminate = true := by
      cases hpc : s.call t <;> rw [hpc] at ht <;> first | exact ht.elim | rfl
    obtain rfl := hk.controller t hterm
    have hnot : s.wait = .notCalled := by
      by_contra hw
      rw [h.after hw] at hterm
      cases hterm
    cases hpc : s.call (.inr k) <;> rw [hpc] at ht <;> try exact ht.elim
    all_goals simp [ThrdPool.step, stepCall, hpc, hnot, WaitPc.queueFreed] at hcallrest
  have hfree : s.owner = none := ho.free_of_rest hwork hmutex
  -- So the controller has returned from `thrdpool_terminate`.
  have hidle : s.call (.inr k) = .idle ∧ s.broadcasted = true := by
    refine h.controller.resolve_left fun hterm => ?_
    have hnot : s.wait = .notCalled := by
      by_contra hw
      rw [h.after hw] at hterm
      cases hterm
    cases hpc : s.call (.inr k) <;> rw [hpc] at hterm <;> try cases hterm
    all_goals
      simp [ThrdPool.step, stepCall, hpc, hnot, hfree, WaitPc.queueFreed, WaitPc.poolFreed]
        at hcallrest
  have hquit : s.quit = true := h.quit.resolve_left (by simp [hidle.1])
  have hexited : ∀ w, s.worker w = .exited := by
    intro w
    have hstopped := WorkerPc.stopped_of_rest (hwork w) hfree (by simp [hpop]) (h.idle w)
    exact hstopped.resolve_left ((hsleep.awake hidle.2).2 w)
  cases hw : s.wait with
  | returned => rfl
  | notCalled =>
    have hnone := hrest .waitdone trivial ⟨hquit, by rw [hidle.1]; rfl⟩
    simp [ThrdPool.step, hw] at hnone
  | join i =>
    simp only [ThrdPool.step, stepWait, hw, hexited] at hwaitrest
    split at hwaitrest <;> cases hwaitrest
  | drain => simp [ThrdPool.step, stepWait, hw, hpop] at hwaitrest
  | freeTask | destroy | freePool => simp [ThrdPool.step, stepWait, hw] at hwaitrest

/-- From a pool that is at its end while a thread is in `thrdpool_post`, the workers and the
controller come to free the queue with the thread still there. -/
theorem Overtaken.exists_freed (h : Overtaken k u s)
    (hs : Lib.Reaches ThrdPool.step (fun s a => a.Controlled k s) (State.init n P A H X) s) :
    ∃ v, Lib.Reaches ThrdPool.step (fun s a => a.Controlled k s) s v ∧
      v.wait.queueFreed = true ∧ (v.call u).isPost = true := by
  have hless : ∀ (t : State n P A H X) a t', (Overtaken k u t ∧ a.Ends k ∧ a.Controlled k t) →
      ThrdPool.step t a = some t' → toEnd k t' < toEnd k t :=
    fun t a t' hok hstep => (hok.1.step hok.2.1 hok.2.2 (effect_of_step hstep)).2
  obtain ⟨v, hv, hrest⟩ := Lib.Reaches.exists_rest hless s
  have hover : Overtaken k u v := hv.invariant h fun t a t' ht hok hstep =>
    (ht.step hok.2.1 hok.2.2 (effect_of_step hstep)).1
  have hrun : Lib.Reaches ThrdPool.step (fun s a => a.Controlled k s) s v :=
    hv.mono fun _ _ hok => hok.2.2
  have hreach := hs.trans hrun
  have hret : v.wait = .returned :=
    hover.returned_of_rest (controlledBy_of_reaches (fun _ _ hok => hok) hreach)
      (owned_of_reaches hreach) (locked_of_reaches hreach).2
      fun a hends hok => hrest a ⟨hover, hends, hok⟩
  exact ⟨v, hrun, by rw [hret]; rfl, hover.post⟩

/-- The workers of a controlled pool are told. -/
theorem told_of_reaches
    (h : Lib.Reaches step (fun s a => a.Controlled k s) (State.init n P A H X) s) : Told k s := by
  refine h.invariant_of (fun t ht => controlledBy_of_reaches (fun _ _ hok => hok) ht) ?_ ?_
  · intro hquit
    cases hquit
  · exact fun t a t' hk ht _ hstep => ht.step hk (effect_of_step hstep)

omit [DecidableEq A] [DecidableEq P] in
/-- A pool whose controller has begun while a thread is in `thrdpool_post` is at its end. -/
theorem ControlledBy.overtaken (hk : ControlledBy k s) (ht : Tracked s xs stage)
    (hb : Begun k s) (hpost : (s.call u).isPost = true)
    (hcontroller : (s.call (.inr k)).isTerminate = true ∨
      s.call (.inr k) = .idle ∧ s.broadcasted = true)
    (hquit : s.call (.inr k) = .termQuit ∨ s.quit = true)
    (hafter : s.wait ≠ .notCalled → s.call (.inr k) = .idle) : Overtaken k u s :=
  have hfin : Finished s := hk.finished hb
  { post := hpost
    idle := hfin.hasNoTask ht
    empty := hfin.head_eq_none ht
    controller := hcontroller
    quit := hquit
    after := hafter }

/-- A controller that begins, or that goes on to wait, while a thread is in `thrdpool_post` brings
the pool to its end. -/
theorem Effect.overtaken (heff : Effect s a s') (ht : Tracked s' xs stage)
    (htold : Told k s) (hok : a.Controlled k s)
    (hnot : ¬a.AfterPosts s ∨ ¬a.TerminatesAfterPosts s) (hk' : ControlledBy k s') :
    ∃ u, Overtaken k u s' := by
  cases a with
  | waitdone =>
    -- Somebody is in `thrdpool_post` when the controller calls, and it is still there afterwards.
    have hnot' : ¬∀ u, (s.call u).isPost = false :=
      hnot.resolve_right (not_not.mpr trivial)
    obtain ⟨u, hu⟩ := not_forall.mp hnot'
    rw [Bool.not_eq_false] at hu
    obtain ⟨hquit, hidle⟩ := hok
    rw [CallPc.isIdle_iff] at hidle
    have hbroadcast : s.broadcasted = true :=
      (htold hquit).resolve_left (by simp [hidle, CallPc.isTerminate])
    cases heff with
    | waitdone hw =>
      exact ⟨u, hk'.overtaken ht (.inr hquit) hu (.inr ⟨hidle, hbroadcast⟩) (.inr hquit)
        fun _ => hidle⟩
  | terminate t =>
    have hnot' : ¬∀ u, (s.call u).isPost = false :=
      hnot.resolve_left (not_not.mpr trivial)
    obtain ⟨u, hu⟩ := not_forall.mp hnot'
    rw [Bool.not_eq_false] at hu
    obtain ⟨rfl, hwait, -⟩ := hok
    rw [WaitPc.isNotCalled_iff] at hwait
    cases heff with
    | terminate t hc =>
      have hne : u ≠ .inr k := by
        rintro rfl
        rw [hc] at hu
        cases hu
      have hterm : update s.call (.inr k) .termQuit (.inr k) = .termQuit := Function.update_self ..
      refine ⟨u, hk'.overtaken ht (.inl ?_) ?_ (.inl ?_) (.inl hterm) fun hw => absurd hwait hw⟩
      · exact congrArg CallPc.isTerminate hterm
      · simpa [hne] using hu
      · exact congrArg CallPc.isTerminate hterm
  | _ => simp [Action.AfterPosts, Action.TerminatesAfterPosts] at hnot

/-- In every run in which a controller terminates the pool and waits for it when it has seen every
task finished, and in which it calls `thrdpool_waitdone`, or already `thrdpool_terminate`, when
every `thrdpool_post` has returned, nobody is in `thrdpool_post` once `__taskqueue_destroy` has
freed the queue. A controller that does not wait for that can go on to free the queue under a
thread that is in `thrdpool_post`. -/
theorem no_post_after_destroy (k : P) :
    (∀ s, Lib.Reaches step (fun s a => a.Controlled k s ∧ a.AfterPosts s)
      (State.init n P A H X) s → s.wait.queueFreed = true → ∀ t, (s.call t).isPost = false) ∧
    (∀ s, Lib.Reaches step (fun s a => a.Controlled k s ∧ a.TerminatesAfterPosts s)
      (State.init n P A H X) s → s.wait.queueFreed = true → ∀ t, (s.call t).isPost = false) ∧
    ∀ s a s', Lib.Reaches step (fun s a => a.Controlled k s) (State.init n P A H X) s →
      a.Controlled k s → ¬a.AfterPosts s ∨ ¬a.TerminatesAfterPosts s → step s a = some s' →
      ∃ v t, Lib.Reaches step (fun s a => a.Controlled k s) s' v ∧
        v.wait.queueFreed = true ∧ (v.call t).isPost = true := by
  have hcalled : ∀ s : State n P A H X, s.wait.queueFreed = true → s.wait ≠ .notCalled := by
    intro s hf hw
    rw [hw] at hf
    cases hf
  refine ⟨fun s h hf => ?_, fun s h hf => ?_, fun s a s' h hok hnot hstep => ?_⟩
  · have hgone : Gone s := by
      refine h.invariant_of (fun t ht => controlledBy_of_reaches (fun _ _ hok => hok.1) ht)
        (fun hw => absurd rfl hw) ?_
      exact fun t a u hk hg hok hstep => hg.step hk hok.1 hok.2 (effect_of_step hstep)
    exact hgone (hcalled s hf)
  · have hgone : GoneFrom k s := by
      refine h.invariant_of (fun t ht => controlledBy_of_reaches (fun _ _ hok => hok.1) ht)
        (fun _ _ => rfl) ?_
      exact fun t a u hk hg hok hstep => hg.step hk hok.1 hok.2 (effect_of_step hstep)
    have hk : ControlledBy k s := controlledBy_of_reaches (fun _ _ hok => hok.1) h
    exact hgone (.inr (hk.quit (hcalled s hf)))
  -- The thread that is overtaken stays where it is while the others run to the end.
  · have hs' : Lib.Reaches step (fun s a => a.Controlled k s) (State.init n P A H X) s' :=
      h.tail hok hstep
    obtain ⟨xs, stage, ht⟩ := tracked_of_reaches hs'
    obtain ⟨u, hu⟩ := (effect_of_step hstep).overtaken ht (told_of_reaches h) hok hnot
      (controlledBy_of_reaches (fun _ _ hok => hok) hs')
    obtain ⟨v, hv, hfreed, hpost⟩ := hu.exists_freed hs'
    exact ⟨v, u, hv, hfreed, hpost⟩

/-- A producer has appended its task and not yet signalled; the worker runs the task, and the
controller terminates the pool and waits for it. -/
def overtakenRun (w : Fin n) (k p : Thread n P) : List (Action n P ℕ ℕ ℕ) :=
  postCall p 7 8 0 ++ workSteps w 6 ++ terminateCall k ++ workSteps w 1 ++ waitdoneCall 4

/-- The queue is freed under a producer. -/
theorem no_post_after_destroy_overtaken : ¬∀ s : State 1 (Fin 2) ℕ ℕ ℕ,
    Lib.Reaches step (fun s a => a.Controlled 0 s) (State.init 1 (Fin 2) ℕ ℕ ℕ) s →
      s.wait.queueFreed = true → ∀ t, (s.call t).isPost = false := by
  intro hall
  obtain ⟨s, hs, hp⟩ := exists_run (fun s a => a.Controlled 0 s)
    (overtakenRun (n := 1) (P := Fin 2) 0 (.inr 0) (.inr 1))
    (fun s => s.wait.queueFreed && (s.call (.inr 1)).isPost) (by decide)
  simp only [Bool.and_eq_true] at hp
  have hpost := hall s hs hp.1 (.inr 1)
  rw [hp.2] at hpost
  cases hpost

/-- The producer signals before the controller terminates the pool. -/
def signalledRun (w : Fin n) (k p : Thread n P) : List (Action n P ℕ ℕ ℕ) :=
  postCall p 7 8 0 ++ workSteps w 6 ++ [.signal p none] ++ terminateCall k ++ workSteps w 1 ++
    waitdoneCall 4

/-- Nobody is in `thrdpool_post` when the queue is freed. -/
theorem no_post_after_destroy_signalled : ∃ s : State 1 (Fin 2) ℕ ℕ ℕ,
    s.wait.queueFreed = true ∧ s.posts.length = 1 ∧ ∀ t, (s.call t).isPost = false := by
  obtain ⟨s, hs, hp⟩ := exists_run (fun s a => a.Controlled 0 s ∧ a.AfterPosts s)
    (signalledRun (n := 1) (P := Fin 2) 0 (.inr 0) (.inr 1))
    (fun s => s.wait.queueFreed && decide (s.posts.length = 1)) (by decide)
  simp only [Bool.and_eq_true, decide_eq_true_eq] at hp
  exact ⟨s, hp.1, hp.2, (no_post_after_destroy 0).1 s hs hp.1⟩

end CPStudy.ThrdPool
