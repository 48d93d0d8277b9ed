import CPStudy.ThrdPool.Progress
import CPStudy.ThrdPool.Waitdone

/-!
# The controller of a C thread pool

The controller of `thrdpool_test.cc` calls `thrdpool_terminate` and then `thrdpool_waitdone` when it
has seen every task finished, and nobody calls `thrdpool_post` after that (`Action.Controlled`).
What it has seen says that every `thrdpool_post` has appended its task, and not that it has
returned: a thread can still be before its `pthread_cond_signal` (`Finished.signals`).
-/

namespace CPStudy.ThrdPool

open Function (update)

variable {n : ℕ} {P A H X : Type*}

/-- Every task ever posted has finished: each `thrdpool_post` has returned -1 or had its handler
run to the end. -/
def Finished (s : State n P A H X) : Prop :=
  ∀ id < s.posts.length, s.result id = some (-1) ∨ id ∈ s.finished

instance (s : State n P A H X) : Decidable (Finished s) :=
  inferInstanceAs (Decidable (∀ id < s.posts.length, s.result id = some (-1) ∨ id ∈ s.finished))

/-- The controller has begun to terminate the pool. -/
def Begun (k : P) (s : State n P A H X) : Prop :=
  (s.call (.inr k)).isTerminate = true ∨ s.quit = true

instance (k : P) (s : State n P A H X) : Decidable (Begun k s) :=
  inferInstanceAs (Decidable ((s.call (.inr k)).isTerminate = true ∨ s.quit = true))

/-- What the controller `k` and the producers do: only the controller terminates the pool, when
every task has finished; it calls `thrdpool_waitdone` when its `thrdpool_terminate` has returned;
and nobody calls `thrdpool_post` once it has begun. -/
def Action.Controlled [DecidableEq P] (k : P) (s : State n P A H X) : Action n P A H X → Prop
  | .post _ _ _ => ¬Begun k s
  | .terminate t => t = .inr k ∧ s.wait.isNotCalled = true ∧ Finished s
  | .waitdone => s.quit = true ∧ (s.call (.inr k)).isIdle = true
  | _ => True

instance [DecidableEq P] (k : P) (s : State n P A H X) (a : Action n P A H X) :
    Decidable (a.Controlled k s) :=
  match a with
  | .post _ _ _ => inferInstanceAs (Decidable ¬Begun k s)
  | .terminate t =>
    inferInstanceAs (Decidable (t = .inr k ∧ s.wait.isNotCalled = true ∧ Finished s))
  | .waitdone => inferInstanceAs (Decidable (s.quit = true ∧ (s.call (.inr k)).isIdle = true))
  | .work _ | .spurious _ | .malloc _ _ | .signal _ _ | .call _ | .wait =>
    inferInstanceAs (Decidable True)

/-- What holds of a pool with a controller. -/
structure ControlledBy (k : P) (s : State n P A H X) : Prop where
  /-- Only the controller terminates the pool. -/
  controller : ∀ t, (s.call t).isTerminate = true → t = .inr k
  /-- `thrdpool_waitdone` is called after `thrdpool_terminate`. -/
  quit : s.wait ≠ .notCalled → s.quit = true
  /-- Once the controller has begun, every task has finished. -/
  finished : Begun k s → Finished s

variable {k : P} {s s' : State n P A H X} {xs : List A} {stage : PostId → Stage n P A}

/-- Where every task has finished, a post has returned -1 or had its handler run to the end. -/
theorem Finished.stage_cases (h : Finished s) (ht : Tracked s xs stage) (id : PostId) :
    stage id = .unposted ∨ stage id = .refused ∨ stage id = .finished := by
  rcases Nat.lt_or_ge id s.posts.length with hposted | hunposted
  · rcases h id hposted with hres | hfin
    · exact .inr (.inl ((ht.history.results.refused id).mp hres))
    · rw [ht.history.finished.mem_iff] at hfin
      cases hstage : stage id <;> rw [hstage] at hfin <;>
        first | exact .inr (.inr rfl) | cases hfin
  · exact .inl ((ht.history.results.unposted id).mpr hunposted)

/-- Where every task has finished, a thread in `thrdpool_post` has only its signal left. -/
theorem Finished.signals (h : Finished s) (ht : Tracked s xs stage) {t : Thread n P}
    (hc : (s.call t).isPost = true) : (s.call t).signals = true := by
  -- A post before its append is neither refused nor finished.
  have hnone : ∀ id st, (s.call t).stage? t ≠ some (id, st) := by
    intro id st heq
    have howner := ht.calls.owner_eq heq
    rcases h.stage_cases ht id with hst | hst | hst <;> rw [hst] at howner <;> cases howner
  cases hpc : s.call t with
  | postQuit id func arg => exact absurd (by rw [hpc]; rfl) (hnone id (.posting t))
  | postMalloc id func arg => exact absurd (by rw [hpc]; rfl) (hnone id (.posting t))
  | postAppend id task => exact absurd (by rw [hpc]; rfl) (hnone id (.filled t task))
  | postSignal id => rfl
  | idle | termQuit | termLock | termBlock | termUnlock | termBroadcast =>
    rw [hpc] at hc
    cases hc

/-- Where every task has finished, no worker has one. -/
theorem Finished.hasNoTask (h : Finished s) (ht : Tracked s xs stage) (w : Fin n) :
    (s.worker w).hasNoTask := by
  have hnone : ∀ id (st : Stage n P A), (s.worker w).stage? w ≠ some (id, st) := by
    intro id st heq
    have howner := ht.workers.owner_eq heq
    rcases h.stage_cases ht id with hst | hst | hst <;> rw [hst] at howner <;> cases howner
  cases hpc : s.worker w with
  | held id task => exact absurd (by rw [hpc]; rfl) (hnone id (.held w task))
  | loaded id task func ctx => exact absurd (by rw [hpc]; rfl) (hnone id (.held w task))
  | ready id func ctx => exact absurd (by rw [hpc]; rfl) (hnone id (.ready w))
  | running id => exact absurd (by rw [hpc]; rfl) (hnone id (.running w))
  | quitTest | popTask | lock | blockTest | unlockNull | condWait | waiting | woken | unlock
  | exited => trivial

/-- Where every task has finished, the queue is empty. -/
theorem Finished.head_eq_none (h : Finished s) (ht : Tracked s xs stage) :
    s.queue.head = none := by
  rw [ht.memory.holds.head_eq_none, List.eq_nil_iff_forall_not_mem]
  intro task htask
  have hqueued := (ht.memory.queued (s.postOf task) task).mpr ⟨htask, rfl⟩
  rcases h.stage_cases ht (s.postOf task) with hst | hst | hst <;> rw [hst] at hqueued <;>
    cases hqueued

variable [DecidableEq A] [DecidableEq P] {a : Action n P A H X}

/-- `quit` was set before, unless a thread in `thrdpool_terminate` sets it. -/
theorem Effect.quit (heff : Effect s a s') :
    (s.quit = true → s'.quit = true) ∧
      (s'.quit = true → s.quit = true ∨ ∃ t, (s.call t).isTerminate = true) := by
  cases heff with
  | setQuit t hc => exact ⟨fun _ => rfl, fun _ => .inr ⟨t, by rw [hc]; rfl⟩⟩
  | _ => exact ⟨id, .inl⟩

/-- `thrdpool_waitdone` was called before, unless it is called now. -/
theorem Effect.notCalled (heff : Effect s a s') (hw : s.wait = .notCalled) :
    s'.wait = .notCalled ∨ a = .waitdone := by
  cases heff with
  | waitdone => exact .inr rfl
  | join i hi hwait | joined i hi hwait | drainNull queue hwait | drain queue task hwait
  | discard id task hwait | destroy hwait | freePool hwait =>
    rw [hw] at hwait
    cases hwait
  | _ => exact .inl hw

/-- Where every task has finished and nobody calls `thrdpool_post`, every task has finished. -/
theorem Finished.step (h : Finished s) (ht : Tracked s xs stage)
    (hpost : ∀ t func arg, a ≠ .post t func arg) (heff : Effect s a s') : Finished s' := by
  cases heff with
  | post t func arg => exact absurd rfl (hpost t func arg)
  | refuse t id | mallocNull t id =>
    intro id' hid'
    refine (h id' hid').imp_left fun hres => ?_
    by_cases hid : id' = id
    · simp [hid]
    · simpa [hid] using hres
  | signal t id w hc | signalLost t id hc =>
    intro id' hid'
    by_cases hid : id' = id
    · subst hid
      -- The post has appended its task, and so it has not returned -1.
      have happ := ht.signal t id' hc
      refine .inr ((h id' hid').resolve_left fun hres => ?_)
      rw [(ht.history.results.refused id').mp hres] at happ
      cases happ
    · simpa [hid] using h id' hid'
  | finish w id => exact fun id' hid' => (h id' hid').imp_right fun hfin => by simp [hfin]
  | _ => exact h

/-- Every step of the controller and of the others keeps the pool controlled. -/
theorem ControlledBy.step (h : ControlledBy k s) (ht : Tracked s xs stage)
    (hok : a.Controlled k s) (heff : Effect s a s') : ControlledBy k s' := by
  have hterm : ∀ t, (s'.call t).isTerminate = true →
      (s.call t).isTerminate = true ∨ a = .terminate t := fun t => heff.isTerminate
  refine { controller := fun t ht' => ?_, quit := fun hw => ?_, finished := fun hb => ?_ }
  · rcases hterm t ht' with hold | rfl
    · exact h.controller t hold
    · exact hok.1
  · by_cases hold : s.wait = .notCalled
    · rcases heff.notCalled hold with hnew | rfl
      · exact absurd hnew hw
      · exact heff.quit.1 hok.1
    · exact heff.quit.1 (h.quit hold)
  · by_cases hbs : Begun k s
    · refine (h.finished hbs).step ht ?_ heff
      rintro t func arg rfl
      exact hok hbs
    · -- The controller begins in this step, with every task finished.
      have ha : a = .terminate (.inr k) := by
        rcases hb with hnew | hquit
        · exact (hterm (.inr k) hnew).resolve_left fun hold => hbs (.inl hold)
        · rcases heff.quit.2 hquit with hold | ⟨t, hold⟩
          · exact absurd (.inr hold) hbs
          · exact absurd (.inl (h.controller t hold ▸ hold)) hbs
      subst ha
      exact hok.2.2.step ht (by simp) heff

/-- A pool stays controlled in every run. -/
theorem controlledBy_of_reaches {ok : State n P A H X → Action n P A H X → Prop}
    (hok : ∀ s a, ok s a → a.Controlled k s)
    (h : Lib.Reaches step ok (State.init n P A H X) s) : ControlledBy k s := by
  refine h.invariant_of (J := fun t => ∃ xs stage, Tracked t xs stage)
    (fun t ht => tracked_of_reaches ht) ?_ ?_
  · exact { controller := fun t ht => (by cases ht), quit := fun hw => absurd rfl hw,
            finished := fun _ id hid => absurd hid (Nat.not_lt_zero id) }
  · exact fun t a u ⟨xs, stage, ht⟩ hk ha hstep => hk.step ht (hok t a ha) (effect_of_step hstep)

end CPStudy.ThrdPool
