import CPStudy.ThrdPool.Shutdown

/-!
# What keeps a worker of the C thread pool from going on

`Locked` says that who has the mutex is its owner. `Owned` is the other direction: the owner is at
a program point with the mutex. So where no thread in a call has the mutex and no worker can go on,
the mutex is free (`Owned.free_of_rest`), and a worker without a task waits or has left
(`WorkerPc.stopped_of_rest`).
-/

namespace CPStudy.ThrdPool

open Function (update)

variable {n : ℕ} {P A H X : Type*}

section Predicates

variable {A H X : Type*}

/-- The thread is in `thrdpool_terminate`. -/
def CallPc.isTerminate : CallPc A H X → Bool
  | .termQuit => true
  | .termLock => true
  | .termBlock => true
  | .termUnlock => true
  | .termBroadcast => true
  | _ => false

/-- The next step of the thread is its `pthread_cond_signal`. -/
def CallPc.signals : CallPc A H X → Bool
  | .postSignal _ => true
  | _ => false

end Predicates

/-- The owner of the mutex has it at its program point. -/
def Owned (s : State n P A H X) : Prop :=
  ∀ t, s.owner = some t → (∃ w, t = .inl w ∧ (s.worker w).hasMutex) ∨ (s.call t).hasMutex

/-- The worker has no task. -/
def WorkerPc.hasNoTask : WorkerPc A H X → Prop
  | .held _ _ => False
  | .loaded _ _ _ _ => False
  | .ready _ _ _ => False
  | .running _ => False
  | _ => True

/-- The worker waits or has left. -/
def WorkerPc.Stopped (pc : WorkerPc A H X) : Prop := pc = .waiting ∨ pc = .exited

variable {s s' : State n P A H X} [DecidableEq A] [DecidableEq P] {a : Action n P A H X}

omit [DecidableEq A] in
/-- A thread in `thrdpool_terminate` was there before a step that does not take it there. -/
theorem isTerminate_of_update {t u : Thread n P} {pc : CallPc A H X}
    (hu : (update s.call t pc u).isTerminate = true)
    (hpc : pc.isTerminate = true → (s.call t).isTerminate = true) :
    (s.call u).isTerminate = true := by
  by_cases hut : u = t
  · subst hut
    exact hpc (by simpa using hu)
  · simpa [hut] using hu

/-- The threads in `thrdpool_terminate` were there before, unless one calls it. -/
theorem Effect.isTerminate (heff : Effect s a s') {t : Thread n P}
    (ht : (s'.call t).isTerminate = true) :
    (s.call t).isTerminate = true ∨ a = .terminate t := by
  cases heff with
  | terminate u hc =>
    by_cases htu : t = u
    · exact .inr (by rw [htu])
    · exact .inl (by simpa [htu] using ht)
  | post u func arg hc | refuse u id func arg hc | accept u id func arg hc
  | mallocNull u id func arg hc | malloc u id func arg task junk hc | append u id task queue hc
  | signal u id w hc | signalLost u id hc | setQuit u hc | termLock u hc | setNonblock u hc
  | termUnlock u hc | broadcast u hc =>
    exact .inl (isTerminate_of_update ht (by simp [hc, CallPc.isTerminate]))
  | quitSeen | quitPassed | popNull | pop | lock | blocking | nonblocking | leave | sleep | relock
  | unlock | read | free | invoke | finish | spurious | waitdone | join | joined | drainNull
  | drain | discard | destroy | freePool => exact .inl ht

omit [DecidableEq A] [DecidableEq P] in
/-- The owner, after a step of a worker that keeps the mutex if it has it. -/
theorem Owned.worker_move (h : Owned s) {w : Fin n} {pc : WorkerPc A H X}
    (hpc : (s.worker w).hasMutex → pc.hasMutex) {t : Thread n P} (ht : s.owner = some t) :
    (∃ v, t = .inl v ∧ (update s.worker w pc v).hasMutex) ∨ (s.call t).hasMutex := by
  refine (h t ht).imp_left ?_
  rintro ⟨v, rfl, hv⟩
  refine ⟨v, rfl, ?_⟩
  by_cases hvw : v = w
  · subst hvw
    rw [Function.update_self]
    exact hpc hv
  · rwa [Function.update_of_ne hvw]

omit [DecidableEq A] in
/-- The owner, after a step of a call that keeps the mutex if it has it. -/
theorem Owned.call_move (h : Owned s) {u : Thread n P} {pc : CallPc A H X}
    (hpc : (s.call u).hasMutex → pc.hasMutex) {t : Thread n P} (ht : s.owner = some t) :
    (∃ v, t = .inl v ∧ (s.worker v).hasMutex) ∨ (update s.call u pc t).hasMutex := by
  refine (h t ht).imp_right fun hc => ?_
  by_cases htu : t = u
  · subst htu
    rw [Function.update_self]
    exact hpc hc
  · rwa [Function.update_of_ne htu]

/-- Every step keeps the mutex with somebody who has it. -/
theorem Owned.step (h : Owned s) (heff : Effect s a s') : Owned s' := by
  intro t ht
  cases heff with
  | leave | sleep | unlock | termUnlock => cases ht
  | lock w | relock w =>
    -- The worker is the owner now.
    obtain rfl := Option.some.inj ht
    exact .inl ⟨w, rfl, by simp [WorkerPc.hasMutex]⟩
  | termLock u =>
    obtain rfl := Option.some.inj ht
    exact .inr (by simp [CallPc.hasMutex])
  | broadcast u hc =>
    have hcall : (∃ w, t = .inl w ∧ (s.worker w).hasMutex) ∨ (update s.call u .idle t).hasMutex :=
      h.call_move (by simp [hc, CallPc.hasMutex]) ht
    rcases hcall with ⟨w, rfl, hw⟩ | hc'
    · -- The owner does not wait, and so it is not woken.
      rcases wakeAll_cases s.worker w with ⟨hwait, -⟩ | ⟨-, heq⟩
      · rw [hwait] at hw
        exact hw.elim
      · exact .inl ⟨w, rfl, by simpa [heq] using hw⟩
    · exact .inr hc'
  | signal u post w hc hl hw =>
    have hcall : (∃ v, t = .inl v ∧ (s.worker v).hasMutex) ∨ (update s.call u .idle t).hasMutex :=
      h.call_move (by simp [hc, CallPc.hasMutex]) ht
    refine hcall.imp_left ?_
    rintro ⟨v, rfl, hv⟩
    have hvw : v ≠ w := by
      rintro rfl
      rw [hw] at hv
      exact hv
    exact ⟨v, rfl, by simpa [hvw] using hv⟩
  | quitSeen w hw | quitPassed w hw | popNull w queue hw | pop w queue task hw | blocking w hw
  | nonblocking w hw | read w id task t hw | free w id task func ctx hw
  | invoke w id func ctx hw | finish w id hw | spurious w hw =>
    exact h.worker_move (by simp [hw, WorkerPc.hasMutex]) ht
  | post u func arg hc | refuse u id func arg hc | accept u id func arg hc
  | mallocNull u id func arg hc | malloc u id func arg task junk hc | append u id task queue hc
  | signalLost u id hc | terminate u hc | setQuit u hc | setNonblock u hc =>
    exact h.call_move (by simp [hc, CallPc.hasMutex]) ht
  | waitdone | join | joined | drainNull | drain | discard | destroy | freePool => exact h t ht

/-- It is so in every run. -/
theorem owned_of_reaches {ok : State n P A H X → Action n P A H X → Prop}
    (h : Lib.Reaches step ok (State.init n P A H X) s) : Owned s :=
  invariant_of_effect Owned h (fun t ht => by cases ht) fun _ _ _ ho _ heff => ho.step heff

/-- Where no worker can go on and no thread in a call has the mutex, the mutex is free. -/
theorem Owned.free_of_rest (h : Owned s) (hrest : ∀ w, ThrdPool.step s (.work w) = none)
    (hcall : ∀ t, ¬(s.call t).hasMutex) : s.owner = none := by
  by_contra hne
  obtain ⟨t, ht⟩ := Option.ne_none_iff_exists'.mp hne
  rcases h t ht with ⟨w, rfl, hw⟩ | hc
  · have hnone := hrest w
    -- With the mutex a worker never waits for anything.
    cases hpc : s.worker w <;> rw [hpc] at hw <;> try exact hw.elim
    all_goals simp only [ThrdPool.step, stepWorker, hpc] at hnone
    · split at hnone <;> cases hnone
    all_goals cases hnone
  · exact hcall t hc

/-- A worker without a task that cannot go on while the mutex is free waits or has left. -/
theorem WorkerPc.stopped_of_rest {w : Fin n} (hrest : ThrdPool.step s (.work w) = none)
    (hfree : s.owner = none) (hpop : s.queue.popTask ≠ none) (ht : (s.worker w).hasNoTask) :
    (s.worker w).Stopped := by
  cases hpc : s.worker w with
  | waiting => exact .inl rfl
  | exited => exact .inr rfl
  | held | loaded | ready | running =>
    rw [hpc] at ht
    exact ht.elim
  | quitTest | blockTest =>
    simp only [ThrdPool.step, stepWorker, hpc] at hrest
    split at hrest <;> cases hrest
  | popTask =>
    simp only [ThrdPool.step, stepWorker, hpc] at hrest
    split at hrest
    case h_1 hnone => exact absurd hnone hpop
    case h_2 => cases hrest
    case h_3 => cases hrest
  | lock | woken =>
    simp only [ThrdPool.step, stepWorker, hpc, hfree] at hrest
    cases hrest
  | unlockNull | condWait | unlock =>
    simp only [ThrdPool.step, stepWorker, hpc] at hrest
    cases hrest

end CPStudy.ThrdPool
