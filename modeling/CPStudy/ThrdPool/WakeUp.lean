import Mathlib.Data.Fintype.Sum
import CPStudy.Lib.Count
import CPStudy.ThrdPool.Progress

/-!
# Wake-ups in the C thread pool

A worker tests the queue under the spinlock and starts to wait under the mutex, and `__add_task`
appends and signals under neither. So a `pthread_cond_signal` can fall between a worker's failed pop
and its wait. Where every worker is there (`WorkerPc.inWindow`) and no other signal is to come, it
is lost for good (`Swallowed`): the workers go on to wait before a queue with a task in it
(`Stalled`), whatever their order (`Doomed`). As long as no signal is lost so, a task before workers
that wait or are about to always has a signal to come (`Promised`).
-/

namespace CPStudy.ThrdPool

open Function (update)

variable {n : ℕ} {P A H X : Type*}

/-- The task queue is non-empty, every worker is waiting un-signalled, and no `__add_task` still
has its `pthread_cond_signal` to perform. -/
structure Stalled (s : State n P A H X) : Prop where
  /-- There is a task. -/
  task : s.queue.head ≠ none
  /-- Every worker waits. -/
  asleep : ∀ w, s.worker w = .waiting
  /-- No signal is to come. -/
  silent : ∀ t, (s.call t).signals = false

/-- A step that is no call of `thrdpool_terminate` and no spurious wake-up. -/
def Action.Regular : Action n P A H X → Prop
  | .terminate _ => False
  | .spurious _ => False
  | _ => True

instance (a : Action n P A H X) : Decidable a.Regular :=
  match a with
  | .terminate _ | .spurious _ => inferInstanceAs (Decidable False)
  | .work _ | .post _ _ _ | .malloc _ _ | .signal _ _ | .call _ | .waitdone | .wait =>
    inferInstanceAs (Decidable True)

/-- The worker is between a `__pop_task` that has returned `NULL` and its `pthread_cond_wait`. -/
def WorkerPc.inWindow : WorkerPc A H X → Bool
  | .lock => true
  | .blockTest => true
  | .condWait => true
  | _ => false

/-- The signal of the thread finds a task in the queue and every worker between its failed pop and
its wait, and it is the last one to come. -/
def Swallowed (s : State n P A H X) (t : Thread n P) : Prop :=
  s.queue.head.isSome = true ∧ (∀ w, (s.worker w).inWindow = true) ∧
    ∀ u, u ≠ t → (s.call u).signals = false

instance [DecidableEq P] [Fintype P] (s : State n P A H X) (t : Thread n P) :
    Decidable (Swallowed s t) :=
  inferInstanceAs (Decidable (_ ∧ _ ∧ _))

/-- The condition on a step: no signal is swallowed. -/
def Action.Heard (s : State n P A H X) : Action n P A H X → Prop
  | .signal t _ => ¬Swallowed s t
  | _ => True

instance [DecidableEq P] [Fintype P] (s : State n P A H X) (a : Action n P A H X) :
    Decidable (a.Heard s) :=
  match a with
  | .signal t _ => inferInstanceAs (Decidable ¬Swallowed s t)
  | .work _ | .spurious _ | .post _ _ _ | .malloc _ _ | .terminate _ | .call _ | .waitdone
  | .wait => inferInstanceAs (Decidable True)

/-- The worker waits, or is between its failed pop and its wait. -/
def WorkerPc.Sleepy (pc : WorkerPc A H X) : Prop := pc.inWindow = true ∨ pc = .waiting

/-- Before a task that all workers turn away from, there is a signal to come. -/
def Promised (s : State n P A H X) : Prop :=
  s.queue.head ≠ none → (∀ w, (s.worker w).Sleepy) → ∃ t, (s.call t).signals = true

/-- Nobody has called `thrdpool_terminate`. -/
structure Unterminated (s : State n P A H X) : Prop where
  /-- `block` is as `thrdpool_create` has set it. -/
  block : s.block = true
  /-- Nobody is in `thrdpool_terminate`. -/
  call : ∀ t, (s.call t).isTerminate = false

/-- There is a task, every worker turns away from it, and nobody is to tell them. -/
structure Doomed (s : State n P A H X) : Prop where
  /-- There is a task. -/
  task : s.queue.head ≠ none
  /-- Every worker waits or is about to. -/
  sleepy : ∀ w, (s.worker w).Sleepy
  /-- No signal is to come. -/
  silent : ∀ t, (s.call t).signals = false
  /-- Nobody has called `thrdpool_terminate`. -/
  unterminated : Unterminated s
  /-- The mutex is with somebody who has it. -/
  owned : Owned s

/-- How many steps the worker is from its wait. -/
def WorkerPc.toWait : WorkerPc A H X → ℕ
  | .lock => 3
  | .blockTest => 2
  | .condWait => 1
  | _ => 0

/-- The condition on a step: a task is appended only where no worker is between its failed pop and
its wait. -/
def Action.Apart (s : State n P A H X) : Action n P A H X → Prop
  | .call t => (∃ post task, s.call t = .postAppend post task) →
      ∀ w, (s.worker w).inWindow = false
  | _ => True

variable {s s' : State n P A H X} [DecidableEq A] [DecidableEq P] {a : Action n P A H X}

omit [DecidableEq A] [DecidableEq P] in
/-- A signal that is not swallowed leaves another to come where all workers turn away. -/
theorem exists_signals_of_not_swallowed {t : Thread n P} (ht : ¬Swallowed s t)
    (htask : s.queue.head ≠ none) (hw : ∀ w, (s.worker w).inWindow = true) :
    ∃ u, u ≠ t ∧ (s.call u).signals = true := by
  by_contra hnone
  refine ht ⟨Option.isSome_iff_ne_none.mpr htask, hw, fun u hut => ?_⟩
  by_contra hu
  exact hnone ⟨u, hut, by simpa using hu⟩

omit [DecidableEq A] in
/-- A signal to come is still to come after a step of another thread. -/
theorem exists_signals_update {t : Thread n P} {pc : CallPc A H X}
    (h : ∃ u, (s.call u).signals = true) (ht : (s.call t).signals = false) :
    ∃ u, (update s.call t pc u).signals = true := by
  obtain ⟨u, hu⟩ := h
  have hut : u ≠ t := by
    rintro rfl
    rw [ht] at hu
    cases hu
  exact ⟨u, by simpa [hut] using hu⟩

/-- Every step that is no swallowed signal and no spurious wake-up keeps a signal to come. -/
theorem Promised.step (h : Promised s) (heff : Effect s a s') (hreg : a.Regular)
    (ha : a.Heard s) : Promised s' := by
  intro htask hsleepy
  cases heff with
  | lock w hw | blocking w hw | sleep w hw =>
    -- The worker has turned away from the queue before.
    refine h htask fun v => ?_
    by_cases hvw : v = w
    · rw [hvw, hw]
      exact .inl rfl
    · simpa [hvw] using hsleepy v
  | popNull w queue hw hp => exact absurd (TaskQueue.head_of_popTask_none hp) htask
  | signal t post w =>
    -- The worker that is woken does not turn away.
    have hw := hsleepy w
    simp [WorkerPc.Sleepy, WorkerPc.inWindow] at hw
  | signalLost t post hc hl hw =>
    have hwindow : ∀ w, (s.worker w).inWindow = true := fun w => (hsleepy w).resolve_right (hw w)
    obtain ⟨u, hut, hu⟩ := exists_signals_of_not_swallowed ha htask hwindow
    exact ⟨u, by simpa [hut] using hu⟩
  | append t post => exact ⟨t, by simp [CallPc.signals]⟩
  | broadcast t hc =>
    refine exists_signals_update (h htask fun w => ?_) (by rw [hc]; rfl)
    -- A worker that waited is woken and would not turn away.
    have hw : (wakeAll s.worker w).Sleepy := hsleepy w
    rcases wakeAll_cases s.worker w with ⟨-, heq⟩ | ⟨-, heq⟩ <;> rw [heq] at hw
    · simp [WorkerPc.Sleepy, WorkerPc.inWindow] at hw
    · exact hw
  | drain queue task hw hp => exact h (TaskQueue.head_of_popTask_some hp) hsleepy
  | quitSeen w | quitPassed w | pop w | nonblocking w | leave w | relock w | unlock w | read w
  | free w | invoke w | finish w =>
    -- The worker has just gone where it does not turn away.
    have hw := hsleepy w
    simp [WorkerPc.Sleepy, WorkerPc.inWindow] at hw
  | spurious w => exact hreg.elim
  | post t func arg hc | refuse t post func arg hc | accept t post func arg hc
  | mallocNull t post func arg hc | malloc t post func arg task junk hc | terminate t hc
  | setQuit t hc | termLock t hc | setNonblock t hc | termUnlock t hc =>
    exact exists_signals_update (h htask hsleepy) (by rw [hc]; rfl)
  | waitdone | join | joined | drainNull | discard | destroy | freePool => exact h htask hsleepy

/-- A run in which no signal is swallowed does not stall. -/
theorem not_stalled_of_heard
    (h : Lib.Reaches step (fun s a => a.Regular ∧ a.Heard s) (State.init n P A H X) s) :
    ¬Stalled s := by
  have hpromised : Promised s := by
    refine invariant_of_effect Promised h (fun htask => absurd rfl htask) ?_
    exact fun t a u ht hok heff => ht.step heff hok.1 hok.2
  intro hs
  obtain ⟨t, ht⟩ := hpromised hs.task fun w => .inr (hs.asleep w)
  rw [hs.silent t] at ht
  cases ht

/-- Where tasks are appended apart from the windows, a worker in its window has an empty queue
before it. -/
theorem Effect.head_eq_none (heff : Effect s a s') (ha : a.Apart s)
    (h : ∀ w, (s.worker w).inWindow = true → s.queue.head = none) (w : Fin n)
    (hw : (s'.worker w).inWindow = true) : s'.queue.head = none := by
  cases heff with
  | popNull v queue hv hp => exact TaskQueue.head_of_popTask_none hp
  | pop v queue task hv hp =>
    -- Nobody is in its window before a non-empty queue.
    by_cases hwv : w = v
    · simp [hwv, WorkerPc.inWindow] at hw
    · exact absurd (h w (by simpa [hwv] using hw)) (TaskQueue.head_of_popTask_some hp)
  | drain queue task hwait hp => exact absurd (h w hw) (TaskQueue.head_of_popTask_some hp)
  | append t post task queue hc =>
    have hout := ha ⟨post, task, hc⟩ w
    rw [show (s.worker w).inWindow = true from hw] at hout
    cases hout
  | broadcast t hc =>
    have hw' : (wakeAll s.worker w).inWindow = true := hw
    rcases wakeAll_cases s.worker w with ⟨-, heq⟩ | ⟨-, heq⟩ <;> rw [heq] at hw'
    · cases hw'
    · exact h w hw'
  | lock v hv | blocking v hv =>
    -- The worker was in its window before the step.
    by_cases hwv : w = v
    · exact h v (by rw [hv]; rfl)
    · exact h w (by simpa [hwv] using hw)
  | quitSeen v | quitPassed v | nonblocking v | leave v | sleep v | relock v | unlock v | read v
  | free v | invoke v | finish v | spurious v | signal _ _ v =>
    by_cases hwv : w = v
    · simp [hwv, WorkerPc.inWindow] at hw
    · exact h w (by simpa [hwv] using hw)
  | post | refuse | accept | mallocNull | malloc | signalLost | terminate | setQuit | termLock
  | setNonblock | termUnlock | waitdone | join | joined | drainNull | discard | destroy
  | freePool => exact h w hw

/-- A run whose tasks are appended apart from the windows does not stall. -/
theorem not_stalled_of_apart (hn : 0 < n)
    (h : Lib.Reaches step (fun s a => a.Regular ∧ a.Apart s) (State.init n P A H X) s) :
    ¬Stalled s := by
  have hwindow : ∀ t, Lib.Reaches step (fun s a => a.Regular ∧ a.Apart s) (State.init n P A H X) t →
      ∀ w, (t.worker w).inWindow = true → t.queue.head = none := by
    intro t ht
    refine invariant_of_effect
      (fun t => ∀ w, (t.worker w).inWindow = true → t.queue.head = none) ht (fun _ _ => rfl) ?_
    exact fun t a u hI hok heff => heff.head_eq_none hok.2 hI
  have hpromised : Promised s := by
    refine h.invariant_of (I := Promised) hwindow (fun htask => absurd rfl htask) ?_
    intro t a u hI hp hok hstep
    refine hp.step (effect_of_step hstep) hok.1 ?_
    -- A swallowed signal would find a worker in its window and the queue empty.
    cases a with
    | signal t' w =>
      rintro ⟨htask, hall, -⟩
      rw [hI ⟨0, hn⟩ (hall ⟨0, hn⟩)] at htask
      cases htask
    | _ => trivial
  intro hs
  obtain ⟨t, ht⟩ := hpromised hs.task fun w => .inr (hs.asleep w)
  rw [hs.silent t] at ht
  cases ht

/-- Every step that calls no `thrdpool_terminate` leaves the pool unterminated. -/
theorem Unterminated.step (h : Unterminated s) (heff : Effect s a s') (hreg : a.Regular) :
    Unterminated s' := by
  refine { block := ?_, call := fun t => ?_ }
  · cases heff with
    | setNonblock t hc =>
      have ht := h.call t
      rw [hc] at ht
      cases ht
    | _ => exact h.block
  · by_contra ht
    rcases heff.isTerminate (by simpa using ht) with hold | rfl
    · rw [h.call t] at hold
      cases hold
    · exact hreg

/-- Nobody has called `thrdpool_terminate` in a run without a call of it. -/
theorem unterminated_of_reaches {ok : State n P A H X → Action n P A H X → Prop}
    (hok : ∀ s a, ok s a → a.Regular) (h : Lib.Reaches step ok (State.init n P A H X) s) :
    Unterminated s :=
  invariant_of_effect Unterminated h ⟨rfl, fun _ => rfl⟩
    fun t a _ ht ha heff => ht.step heff (hok t a ha)

/-- A swallowed signal leaves the pool doomed. -/
theorem Swallowed.doomed {t : Thread n P} {w : Option (Fin n)} (h : Swallowed s t)
    (hu : Unterminated s) (ho : Owned s) (heff : Effect s (.signal t w) s') : Doomed s' := by
  obtain ⟨htask, hwindow, hsilent⟩ := h
  have hu' : Unterminated s' := hu.step heff trivial
  have ho' : Owned s' := ho.step heff
  cases heff with
  | signal t post w hc hl hw =>
    -- Nobody waits.
    have hin := hwindow w
    rw [hw] at hin
    cases hin
  | signalLost t post hc hl hw =>
    refine { task := Option.isSome_iff_ne_none.mp htask, sleepy := fun w => .inl (hwindow w),
             silent := fun u => ?_, unterminated := hu', owned := ho' }
    by_cases hut : u = t
    · simp [hut, CallPc.signals]
    · simpa [hut] using hsilent u hut

/-- Every step of a worker of a doomed pool takes it to its wait, and leaves the pool doomed. -/
theorem Doomed.step (h : Doomed s) {w : Fin n} (heff : Effect s (.work w) s') :
    Doomed s' ∧ Lib.sumOf WorkerPc.toWait s'.worker < Lib.sumOf WorkerPc.toWait s.worker := by
  have hu' : Unterminated s' := h.unterminated.step heff trivial
  have ho' : Owned s' := h.owned.step heff
  have hsleepy := h.sleepy w
  have hmove : ∀ pc : WorkerPc A H X, pc.Sleepy → ∀ v, (update s.worker w pc v).Sleepy := by
    intro pc hpc v
    by_cases hvw : v = w
    · rw [hvw, Function.update_self]
      exact hpc
    · rw [Function.update_of_ne hvw]
      exact h.sleepy v
  cases heff with
  | lock w hw =>
    have hsum := Lib.sumOf_update (f := s.worker) WorkerPc.toWait w .blockTest
    simp only [hw, WorkerPc.toWait] at hsum
    exact ⟨⟨h.task, hmove _ (.inl rfl), h.silent, hu', ho'⟩, by dsimp only; omega⟩
  | blocking w hw =>
    have hsum := Lib.sumOf_update (f := s.worker) WorkerPc.toWait w .condWait
    simp only [hw, WorkerPc.toWait] at hsum
    exact ⟨⟨h.task, hmove _ (.inl rfl), h.silent, hu', ho'⟩, by dsimp only; omega⟩
  | sleep w hw =>
    have hsum := Lib.sumOf_update (f := s.worker) WorkerPc.toWait w .waiting
    simp only [hw, WorkerPc.toWait] at hsum
    exact ⟨⟨h.task, hmove _ (.inr rfl), h.silent, hu', ho'⟩, by dsimp only; omega⟩
  | nonblocking w hw hb =>
    rw [h.unterminated.block] at hb
    cases hb
  | quitSeen w hw | quitPassed w hw | popNull w queue hw | pop w queue task hw | leave w hw
  | relock w hw | unlock w hw | read w id task t hw | free w id task func ctx hw
  | invoke w id func ctx hw | finish w id hw =>
    -- The worker would not be on its way to a wait.
    rw [hw] at hsleepy
    simp [WorkerPc.Sleepy, WorkerPc.inWindow] at hsleepy

/-- The workers of a doomed pool come to stall, by their own steps. -/
theorem Doomed.exists_stalled (h : Doomed s) :
    ∃ v, Lib.Reaches ThrdPool.step (fun _ a => ∃ w, a = .work w) s v ∧ Stalled v := by
  have hless : ∀ (t : State n P A H X) a u, (Doomed t ∧ ∃ w, a = .work w) →
      ThrdPool.step t a = some u →
      Lib.sumOf WorkerPc.toWait u.worker < Lib.sumOf WorkerPc.toWait t.worker := by
    rintro t a u ⟨ht, w, rfl⟩ hstep
    exact (ht.step (effect_of_step hstep)).2
  obtain ⟨v, hv, hrest⟩ :=
    Lib.Reaches.exists_rest (μ := fun t => Lib.sumOf WorkerPc.toWait t.worker) hless s
  have hdoomed : Doomed v := by
    refine hv.invariant h fun t a u ht hok hstep => ?_
    obtain ⟨-, w, rfl⟩ := hok
    exact (ht.step (effect_of_step hstep)).1
  refine ⟨v, hv.mono fun _ _ hok => hok.2, hdoomed.task, fun w => ?_, hdoomed.silent⟩
  have hstuck : ∀ w, ThrdPool.step v (.work w) = none := fun w => hrest _ ⟨hdoomed, w, rfl⟩
  have hcall : ∀ t, ¬(v.call t).hasMutex := by
    intro t ht
    have hterm := hdoomed.unterminated.call t
    cases hpc : v.call t <;> rw [hpc] at ht hterm <;> first | exact ht.elim | cases hterm
  have hfree : v.owner = none := hdoomed.owned.free_of_rest hstuck hcall
  -- On its way to a wait a worker wants at most the mutex, and that is free.
  refine (hdoomed.sleepy w).resolve_left fun hw => ?_
  have hnone := hstuck w
  cases hpc : v.worker w <;> rw [hpc] at hw <;> try cases hw
  all_goals simp [ThrdPool.step, stepWorker, hpc, hfree] at hnone
  split at hnone <;> cases hnone

/-- With at least one worker, before any `thrdpool_terminate` and without spurious wake-ups: a run
stalls in no state as long as no signal is swallowed, and in particular where every task is appended
apart from the windows. After a signal that is swallowed, every order of the workers' steps leads to
a stalled state. -/
theorem no_lost_wakeup (hn : 0 < n) :
    (∀ s, Lib.Reaches step (fun s a => a.Regular ∧ a.Heard s) (State.init n P A H X) s →
      ¬Stalled s) ∧
    (∀ s, Lib.Reaches step (fun s a => a.Regular ∧ a.Apart s) (State.init n P A H X) s →
      ¬Stalled s) ∧
    ∀ s t w s', Lib.Reaches step (fun _ a => a.Regular) (State.init n P A H X) s →
      ¬(Action.signal t w).Heard s → step s (.signal t w) = some s' →
      ∀ u, Lib.Reaches step (fun _ a => ∃ w, a = .work w) s' u →
        ∃ v, Lib.Reaches step (fun _ a => ∃ w, a = .work w) u v ∧ Stalled v := by
  refine ⟨fun s => not_stalled_of_heard, fun s => not_stalled_of_apart hn, ?_⟩
  intro s t w s' hs hheard hstep u hu
  have hdoomed : Doomed s' :=
    Swallowed.doomed (not_not.mp hheard) (unterminated_of_reaches (fun _ _ ha => ha) hs)
      (owned_of_reaches hs) (effect_of_step hstep)
  have hdoomed' : Doomed u := by
    refine hu.invariant hdoomed fun t a u ht hok hstep => ?_
    obtain ⟨w, rfl⟩ := hok
    exact (ht.step (effect_of_step hstep)).1
  exact hdoomed'.exists_stalled

/-- The only worker finds the queue empty; a post appends its task and signals before the worker
waits. -/
def lostRun (w : Fin n) (t : Thread n P) : List (Action n P ℕ ℕ ℕ) :=
  workSteps w 2 ++ postCall t 7 8 0 ++ [.signal t none] ++ workSteps w 3

/-- A pool of one worker stalls. -/
theorem no_lost_wakeup_stalled : ¬∀ s : State 1 (Fin 1) ℕ ℕ ℕ,
    Lib.Reaches step (fun _ a => a.Regular) (State.init 1 (Fin 1) ℕ ℕ ℕ) s → ¬Stalled s := by
  intro hall
  obtain ⟨s, hs, hp⟩ := exists_run (fun _ a => a.Regular)
    (lostRun (n := 1) (P := Fin 1) 0 (.inr 0))
    (fun s => s.queue.head.isSome && (s.worker 0).isWaiting && (s.call (.inl 0)).isIdle &&
      (s.call (.inr 0)).isIdle) (by decide)
  simp only [Bool.and_eq_true, WorkerPc.isWaiting_iff, CallPc.isIdle_iff] at hp
  obtain ⟨⟨⟨hhead, hw⟩, hl⟩, hr⟩ := hp
  refine hall s hs ⟨Option.isSome_iff_ne_none.mp hhead, fun w => ?_, fun t => ?_⟩
  · rw [Subsingleton.elim w 0]
    exact hw
  · rcases t with t | t <;> rw [Subsingleton.elim t 0]
    · rw [hl]
      rfl
    · rw [hr]
      rfl

/-- One worker waits and the other is between its failed pop and its wait when the post signals. -/
def heardRun (v w : Fin n) (t : Thread n P) : List (Action n P ℕ ℕ ℕ) :=
  workSteps v 5 ++ workSteps w 2 ++ postCall t 7 8 0 ++ [.signal t (some v)] ++ workSteps w 3

/-- The signal wakes the worker that waits, and the pool does not stall when the other waits too. -/
theorem no_lost_wakeup_heard : ∃ s : State 2 (Fin 1) ℕ ℕ ℕ,
    s.queue.head ≠ none ∧ s.worker 1 = .waiting ∧ ¬Stalled s := by
  obtain ⟨s, hs, hp⟩ := exists_run (fun s a => a.Regular ∧ a.Heard s)
    (heardRun (n := 2) (P := Fin 1) 0 1 (.inr 0))
    (fun s => s.queue.head.isSome && (s.worker 1).isWaiting) (by decide)
  simp only [Bool.and_eq_true, WorkerPc.isWaiting_iff] at hp
  exact ⟨s, Option.isSome_iff_ne_none.mp hp.1, hp.2, (no_lost_wakeup (by decide)).1 s hs⟩

end CPStudy.ThrdPool
