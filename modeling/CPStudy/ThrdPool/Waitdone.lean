import Mathlib.Data.Fintype.Sum
import CPStudy.ThrdPool.Shutdown
import CPStudy.ThrdPool.Tasks

/-!
# `thrdpool_waitdone`

What a program has to observe when it uses the pool, and what `thrdpool_waitdone` can rely on
then. A program calls `thrdpool_waitdone` when no thread is in `thrdpool_post`, and no thread but
the workers, from inside their handlers, calls `thrdpool_post` after that (`Action.Disciplined`).
In such a run every worker that is joined has left for good, so that nobody is in `thrdpool_post`
when `__taskqueue_destroy` runs and the queue stays empty once it has found it empty (`Waited`).
-/

namespace CPStudy.ThrdPool

open Function (update)

section Predicates

variable {A H X : Type*}

/-- The thread is in `thrdpool_post`. -/
def CallPc.isPost : CallPc A H X → Bool
  | .postQuit _ _ _ => true
  | .postMalloc _ _ _ => true
  | .postAppend _ _ => true
  | .postSignal _ => true
  | _ => false

/-- `thrdpool_waitdone` has joined the worker with the number `w`. -/
def WaitPc.hasJoined (w : ℕ) : WaitPc A → Prop
  | .notCalled => False
  | .join i => w < i
  | _ => True

/-- `__taskqueue_destroy` has found the queue empty. -/
def WaitPc.hasDrained : WaitPc A → Prop
  | .destroy => True
  | .freePool => True
  | .returned => True
  | _ => False

end Predicates

variable {n : ℕ} {P A H X : Type*}

/-- What a program observes: `thrdpool_waitdone` is called when no `thrdpool_post` is in progress,
and after that only handlers call `thrdpool_post`. -/
def Action.Disciplined (s : State n P A H X) : Action n P A H X → Prop
  | .post (.inr _) _ _ => s.wait.isNotCalled = true
  | .waitdone => ∀ t, (s.call t).isPost = false
  | _ => True

instance [Fintype P] (s : State n P A H X) (a : Action n P A H X) :
    Decidable (a.Disciplined s) :=
  match a with
  | .post (.inr _) _ _ => inferInstanceAs (Decidable (s.wait.isNotCalled = true))
  | .waitdone => inferInstanceAs (Decidable (∀ t, (s.call t).isPost = false))
  | .post (.inl _) _ _ | .work _ | .spurious _ | .malloc _ _ | .signal _ _ | .terminate _ | .call _
  | .wait => inferInstanceAs (Decidable True)

/-- What `thrdpool_waitdone` relies on. -/
structure Waited (s : State n P A H X) : Prop where
  /-- A worker that is joined has left. -/
  joined : ∀ w : Fin n, s.wait.hasJoined w → s.worker w = .exited
  /-- No thread but the workers is in `thrdpool_post`. -/
  outside : s.wait ≠ .notCalled → ∀ p, (s.call (.inr p)).isPost = false
  /-- The queue stays empty. -/
  drained : s.wait.hasDrained → s.queue.head = none

variable {s s' : State n P A H X}

/-- Every worker has left once `__taskqueue_destroy` has found the queue empty. -/
theorem Waited.exited (h : Waited s) (hd : s.wait.hasDrained) (w : Fin n) :
    s.worker w = .exited := by
  refine h.joined w ?_
  cases hw : s.wait <;> rw [hw] at hd <;> first | exact hd.elim | trivial

/-- Nobody is in `thrdpool_post` once every worker has left and `thrdpool_waitdone` is called. -/
theorem Waited.no_post (h : Waited s) (hl : Locked s) (hw : s.wait ≠ .notCalled)
    (he : ∀ w, s.worker w = .exited) (t : Thread n P) : (s.call t).isPost = false := by
  rcases t with w | p
  · by_cases hc : s.call (.inl w) = .idle
    · rw [hc]
      rfl
    · obtain ⟨post, hrun⟩ := hl.running w hc
      rw [he w] at hrun
      cases hrun
  · exact h.outside hw p

/-- A thread stays out of `thrdpool_post` when some thread takes a step that does not take that one
there. -/
theorem isPost_update [DecidableEq P] {call : Thread n P → CallPc A H X} {t u : Thread n P}
    {pc : CallPc A H X} (hu : (call u).isPost = false)
    (hpc : (call t).isPost = false → pc.isPost = false) : (update call t pc u).isPost = false := by
  by_cases hut : u = t
  · subst hut
    simpa using hpc hu
  · simpa [hut] using hu

/-- When `thrdpool_waitdone` has returned, the handler of a task that was appended has returned, or
`__taskqueue_destroy` has freed the task. -/
theorem Tracked.stage_of_returned {xs : List A} {stage : PostId → Stage n P A}
    (h : Tracked s xs stage) (hw : Waited s) (hr : s.wait = .returned) {id : PostId}
    (hid : id ∈ s.appended) : stage id = .finished ∨ stage id = .discarded := by
  have hexited : ∀ w, s.worker w = .exited := hw.exited (by rw [hr]; trivial)
  have hqueue : xs = [] := h.memory.holds.head_eq_none.mp (hw.drained (by rw [hr]; trivial))
  have happ := h.history.appended.mem_iff.mp hid
  cases hst : stage id with
  | unposted | posting t | refused | filled t a =>
    rw [hst] at happ
    cases happ
  | queued a =>
    have hmem := ((h.memory.queued id a).mp hst).1
    rw [hqueue] at hmem
    cases hmem
  | held w | ready w | running w =>
    -- The worker would still have the post.
    have hcarry := (h.workers w id _).mpr ⟨hst, rfl⟩
    simp [hexited w, WorkerPc.stage?] at hcarry
  | draining a =>
    have hcarry := (h.draining () id _).mpr ⟨hst, rfl⟩
    simp [hr, WaitPc.stage?] at hcarry
  | finished => exact .inl rfl
  | discarded => exact .inr rfl

variable [DecidableEq A] [DecidableEq P] {a : Action n P A H X}

/-- A worker that has left takes no step. -/
theorem Effect.exited (heff : Effect s a s') {w : Fin n} (hw : s.worker w = .exited) :
    s'.worker w = .exited := by
  cases heff with
  | quitSeen v hv | quitPassed v hv | popNull v queue hv | pop v queue task hv | lock v hv
  | blocking v hv | nonblocking v hv | leave v hv | sleep v hv | relock v hv | unlock v hv
  | read v post task t hv | free v post task func ctx hv | invoke v post func ctx hv
  | finish v post hv | spurious v hv | signal t post v hc hl hv =>
    have hvw : w ≠ v := by
      rintro rfl
      rw [hw] at hv
      cases hv
    exact (Function.update_of_ne hvw _ _).trans hw
  | broadcast t hc =>
    rcases wakeAll_cases s.worker w with ⟨hwait, -⟩ | ⟨-, heq⟩
    · rw [hw] at hwait
      cases hwait
    · exact heq.trans hw
  | post | refuse | accept | mallocNull | malloc | append | signalLost | terminate | setQuit
  | termLock | setNonblock | termUnlock | waitdone | join | joined | drainNull | drain | discard
  | destroy | freePool => exact hw

/-- Every step that the program may take keeps what `thrdpool_waitdone` relies on. -/
theorem Waited.step (h : Waited s) (hl : Locked s) (hok : a.Disciplined s)
    (heff : Effect s a s') : Waited s' := by
  have hexited : ∀ w, s.worker w = .exited → s'.worker w = .exited := fun w => heff.exited
  have hjoined := h.joined
  have houtside := h.outside
  have hdrained := h.drained
  have hleft := h.exited
  cases heff with
  | waitdone hw =>
    exact { joined := fun w hj => absurd hj (Nat.not_lt_zero _),
            outside := fun _ p => hok (.inr p), drained := fun hd => hd.elim }
  | join i hi hw he =>
    refine { joined := fun w hj => ?_, outside := fun _ => houtside (by simp [hw]),
             drained := fun hd => hd.elim }
    -- The worker is the one just joined or one joined before.
    rcases Nat.lt_succ_iff_lt_or_eq.mp hj with hlt | heq
    · exact hjoined w (by rw [hw]; exact hlt)
    · obtain rfl : w = ⟨i, hi⟩ := Fin.ext heq
      exact he
  | joined i hi hw =>
    refine { joined := fun w _ => hjoined w ?_, outside := fun _ => houtside (by simp [hw]),
             drained := fun hd => hd.elim }
    rw [hw]
    show (w : ℕ) < i
    omega
  | drainNull queue hw hp =>
    exact { joined := fun w _ => hjoined w (by rw [hw]; trivial),
            outside := fun _ => houtside (by simp [hw]),
            drained := fun _ => TaskQueue.head_of_popTask_none hp }
  | drain queue task hw hp | discard id task hw =>
    exact { joined := fun w _ => hjoined w (by rw [hw]; trivial),
            outside := fun _ => houtside (by simp [hw]), drained := fun hd => hd.elim }
  | destroy hw | freePool hw =>
    exact { joined := fun w _ => hjoined w (by rw [hw]; trivial),
            outside := fun _ => houtside (by simp [hw]),
            drained := fun _ => hdrained (by rw [hw]; trivial) }
  | pop w queue task hw hp =>
    refine { joined := fun v hv => hexited v (hjoined v hv), outside := houtside,
             drained := fun hd => ?_ }
    rw [hleft hd w] at hw
    cases hw
  | append t id task queue hc hq ha =>
    refine { joined := hjoined,
             outside := fun hw p => isPost_update (houtside hw p) (by simp [hc, CallPc.isPost]),
             drained := fun hd => ?_ }
    -- The thread would be in `thrdpool_post` with every worker gone.
    have hpost := h.no_post hl (fun hw => by rw [hw] at hd; exact hd) (hleft hd) t
    rw [hc] at hpost
    cases hpost
  | post t func arg hc hr =>
    refine { joined := hjoined, outside := fun hw p => ?_, drained := hdrained }
    rcases t with w | q
    · simpa using houtside hw p
    · exact absurd ((WaitPc.isNotCalled_iff _).mp hok) hw
  | refuse t id func arg hc | accept t id func arg hc | mallocNull t id func arg hc
  | malloc t id func arg task junk hc | signalLost t id hc | terminate t hc | setQuit t hc
  | termLock t hc | setNonblock t hc | termUnlock t hc =>
    exact { joined := hjoined,
            outside := fun hw p => isPost_update (houtside hw p) (by simp [hc, CallPc.isPost]),
            drained := hdrained }
  | broadcast t hc | signal t id w hc =>
    exact { joined := fun v hv => hexited v (hjoined v hv),
            outside := fun hw p => isPost_update (houtside hw p) (by simp [hc, CallPc.isPost]),
            drained := hdrained }
  | quitSeen | quitPassed | popNull | lock | blocking | nonblocking | leave | sleep | relock
  | unlock | read | free | invoke | finish | spurious =>
    exact { joined := fun v hv => hexited v (hjoined v hv), outside := houtside,
            drained := hdrained }

/-- What `thrdpool_waitdone` relies on holds in every run of such a program. -/
theorem waited_of_reaches {ok : State n P A H X → Action n P A H X → Prop}
    (hok : ∀ s a, ok s a → a.Disciplined s)
    (h : Lib.Reaches step ok (State.init n P A H X) s) : Waited s := by
  refine h.invariant_of (J := Locked) (fun t ht => (locked_of_reaches ht).1) ?_ ?_
  · exact { joined := fun w hj => hj.elim, outside := fun hne => absurd rfl hne,
            drained := fun hd => hd.elim }
  · exact fun t a u hl hw ha hstep => hw.step hl (hok t a ha) (effect_of_step hstep)

end CPStudy.ThrdPool
