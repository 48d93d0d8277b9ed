import CPStudy.Lib.Count
import CPStudy.ThreadPool.Effect

/-!
# The C++ thread pool drains on destruction

Every task that `enqueue` pushed is in exactly one place: in the queue, in the hands of the worker
that popped it, or invoked (`Accounted`). A worker returns only when `stop` is set and the queue
is empty, and nothing is pushed once `stop` is set, so that the queue stays empty from the first
return on (`Closing`). When the destructor has joined every worker, nobody holds a task and the
queue is empty, so that every pushed task has been invoked, once.
-/

namespace CPStudy.ThreadPool

open Function (update)
open Lib (countOf countOf_update countOf_pos countOf_eq_zero)

variable {n : ℕ} {P : Type*} [DecidableEq P]

/-- The worker has popped the task and not yet called it. -/
def WorkerPc.holds (id : TaskId) : WorkerPc → Bool
  | .holding task => task == id
  | _ => false

/-- A worker at any other point than `holding` holds nothing. -/
theorem WorkerPc.holds_eq_false {pc : WorkerPc} (h : ∀ task, pc ≠ .holding task) (id : TaskId) :
    pc.holds id = false := by
  cases pc with
  | holding task => exact absurd rfl (h task)
  | _ => rfl

/-- How often a task is held by a worker. -/
def heldCount (s : State n P) (id : TaskId) : ℕ := countOf (WorkerPc.holds id) s.worker

/-- The names of the `enqueue` calls are in order: a call before its push has a name of its own
that is in no list yet, a call that threw has pushed nothing, and a call that returned a future
has. -/
structure Named (s : State n P) : Prop where
  /-- A task is pushed at most once. -/
  nodup : s.pushed.Nodup
  /-- Only names that were given out are pushed. -/
  pushed_lt : ∀ id ∈ s.pushed, id < s.nextId
  /-- Only names that were given out are thrown. -/
  thrown_lt : ∀ id ∈ s.thrown, id < s.nextId
  /-- A call that threw has pushed nothing. -/
  thrown : ∀ id ∈ s.thrown, id ∉ s.pushed
  /-- A call that returned a future has pushed its task. -/
  futures : ∀ id ∈ s.futures, id ∈ s.pushed
  /-- A call before its push has a name that was given out. -/
  lock_lt : ∀ t id, s.call t = .lock id → id < s.nextId
  /-- A call before its push has not pushed. -/
  lock_pushed : ∀ t id, s.call t = .lock id → id ∉ s.pushed
  /-- A call before its push has not thrown. -/
  lock_thrown : ∀ t id, s.call t = .lock id → id ∉ s.thrown
  /-- Two calls before their push have different names. -/
  lock_inj : ∀ t t' id, s.call t = .lock id → s.call t' = .lock id → t = t'
  /-- A call before its `notify_one` has pushed. -/
  notify : ∀ t id, s.call t = .notify id → id ∈ s.pushed

/-- Every pushed task is in the queue, held by a worker, or invoked, as often as it was pushed. -/
def Accounted (s : State n P) : Prop :=
  ∀ id, s.pushed.count id = s.tasks.count id + heldCount s id + s.invoked.count id

/-- `stop` is set before the joins, a worker has returned only from an empty queue, and the
workers that the destructor has joined have returned. -/
structure Closing (s : State n P) : Prop where
  /-- A worker returns when `stop` is set and the queue is empty. -/
  returned : ∀ w, s.worker w = .returned → s.stop = true ∧ s.tasks = []
  /-- The destructor has waited for the workers before its position. -/
  joining : ∀ i, s.dtor = .join i → ∀ w : Fin n, w.val < i → s.worker w = .returned
  /-- The destructor returns after it has waited for all. -/
  joined : s.dtor = .returned → ∀ w, s.worker w = .returned

/-- Every step keeps the names in order. -/
theorem Named.step {s s' : State n P} (hs : Named s) (h : Effect s s') : Named s' := by
  have hlt := hs.pushed_lt
  have htl := hs.thrown_lt
  have hl := hs.lock_lt
  have hp := hs.lock_pushed
  have ht := hs.lock_thrown
  have hi := hs.lock_inj
  have hn := hs.notify
  cases h with
  | enter t hc =>
    -- The new name is above every name given out.
    exact { hs with
      pushed_lt := fun id hid => Nat.lt_succ_of_lt (hlt id hid)
      thrown_lt := fun id hid => Nat.lt_succ_of_lt (htl id hid)
      lock_lt := by grind
      lock_pushed := by grind
      lock_thrown := by grind
      lock_inj := by grind
      notify := by grind }
  | throw t task hc hstop =>
    exact { hs with
      thrown_lt := by grind
      thrown := by grind [hs.thrown]
      lock_lt := by grind
      lock_pushed := by grind
      lock_thrown := by grind
      lock_inj := by grind
      notify := by grind }
  | push t task hc hstop =>
    have hfresh := hp t task hc
    exact { hs with
      nodup := by grind [hs.nodup]
      pushed_lt := by grind
      thrown := by grind [hs.thrown]
      futures := fun id hid => List.mem_append_left _ (hs.futures id hid)
      lock_lt := by grind
      lock_pushed := by grind
      lock_thrown := by grind
      lock_inj := by grind
      notify := by grind }
  | wake t task w hc hw =>
    exact { hs with
      futures := by grind [hs.futures]
      lock_lt := by grind
      lock_pushed := by grind
      lock_thrown := by grind
      lock_inj := by grind
      notify := by grind }
  | lost t task hc hw =>
    exact { hs with
      futures := by grind [hs.futures]
      lock_lt := by grind
      lock_pushed := by grind
      lock_thrown := by grind
      lock_inj := by grind
      notify := by grind }
  | sleep | leave | take | invoke | finish | setStop | notifyAll | join | joined | spurious =>
    exact { hs with }

omit [DecidableEq P] in
/-- What a step of a worker does to the number of workers that hold a task. -/
theorem heldCount_update (s : State n P) (w : Fin n) (pc : WorkerPc) (id : TaskId) :
    countOf (WorkerPc.holds id) (update s.worker w pc) + ((s.worker w).holds id).toNat =
      heldCount s id + (pc.holds id).toNat :=
  countOf_update _ _ _ _

/-- Every step keeps each task in one place. -/
theorem Accounted.step {s s' : State n P} (hs : Accounted s) (h : Effect s s') :
    Accounted s' := by
  intro id
  have hid := hs id
  -- A worker that holds nothing before and after its step changes no count.
  have idle : ∀ (w : Fin n) (pc : WorkerPc), (∀ task, s.worker w ≠ .holding task) →
      (∀ task, pc ≠ .holding task) →
      countOf (WorkerPc.holds id) (update s.worker w pc) = heldCount s id := by
    intro w pc hw hpc
    have := heldCount_update s w pc id
    rwa [WorkerPc.holds_eq_false hw, WorkerPc.holds_eq_false hpc] at this
  cases h with
  | sleep w hw ht hstop => rw [heldCount, idle w _ (by grind) (by simp)]; exact hid
  | leave w hw ht hstop => rw [heldCount, idle w _ (by grind) (by simp)]; exact hid
  | take w task rest hw ht =>
    have hc := heldCount_update s w (.holding task) id
    rw [WorkerPc.holds_eq_false (by grind)] at hc
    rw [ht, List.count_cons] at hid
    simp only [heldCount, WorkerPc.holds] at hc ⊢
    cases hx : task == id <;> simp [hx] at hc hid ⊢ <;> simp only [heldCount] at hid <;> omega
  | invoke w task hw =>
    have hc := heldCount_update s w (.running task) id
    rw [hw] at hc
    simp only [heldCount, WorkerPc.holds, List.count_append, List.count_singleton] at hc hid ⊢
    cases hx : task == id <;> simp [hx] at hc ⊢ <;> omega
  | finish w task hw hc => rw [heldCount, idle w _ (by grind) (by simp)]; exact hid
  | push t task hc hstop =>
    simp only [heldCount, List.count_append] at hid ⊢
    omega
  | wake t task w hc hw => rw [heldCount, idle w _ (by grind) (by simp)]; exact hid
  | notifyAll hd =>
    have hsame : (fun w => WorkerPc.holds id (if s.worker w = .waiting then .notified
        else s.worker w)) = fun w => WorkerPc.holds id (s.worker w) := by
      funext w
      by_cases hw : s.worker w = .waiting <;> simp [hw, WorkerPc.holds]
    simp only [heldCount, countOf] at hid ⊢
    simp only [funext_iff] at hsame
    simp only [hsame]
    exact hid
  | spurious w hw => rw [heldCount, idle w _ (by grind) (by simp)]; exact hid
  | enter | throw | lost | setStop | join | joined => exact hid

/-- Every step keeps `Closing`. -/
theorem Closing.step {s s' : State n P} (hs : Closing s) (h : Effect s s') : Closing s' := by
  have hr := hs.returned
  have hj := hs.joining
  have hd := hs.joined
  cases h with
  -- A worker that has not returned moves: the workers that have returned are others.
  | sleep w hw ht hstop => constructor <;> grind
  | leave w hw ht hstop => constructor <;> grind
  | take w task rest hw ht => constructor <;> grind
  | invoke w task hw => constructor <;> grind
  | finish w task hw hc => constructor <;> grind
  | wake t task w hc hw => constructor <;> grind
  | spurious w hw => constructor <;> grind
  -- A push needs `stop` unset, so that no worker has returned.
  | push t task hc hstop => constructor <;> grind
  | setStop hdt => exact ⟨fun w hw => ⟨rfl, (hr w hw).2⟩, by simp, by simp⟩
  | notifyAll hdt => exact ⟨by grind, by grind, by simp⟩
  | join i hi hdt hw =>
    refine ⟨hr, fun i' hi' w hlt => ?_, by simp⟩
    obtain rfl : i + 1 = i' := by simpa using hi'
    rcases Nat.lt_succ_iff_lt_or_eq.mp hlt with hlt | heq
    · exact hj i hdt w hlt
    · rw [show w = ⟨i, hi⟩ from Fin.ext heq]
      exact hw
  | joined i hi hdt => exact ⟨hr, by simp, fun _ w => hj i hdt w (by omega)⟩
  | enter | throw | lost => exact { hs with }

/-- Every reachable state has its names in order, its tasks accounted for, and is closing. -/
theorem drain_invariants {s : State n P} (h : Reachable s) : Named s ∧ Accounted s ∧ Closing s := by
  refine h.invariant (fun s => Named s ∧ Accounted s ∧ Closing s) ⟨?_, ?_, ?_⟩
    fun t u ht heff => ⟨ht.1.step heff, ht.2.1.step heff, ht.2.2.step heff⟩
  · constructor <;> simp [State.init]
  · intro id
    have : heldCount (State.init n P) id = 0 := (countOf_eq_zero _ _).mpr fun _ => rfl
    rw [this]
    rfl
  · constructor <;> simp [State.init]

/-- When the destructor has returned, every worker has, and the queue is empty. -/
theorem tasks_empty_of_returned (hn : 0 < n) {s : State n P} (h : Reachable s)
    (hd : s.dtor = .returned) : s.tasks = [] := by
  obtain ⟨-, -, hc⟩ := drain_invariants h
  exact (hc.returned _ (hc.joined hd ⟨0, hn⟩)).2

/-- When the destructor of a pool with at least one worker has returned, every `enqueue` call that
returned a future has had its packaged task invoked exactly once, every call that threw has had
nothing queued or invoked, and the queue is empty. -/
theorem drained_on_destruction (hn : 0 < n) {s : State n P} (h : Reachable s)
    (hd : s.dtor = .returned) :
    (∀ id ∈ s.futures, s.invoked.count id = 1) ∧
    (∀ id ∈ s.thrown, id ∉ s.pushed ∧ id ∉ s.invoked) ∧
    s.tasks = [] := by
  obtain ⟨hnm, hac, hcl⟩ := drain_invariants h
  have hempty := tasks_empty_of_returned hn h hd
  have hheld : ∀ id, heldCount s id = 0 := fun id =>
    (countOf_eq_zero _ _).mpr fun w => by rw [hcl.joined hd w]; rfl
  have hinv : ∀ id, s.invoked.count id = s.pushed.count id := by
    intro id
    have := hac id
    rw [hempty, hheld] at this
    simpa using this.symm
  refine ⟨fun id hid => ?_, fun id hid => ⟨hnm.thrown id hid, ?_⟩, hempty⟩
  · rw [hinv]
    exact List.count_eq_one_of_mem hnm.nodup (hnm.futures id hid)
  · rw [← List.count_eq_zero, hinv, List.count_eq_zero]
    exact hnm.thrown id hid

/-- One worker; a task that enqueues another one, and a call that finds `stop` set. -/
def drainRun (w : Fin n) (t : Thread n P) : List (Action n P) :=
  [.work w, .enqueue t, .push t, .notify t (some w), .work w, .work w, .enqueue (.inl w),
    .push (.inl w), .dtor, .notify (.inl w) none, .enqueue t, .push t, .dtor, .work w, .work w,
    .work w, .work w, .work w, .dtor, .dtor]

/-- A run in which the destructor sets `stop` while a task that the first one enqueued is in the
queue and an outside call is about to throw. -/
theorem drained_on_destruction_nested : ∃ s : State 1 (Fin 1),
    s.dtor = .returned ∧ s.futures = [0, 1] ∧ s.thrown = [2] ∧
      ((∀ id ∈ s.futures, s.invoked.count id = 1) ∧
        (∀ id ∈ s.thrown, id ∉ s.pushed ∧ id ∉ s.invoked) ∧ s.tasks = []) := by
  obtain ⟨s, hs, hp⟩ := exists_reachable (drainRun (n := 1) (P := Fin 1) 0 (.inr 0))
    (fun s => s.dtor == .returned && s.futures == [0, 1] && s.thrown == [2]) (by decide)
  simp only [Bool.and_eq_true, beq_iff_eq] at hp
  exact ⟨s, hp.1.1, hp.1.2, hp.2, drained_on_destruction (by decide) hs hp.1.1⟩

end CPStudy.ThreadPool
