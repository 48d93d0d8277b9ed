import CPStudy.Lib.Count
import CPStudy.Lib.WakeUp
import CPStudy.ThreadPool.Effect

/-!
# Wake-up accounting in the C++ thread pool

The numbers of `Lib.Board` in a state of the pool: the queued tasks, the `enqueue` calls before
their `notify_one`, the notified workers that have not re-acquired the lock, and the workers
asleep. Every step of the pool is a move of the board or leaves it alone (`effect_board`), so that
the tasks stay covered over every run. After the destructor's `notify_all` nobody falls asleep
again, since `stop` is set before it.
-/

namespace CPStudy.ThreadPool

open Function (update)
open Lib (Board countOf countOf_update countOf_pos countOf_eq_zero)

variable {n : ℕ} {P : Type*} [DecidableEq P] [Fintype P]

/-- The worker is asleep and not notified. -/
def WorkerPc.isWaiting : WorkerPc → Bool
  | .waiting => true
  | _ => false

/-- The worker is notified and has not re-acquired the lock. -/
def WorkerPc.isNotified : WorkerPc → Bool
  | .notified => true
  | _ => false

/-- The `enqueue` call has pushed its task and not yet notified. -/
def EnqueuePc.isNotify : EnqueuePc → Bool
  | .notify _ => true
  | _ => false

/-- The destructor's `notify_all` has run. -/
def DtorPc.hasNotified : DtorPc → Bool
  | .notStarted => false
  | .notifyAll => false
  | .join _ => true
  | .returned => true

/-- A worker is waiting exactly when it is at `waiting`. -/
@[simp]
theorem WorkerPc.isWaiting_iff (pc : WorkerPc) : pc.isWaiting = true ↔ pc = .waiting := by
  cases pc <;> simp [isWaiting]

/-- The wake-up numbers of a state. -/
def board (s : State n P) : Board where
  work := s.tasks.length
  pending := countOf EnqueuePc.isNotify s.call
  woken := countOf WorkerPc.isNotified s.worker
  asleep := countOf WorkerPc.isWaiting s.worker

/-- `notify_all` moves every waiting worker into the count of the notified ones. -/
theorem countOf_notifyAll (f : Fin n → WorkerPc) :
    countOf WorkerPc.isNotified (fun w => if f w = .waiting then .notified else f w) =
      countOf WorkerPc.isNotified f + countOf WorkerPc.isWaiting f := by
  have hdisj : Disjoint (Finset.univ.filter fun w => (f w).isNotified = true)
      (Finset.univ.filter fun w => (f w).isWaiting = true) := by
    rw [Finset.disjoint_filter]
    intro w _ hn hw
    rw [WorkerPc.isWaiting_iff] at hw
    -- A waiting worker is not a notified one.
    rw [hw] at hn
    cases hn
  unfold countOf
  rw [← Finset.card_union_of_disjoint hdisj, ← Finset.filter_or]
  congr 1
  apply Finset.filter_congr
  intro w _
  by_cases hw : f w = .waiting <;> simp [hw, WorkerPc.isNotified]

/-- After `notify_all` nobody is asleep. -/
theorem countOf_waiting_notifyAll (f : Fin n → WorkerPc) :
    countOf WorkerPc.isWaiting (fun w => if f w = .waiting then .notified else f w) = 0 := by
  rw [countOf_eq_zero]
  intro w
  by_cases hw : f w = .waiting
  · simp [hw, WorkerPc.isWaiting]
  · rw [if_neg hw, Bool.eq_false_iff, ne_eq, WorkerPc.isWaiting_iff]
    exact hw

/-- Every step is a move of the board or leaves it alone. -/
theorem effect_board {s s' : State n P} (h : Effect s s') :
    board s' = board s ∨ Board.Move (board s) (board s') := by
  have worker := fun p w pc => countOf_update p s.worker w pc
  have call := fun t pc => countOf_update EnqueuePc.isNotify s.call t pc
  -- `hn` and `hz` say how the counts of the notified and of the sleeping workers change where `w`
  -- moves, `hp` how that of the `enqueue` calls changes; the move of the board follows from them.
  cases h with
  | sleep w hw ht hs =>
    have hn := worker WorkerPc.isNotified w .waiting
    have hz := worker WorkerPc.isWaiting w .waiting
    right
    apply Board.Move.sleep <;> simp only [board, ht, List.length_nil]
    · rcases hw with hw | hw <;> simp [hw, WorkerPc.isNotified] at hn <;> omega
    · rcases hw with hw | hw <;> simpa [hw, WorkerPc.isWaiting] using hz
  | leave w hw ht hs =>
    have hn := worker WorkerPc.isNotified w .returned
    have hz := worker WorkerPc.isWaiting w .returned
    right
    apply Board.Move.leave <;> simp only [board, ht, List.length_nil]
    · rcases hw with hw | hw <;> simp [hw, WorkerPc.isNotified] at hn <;> omega
    · rcases hw with hw | hw <;> simpa [hw, WorkerPc.isWaiting] using hz
  | take w task rest hw ht =>
    have hn := worker WorkerPc.isNotified w (.holding task)
    have hz := worker WorkerPc.isWaiting w (.holding task)
    right
    apply Board.Move.take <;> simp only [board, ht, List.length_cons]
    · rcases hw with hw | hw <;> simp [hw, WorkerPc.isNotified] at hn <;> omega
    · rcases hw with hw | hw <;> simpa [hw, WorkerPc.isWaiting] using hz
  -- From here to `finish` the worker is neither asleep nor notified, before or after.
  | invoke w task hw =>
    have hn := worker WorkerPc.isNotified w (.running task)
    have hz := worker WorkerPc.isWaiting w (.running task)
    left
    simp [board, hw, WorkerPc.isNotified, WorkerPc.isWaiting] at hn hz ⊢
    exact ⟨hn, hz⟩
  | finish w task hw hc =>
    have hn := worker WorkerPc.isNotified w .lock
    have hz := worker WorkerPc.isWaiting w .lock
    left
    simp [board, hw, WorkerPc.isNotified, WorkerPc.isWaiting] at hn hz ⊢
    exact ⟨hn, hz⟩
  -- A call that has not pushed is not counted.
  | enter t hc =>
    have hp := call t (.lock s.nextId)
    left
    simpa [board, hc, EnqueuePc.isNotify] using hp
  | throw t task hc hs =>
    have hp := call t .idle
    left
    simpa [board, hc, EnqueuePc.isNotify] using hp
  | push t task hc hs =>
    have hp := call t (.notify task)
    right
    apply Board.Move.push <;> simp only [board, List.length_append, List.length_singleton]
    simpa [hc, EnqueuePc.isNotify] using hp
  | wake t task w hc hw =>
    have hp := call t .idle
    have hn := worker WorkerPc.isNotified w .notified
    have hz := worker WorkerPc.isWaiting w .notified
    right
    apply Board.Move.notify <;> simp only [board]
    · simpa [hc, EnqueuePc.isNotify] using hp
    · simpa [hw, WorkerPc.isNotified] using hn
    · simpa [hw, WorkerPc.isWaiting] using hz
  -- The notification may be lost only because nobody is asleep.
  | lost t task hc hw =>
    have hp := call t .idle
    have hz : countOf WorkerPc.isWaiting s.worker = 0 := by
      rw [countOf_eq_zero]
      intro w
      rw [Bool.eq_false_iff, ne_eq, WorkerPc.isWaiting_iff]
      exact hw w
    right
    apply Board.Move.lost <;> simp only [board]
    · simpa [hc, EnqueuePc.isNotify] using hp
    · exact hz
    · exact hz
  | setStop hd => exact .inl rfl
  | notifyAll hd =>
    right
    apply Board.Move.notifyAll <;> simp only [board]
    · exact le_rfl
    · exact countOf_notifyAll s.worker
    · exact countOf_waiting_notifyAll s.worker
  | join i hi hd hw => exact .inl rfl
  | joined i hi hd => exact .inl rfl
  | spurious w hw =>
    have hn := worker WorkerPc.isNotified w .notified
    have hz := worker WorkerPc.isWaiting w .notified
    right
    apply Board.Move.spurious <;> simp only [board]
    · simpa [hw, WorkerPc.isNotified] using hn
    · simpa [hw, WorkerPc.isWaiting] using hz

/-- In every reachable state the queued tasks are covered. -/
theorem covered_of_reachable {s : State n P} (h : Reachable s) : (board s).Covered := by
  refine h.invariant (fun s => (board s).Covered) ?_ fun t u ht heff => ?_
  · intro _
    exact Nat.zero_le _
  · rcases effect_board heff with heq | hmove
    · rw [heq]; exact ht
    · exact hmove.covered ht

/-- `stop` is set before the destructor's `notify_all`, and nobody is asleep after it. -/
structure Stopping (s : State n P) : Prop where
  /-- The destructor sets `stop` first. -/
  stop : s.dtor ≠ .notStarted → s.stop = true
  /-- Nobody is asleep once `notify_all` has run. -/
  awake : s.dtor.hasNotified = true → ∀ w, s.worker w ≠ .waiting

omit [Fintype P] in
/-- Every step keeps `Stopping`. -/
theorem Stopping.step {s s' : State n P} (hs : Stopping s) (h : Effect s s') : Stopping s' := by
  have started : s.dtor.hasNotified = true → s.dtor ≠ .notStarted := by
    intro hn hd
    rw [hd] at hn
    cases hn
  -- A worker that moves to any point but `waiting` leaves the others where they were.
  have move : ∀ (w : Fin n) (pc : WorkerPc), pc ≠ .waiting → s.dtor.hasNotified = true →
      ∀ v, update s.worker w pc v ≠ .waiting := by
    intro w pc hpc hn v
    by_cases hv : v = w
    · subst hv; simpa using hpc
    · simpa [hv] using hs.awake hn v
  cases h with
  | sleep w hw ht hstop =>
    refine ⟨hs.stop, fun hn => ?_⟩
    have := hs.stop (started hn)
    rw [hstop] at this
    cases this
  | leave w _ _ _ => exact ⟨hs.stop, move w _ (by simp)⟩
  | take w _ _ _ _ => exact ⟨hs.stop, move w _ (by simp)⟩
  | invoke w _ _ => exact ⟨hs.stop, move w _ (by simp)⟩
  | finish w _ _ _ => exact ⟨hs.stop, move w _ (by simp)⟩
  | enter _ _ => exact ⟨hs.stop, hs.awake⟩
  | throw _ _ _ _ => exact ⟨hs.stop, hs.awake⟩
  | push _ _ _ _ => exact ⟨hs.stop, hs.awake⟩
  | wake _ _ w _ _ => exact ⟨hs.stop, move w _ (by simp)⟩
  | lost _ _ _ _ => exact ⟨hs.stop, hs.awake⟩
  | setStop _ => exact ⟨fun _ => rfl, by simp [DtorPc.hasNotified]⟩
  | notifyAll hd =>
    refine ⟨fun _ => hs.stop (by simp [hd]), fun _ w => ?_⟩
    by_cases hw : s.worker w = .waiting <;> simp [hw]
  | join i _ hd _ =>
    exact ⟨fun _ => hs.stop (by simp [hd]), fun _ => hs.awake (by simp [hd, DtorPc.hasNotified])⟩
  | joined i _ hd =>
    exact ⟨fun _ => hs.stop (by simp [hd]), fun _ => hs.awake (by simp [hd, DtorPc.hasNotified])⟩
  | spurious w _ => exact ⟨hs.stop, move w _ (by simp)⟩

omit [Fintype P] in
/-- Every reachable state satisfies `Stopping`. -/
theorem stopping_of_reachable {s : State n P} (h : Reachable s) : Stopping s := by
  refine h.invariant Stopping ⟨?_, ?_⟩ fun _ _ ht heff => ht.step heff
  · intro hd; exact absurd rfl hd
  · intro hn; cases hn

/-- While `stop` is not set and some worker is waiting un-notified, the queued tasks are at most
the notified workers that have not yet re-acquired the lock and the `enqueue` calls that have
pushed and not yet notified; and once `notify_all` has run, no worker is waiting. -/
theorem wakeup_accounting {s : State n P} (h : Reachable s) :
    (s.stop = false → (∃ w, s.worker w = .waiting) →
      s.tasks.length ≤ countOf WorkerPc.isNotified s.worker + countOf EnqueuePc.isNotify s.call) ∧
    (s.dtor.hasNotified = true → ∀ w, s.worker w ≠ .waiting) := by
  refine ⟨fun _ hex => ?_, (stopping_of_reachable h).awake⟩
  have hpos : 0 < countOf WorkerPc.isWaiting s.worker := by
    obtain ⟨w, hw⟩ := hex
    exact (countOf_pos _ _).mpr ⟨w, by rw [hw]; rfl⟩
  exact covered_of_reachable h (by simp only [board]; omega)

/-- One worker falls asleep and an outside thread pushes a task that it has not yet notified. -/
def pushedRun (w : Fin n) (t : Thread n P) : List (Action n P) := [.work w, .enqueue t, .push t]

/-- The bound is met with equality while the notification is outstanding. -/
theorem wakeup_accounting_pushed : ∃ s : State 1 (Fin 1),
    s.stop = false ∧ s.worker 0 = .waiting ∧ s.tasks.length = 1 ∧
      s.tasks.length ≤
        countOf WorkerPc.isNotified s.worker + countOf EnqueuePc.isNotify s.call := by
  obtain ⟨s, hs, hp⟩ := exists_reachable (pushedRun (n := 1) (P := Fin 1) 0 (.inr 0))
    (fun s => !s.stop && s.worker 0 == .waiting && s.tasks.length == 1) (by decide)
  simp only [Bool.and_eq_true, Bool.not_eq_true', beq_iff_eq] at hp
  exact ⟨s, hp.1.1, hp.1.2, hp.2, (wakeup_accounting hs).1 hp.1.1 ⟨0, hp.1.2⟩⟩

end CPStudy.ThreadPool
