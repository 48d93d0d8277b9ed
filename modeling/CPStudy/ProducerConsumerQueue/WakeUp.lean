import CPStudy.Lib.Count
import CPStudy.Lib.WakeUp
import CPStudy.ProducerConsumerQueue.Model

/-!
# Wake-up accounting in the producer-consumer queue

The numbers of `Lib.Board` in a state of the queue: the queued values, the notified waiters that
have not re-acquired the lock, and the waiters asleep. `Push` notifies under the lock, so that no
notification is ever outstanding, and its step is two moves of the board, the push and the
notification. A notified waiter may be overtaken by a `Pop` or by a newly arrived `WaitAndPop`; it
goes back to sleep only where it finds the queue empty, and then nothing is left to cover.
-/

namespace CPStudy.ProducerConsumerQueue

open Function (update)
open Lib (Board countOf countOf_update countOf_pos countOf_eq_zero)

variable {ι T : Type*}

/-- The thread is asleep in `WaitAndPop` and not notified. -/
def ThreadPc.isWaiting : ThreadPc → Bool
  | .waiting => true
  | .idle => false
  | .notified => false

/-- The thread is notified in `WaitAndPop` and has not re-acquired the lock. -/
def ThreadPc.isNotified : ThreadPc → Bool
  | .notified => true
  | .idle => false
  | .waiting => false

/-- A thread is waiting exactly when it is at `waiting`. -/
@[simp]
theorem ThreadPc.isWaiting_iff (pc : ThreadPc) : pc.isWaiting = true ↔ pc = .waiting := by
  cases pc <;> simp [isWaiting]

variable [Fintype ι]

/-- The wake-up numbers of a state. -/
def board (s : State ι T) : Board where
  work := s.queue.length
  -- A notification is made in the critical section of its push.
  pending := 0
  woken := countOf ThreadPc.isNotified s.thread
  asleep := countOf ThreadPc.isWaiting s.thread

/-- With nobody at `waiting`, the board has nobody asleep. -/
theorem asleep_eq_zero {f : ι → ThreadPc} (hw : ∀ w, f w ≠ .waiting) :
    countOf ThreadPc.isWaiting f = 0 := by
  rw [countOf_eq_zero]
  intro w
  rw [Bool.eq_false_iff, ne_eq, ThreadPc.isWaiting_iff]
  exact hw w

/-- With nobody at `waiting`, nothing has to be covered. -/
theorem covered_of_awake {s : State ι T} (hw : ∀ w, s.thread w ≠ .waiting) :
    (board s).Covered := fun hasleep => absurd (asleep_eq_zero hw) hasleep

variable [DecidableEq ι]

/-- A thread that re-acquires the lock, or arrives, leaves the sleepers alone and may have been a
notified one. -/
theorem countOf_enter {f : ι → ThreadPc} {t : ι} (ht : f t = .idle ∨ f t = .notified) :
    countOf ThreadPc.isWaiting (update f t .idle) = countOf ThreadPc.isWaiting f ∧
      countOf ThreadPc.isNotified (update f t .idle) ≤ countOf ThreadPc.isNotified f ∧
      countOf ThreadPc.isNotified f ≤ countOf ThreadPc.isNotified (update f t .idle) + 1 := by
  have hn := countOf_update ThreadPc.isNotified f t .idle
  have hz := countOf_update ThreadPc.isWaiting f t .idle
  rcases ht with ht | ht <;> simp [ht, ThreadPc.isNotified, ThreadPc.isWaiting] at hn hz <;> omega

/-- A thread that falls asleep may have been a notified one. -/
theorem countOf_wait {f : ι → ThreadPc} {t : ι} (ht : f t = .idle ∨ f t = .notified) :
    countOf ThreadPc.isWaiting (update f t .waiting) = countOf ThreadPc.isWaiting f + 1 ∧
      countOf ThreadPc.isNotified (update f t .waiting) ≤ countOf ThreadPc.isNotified f ∧
      countOf ThreadPc.isNotified f ≤
        countOf ThreadPc.isNotified (update f t .waiting) + 1 := by
  have hn := countOf_update ThreadPc.isNotified f t .waiting
  have hz := countOf_update ThreadPc.isWaiting f t .waiting
  rcases ht with ht | ht <;> simp [ht, ThreadPc.isNotified, ThreadPc.isWaiting] at hn hz <;> omega

/-- A waiter that is woken moves from the sleepers to the notified threads. -/
theorem countOf_wake {f : ι → ThreadPc} {w : ι} (hw : f w = .waiting) :
    countOf ThreadPc.isWaiting (update f w .notified) + 1 = countOf ThreadPc.isWaiting f ∧
      countOf ThreadPc.isNotified (update f w .notified) =
        countOf ThreadPc.isNotified f + 1 := by
  have hn := countOf_update ThreadPc.isNotified f w .notified
  have hz := countOf_update ThreadPc.isWaiting f w .notified
  simp [hw, ThreadPc.isNotified, ThreadPc.isWaiting] at hn hz
  omega

/-- Once `_shutdown` is set nobody is asleep. -/
def Awake (s : State ι T) : Prop := s.shutdown = true → ∀ w, s.thread w ≠ .waiting

omit [Fintype ι] in
/-- A thread that moves to any point but `waiting` leaves nobody asleep. -/
theorem update_ne_waiting {f : ι → ThreadPc} {t : ι} {pc : ThreadPc} (hpc : pc ≠ .waiting)
    (hf : ∀ w, f w ≠ .waiting) (w : ι) : update f t pc w ≠ .waiting := by
  by_cases hw : w = t
  · rw [hw, Function.update_self]
    exact hpc
  · rw [Function.update_of_ne hw]
    exact hf w

omit [Fintype ι] in
/-- Every step keeps `Awake`. -/
theorem Awake.step {s s' : State ι T} (hs : Awake s) (h : Effect s s') : Awake s' := by
  cases h with
  | pushWake value w hw => exact fun hsd => update_ne_waiting (by simp) (hs hsd)
  | pushLost value hw => exact hs
  | pop t item rest ht hq hsd => exact hs
  | popNone hq => exact hs
  | wait t ht hq hsd =>
    -- It waits only where `_shutdown` is not set.
    intro hsd'
    have hshut : s.shutdown = true := hsd'
    rw [hsd] at hshut
    cases hshut
  | take t item rest ht hq hsd => exact fun hsd => update_ne_waiting (by simp) (hs hsd)
  | leave t ht hsd => exact fun hsd => update_ne_waiting (by simp) (hs hsd)
  | cancel =>
    intro _ w
    by_cases hw : s.thread w = .waiting <;> simp [hw]
  | spurious t ht => exact fun hsd => update_ne_waiting (by simp) (hs hsd)

omit [Fintype ι] in
/-- `_shutdown` is never cleared. -/
theorem Effect.shutdown {s s' : State ι T} (h : Effect s s') (hsd : s.shutdown = true) :
    s'.shutdown = true := by
  cases h with
  | cancel => rfl
  | _ => exact hsd

/-- `Push` that wakes a waiter is two moves of the board: the push, and the notification it is
due. -/
theorem covered_push {s : State ι T} {value : T} {w : ι} (hs : (board s).Covered)
    (hw : s.thread w = .waiting) :
    (board { s with
      queue := s.queue ++ [(value, s.pushed.length)]
      pushed := s.pushed ++ [value]
      thread := update s.thread w .notified }).Covered := by
  obtain ⟨hz, hn⟩ := countOf_wake hw
  have hpush : Board.Move (board s)
      { board s with work := (board s).work + 1, pending := 1 } := .push rfl rfl rfl rfl
  refine (Board.Move.notify ?_ rfl hn hz).covered (hpush.covered hs)
  show (s.queue ++ [(value, s.pushed.length)]).length = s.queue.length + 1
  rw [List.length_append, List.length_singleton]

/-- Every step keeps the queued values covered. -/
theorem covered_of_effect {s s' : State ι T} (hawake : Awake s) (hs : (board s).Covered)
    (h : Effect s s') : (board s').Covered := by
  cases h with
  | pushWake value w hw => exact covered_push hs hw
  -- The notification is lost, with nobody asleep to miss it.
  | pushLost value hw => exact covered_of_awake hw
  | pop t item rest ht hq hsd =>
    apply Board.Move.covered (b := board s) _ hs
    apply Board.Move.take <;> simp only [board, hq, List.length_cons]
    omega
  | popNone hq => exact hs
  | wait t ht hq hsd =>
    obtain ⟨hz, hn⟩ := countOf_wait ht
    apply Board.Move.covered (b := board s) _ hs
    -- It has found the queue empty, and with no work there is nothing to cover.
    apply Board.Move.sleep <;> simp only [board, hq, List.length_nil]
    · exact hn
    · exact hz
  | take t item rest ht hq hsd =>
    obtain ⟨hz, hn⟩ := countOf_enter ht
    apply Board.Move.covered (b := board s) _ hs
    apply Board.Move.take <;> simp only [board, hq, List.length_cons]
    · exact hn
    · exact hz
  | leave t ht hsd => exact covered_of_awake (update_ne_waiting (by simp) (hawake hsd))
  | cancel =>
    apply covered_of_awake
    intro w
    by_cases hw : s.thread w = .waiting <;> simp [hw]
  | spurious t ht =>
    obtain ⟨hz, hn⟩ := countOf_wake ht
    apply Board.Move.covered (b := board s) _ hs
    exact .spurious rfl rfl hn hz

/-- In every reachable state nobody sleeps once `_shutdown` is set. -/
theorem awake_of_reachable {s : State ι T} (h : Reachable s) : Awake s := by
  refine h.invariant Awake ?_ fun _ _ ht heff => ht.step heff
  intro hsd
  cases hsd

/-- A call of `Cancel` sets `_shutdown`. -/
theorem shutdown_of_cancel {s s' : State ι T} {t : ι} (h : step s (.cancel t) = some s') :
    s'.shutdown = true := by
  obtain ⟨-, h⟩ := Option.ite_none_right_eq_some.mp h
  rw [← Option.some.inj h]
  rfl

/-- In every reachable state the queued values are covered. -/
theorem covered_of_reachable {s : State ι T} (h : Reachable s) : (board s).Covered := by
  have hrun : Awake s ∧ (board s).Covered := by
    refine h.invariant (fun s => Awake s ∧ (board s).Covered) ⟨awake_of_reachable .refl, ?_⟩
      fun t u ht heff => ⟨ht.1.step heff, covered_of_effect ht.1 ht.2 heff⟩
    intro _
    exact Nat.zero_le _
  exact hrun.2

/-- While `_shutdown` is not set and some thread is waiting un-notified in `WaitAndPop`, the queued
values are at most the notified waiters that have not yet re-acquired the lock; and any thread
outside a call can call `Cancel`, after which no thread is waiting un-notified, when it has released
the lock and ever after. -/
theorem no_sleep_on_work {s : State ι T} (h : Reachable s) :
    (s.shutdown = false → (∃ w, s.thread w = .waiting) →
      s.queue.length ≤ countOf ThreadPc.isNotified s.thread) ∧
    ∀ t, s.thread t = .idle → ∃ s', step s (.cancel t) = some s' ∧
      ∀ u, Lib.Reaches step (fun _ _ => True) s' u →
        u.shutdown = true ∧ ∀ w, u.thread w ≠ .waiting := by
  refine ⟨fun _ hex => ?_, fun t ht => ⟨cancel s, if_pos ht, fun u hu => ?_⟩⟩
  · have hpos : 0 < countOf ThreadPc.isWaiting s.thread := by
      obtain ⟨w, hw⟩ := hex
      exact (countOf_pos _ _).mpr ⟨w, by rw [hw]; rfl⟩
    have hcovered := covered_of_reachable h
    unfold Board.Covered at hcovered
    simp only [board] at hcovered
    omega
  · have hstep : step s (.cancel t) = some (cancel s) := if_pos ht
    have hreach : Reachable u := (Lib.Reaches.tail h trivial hstep).trans hu
    have hshutdown : u.shutdown = true :=
      hu.invariant (I := fun u => u.shutdown = true) (shutdown_of_cancel hstep)
        fun _ _ _ hsd _ hstep => (effect_of_step hstep).shutdown hsd
    exact ⟨hshutdown, awake_of_reachable hreach hshutdown⟩

/-- Two consumers wait, and a `Push` wakes one of them. -/
def notifiedRun (t u v : ι) (value : T) : List (Action ι T) :=
  [.waitAndPop t, .waitAndPop u, .push v value (some t)]

/-- The bound is met with equality before the notified waiter runs, and a `Cancel` of the third
thread wakes the other. -/
theorem no_sleep_on_work_notified : ∃ s s' : State (Fin 3) ℕ,
    s.shutdown = false ∧ s.thread 1 = .waiting ∧ s.queue.length = 1 ∧
      s.queue.length ≤ countOf ThreadPc.isNotified s.thread ∧
      step s (.cancel 2) = some s' ∧ s'.shutdown = true ∧ ∀ w, s'.thread w ≠ .waiting := by
  obtain ⟨s, hs, hp⟩ := exists_reachable (fun _ _ => true)
    (notifiedRun (ι := Fin 3) (T := ℕ) 0 1 2 7)
    (fun s => decide (s.shutdown = false ∧ s.thread 1 = .waiting ∧ s.queue.length = 1 ∧
      s.thread 2 = .idle))
    (by decide)
  obtain ⟨hsd, hw, hq, hidle⟩ := of_decide_eq_true hp
  obtain ⟨hwork, hcancel⟩ := no_sleep_on_work hs.reachable
  obtain ⟨s', hstep, hafter⟩ := hcancel 2 hidle
  exact ⟨s, s', hsd, hw, hq, hwork hsd ⟨1, hw⟩, hstep, hafter s' .refl⟩

end CPStudy.ProducerConsumerQueue
