import CPStudy.ThreadPool.Model

/-!
# What one step of the C++ thread pool can do

`Effect s s'` lists the changes that a step can make to the state, with what the code has tested
before each. `effect_of_step` is the one place where the step function is unfolded; every
invariant is proved by cases on the effect.
-/

namespace CPStudy.ThreadPool

open Function (update)

variable {n : ℕ} {P : Type*} [DecidableEq P]

/-- The changes a step can make. -/
inductive Effect (s : State n P) : State n P → Prop
  /-- A worker finds the predicate of the wait false and falls asleep. -/
  | sleep (w : Fin n) (hw : s.worker w = .lock ∨ s.worker w = .notified) (ht : s.tasks = [])
      (hs : s.stop = false) : Effect s { s with worker := update s.worker w .waiting }
  /-- A worker finds the queue empty and `stop` set, and returns. -/
  | leave (w : Fin n) (hw : s.worker w = .lock ∨ s.worker w = .notified) (ht : s.tasks = [])
      (hs : s.stop = true) : Effect s { s with worker := update s.worker w .returned }
  /-- A worker takes the front of the queue. -/
  | take (w : Fin n) (task : TaskId) (rest : List TaskId)
      (hw : s.worker w = .lock ∨ s.worker w = .notified) (ht : s.tasks = task :: rest) :
      Effect s { s with tasks := rest, worker := update s.worker w (.holding task) }
  /-- A worker calls the task it holds. -/
  | invoke (w : Fin n) (task : TaskId) (hw : s.worker w = .holding task) :
      Effect s { s with
        worker := update s.worker w (.running task)
        invoked := s.invoked ++ [task] }
  /-- The call of the task ends. -/
  | finish (w : Fin n) (task : TaskId) (hw : s.worker w = .running task)
      (hc : s.call (.inl w) = .idle) : Effect s { s with worker := update s.worker w .lock }
  /-- A thread enters `enqueue`. -/
  | enter (t : Thread n P) (hc : s.call t = .idle) :
      Effect s { s with call := update s.call t (.lock s.nextId), nextId := s.nextId + 1 }
  /-- `enqueue` finds `stop` set and throws. -/
  | throw (t : Thread n P) (task : TaskId) (hc : s.call t = .lock task) (hs : s.stop = true) :
      Effect s { s with call := update s.call t .idle, thrown := s.thrown ++ [task] }
  /-- `enqueue` pushes its task. -/
  | push (t : Thread n P) (task : TaskId) (hc : s.call t = .lock task) (hs : s.stop = false) :
      Effect s { s with
        tasks := s.tasks ++ [task]
        pushed := s.pushed ++ [task]
        call := update s.call t (.notify task) }
  /-- `notify_one` wakes a waiting worker, and `enqueue` returns. -/
  | wake (t : Thread n P) (task : TaskId) (w : Fin n) (hc : s.call t = .notify task)
      (hw : s.worker w = .waiting) :
      Effect s { s with
        call := update s.call t .idle
        futures := s.futures ++ [task]
        worker := update s.worker w .notified }
  /-- `notify_one` finds nobody waiting, and `enqueue` returns. -/
  | lost (t : Thread n P) (task : TaskId) (hc : s.call t = .notify task)
      (hw : ∀ w, s.worker w ≠ .waiting) :
      Effect s { s with call := update s.call t .idle, futures := s.futures ++ [task] }
  /-- The destructor sets `stop`. -/
  | setStop (hd : s.dtor = .notStarted) : Effect s { s with stop := true, dtor := .notifyAll }
  /-- The destructor wakes every waiting worker. -/
  | notifyAll (hd : s.dtor = .notifyAll) :
      Effect s { s with
        worker := fun w => if s.worker w = .waiting then .notified else s.worker w
        dtor := .join 0 }
  /-- The destructor joins a worker that has returned. -/
  | join (i : ℕ) (hi : i < n) (hd : s.dtor = .join i) (hw : s.worker ⟨i, hi⟩ = .returned) :
      Effect s { s with dtor := .join (i + 1) }
  /-- The destructor has joined every worker. -/
  | joined (i : ℕ) (hi : ¬i < n) (hd : s.dtor = .join i) : Effect s { s with dtor := .returned }
  /-- A waiting worker wakes up spuriously. -/
  | spurious (w : Fin n) (hw : s.worker w = .waiting) :
      Effect s { s with worker := update s.worker w .notified }

/-- The section under the lock takes a task, falls asleep or returns. -/
theorem effect_criticalSection {s : State n P} {w : Fin n}
    (hw : s.worker w = .lock ∨ s.worker w = .notified) : Effect s (criticalSection s w) := by
  unfold criticalSection
  split
  case h_1 ht =>
    split
    case isTrue hs => exact .leave w hw ht hs
    case isFalse hs => exact .sleep w hw ht (by simpa using hs)
  case h_2 task rest ht => exact .take w task rest hw ht

/-- A step of a worker has one of the effects. -/
theorem effect_stepWorker {s s' : State n P} {w : Fin n} (h : stepWorker s w = some s') :
    Effect s s' := by
  unfold stepWorker at h
  split at h
  case h_1 hw => exact Option.some.inj h ▸ effect_criticalSection (.inl hw)
  case h_3 hw => exact Option.some.inj h ▸ effect_criticalSection (.inr hw)
  case h_4 task hw => exact Option.some.inj h ▸ .invoke w task hw
  case h_5 task hw =>
    split at h
    case isTrue hc => exact Option.some.inj h ▸ .finish w task hw hc
    case isFalse => cases h
  all_goals cases h

/-- A step of `enqueue` has one of the effects. -/
theorem effect_notifyOne {s s' : State n P} {t : Thread n P} {w : Option (Fin n)}
    (h : notifyOne s t w = some s') : Effect s s' := by
  unfold notifyOne at h
  split at h
  case h_1 task hc =>
    cases w with
    | some w =>
      dsimp only at h
      split at h
      case isTrue hw => exact Option.some.inj h ▸ .wake t task w hc hw
      case isFalse => cases h
    | none =>
      dsimp only at h
      split at h
      case isTrue hw => exact Option.some.inj h ▸ .lost t task hc hw
      case isFalse => cases h
  case h_2 => cases h

/-- A step of the destructor has one of the effects. -/
theorem effect_stepDtor {s s' : State n P} (h : stepDtor s = some s') : Effect s s' := by
  unfold stepDtor at h
  split at h
  case h_1 hd => exact Option.some.inj h ▸ .setStop hd
  case h_2 hd => exact Option.some.inj h ▸ .notifyAll hd
  case h_3 i hd =>
    split at h
    case isTrue hi =>
      split at h
      case isTrue hw => exact Option.some.inj h ▸ .join i hi hd hw
      case isFalse => cases h
    case isFalse hi => exact Option.some.inj h ▸ .joined i hi hd
  case h_4 => cases h

/-- Every step has one of the effects. -/
theorem effect_of_step {s s' : State n P} {a : Action n P} (h : step s a = some s') :
    Effect s s' := by
  cases a with
  | work w => exact effect_stepWorker h
  | spurious w =>
    simp only [step] at h
    split at h
    case isTrue hw => exact Option.some.inj h ▸ .spurious w hw
    case isFalse => cases h
  | enqueue t =>
    simp only [step, beginEnqueue] at h
    split at h
    case isTrue hc => exact Option.some.inj h ▸ .enter t hc.1
    case isFalse => cases h
  | push t =>
    simp only [step, pushTask] at h
    split at h
    case h_1 task hc =>
      split at h
      case isTrue hs => exact Option.some.inj h ▸ .throw t task hc hs
      case isFalse hs => exact Option.some.inj h ▸ .push t task hc (by simpa using hs)
    case h_2 => cases h
  | notify t w => exact effect_notifyOne h
  | dtor => exact effect_stepDtor h

/-- What every effect preserves from the initial state holds in every reachable state. -/
theorem Reachable.invariant (I : State n P → Prop) {s : State n P} (hs : Reachable s)
    (h0 : I (State.init n P)) (hI : ∀ t u, I t → Effect t u → I u) : I s :=
  Lib.Reaches.invariant h0 (fun _ _ _ ht _ hstep => hI _ _ ht (effect_of_step hstep)) hs

end CPStudy.ThreadPool
