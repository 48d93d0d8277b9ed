import Mathlib.Data.List.Nodup
import Mathlib.Logic.Function.Basic
import Mathlib.Tactic.Common

/-!
# The task queue of `thread_pool-master/thrd_pool.c`

`task_queue_t` at the level of its pointers: `head` is the first task or null, and `tail` is the
address of the link that the next task is stored in, which is `&queue->head` or the first word of
the last task. `__add_task` and `__pop_task` are the sections under the spinlock, as functions on
the queue and the memory that the tasks live in. `TaskQueue.Holds q xs` says that following the
links from `head` visits the tasks `xs` and ends in null, and each operation has one specification
in terms of it.
-/

namespace CPStudy.ThrdPool

open Function (update)

/-- `task_t`, at addresses `A`, for handlers `H` with arguments `X`. -/
structure Task (A H X : Type*) where
  /-- `next`, with `none` for `NULL`. -/
  next : Option A
  /-- `func`. -/
  func : H
  /-- `arg`. -/
  arg : X

/-- The part of `task_queue_t` that the spinlock protects, and the memory of the tasks. -/
structure TaskQueue (A H X : Type*) where
  /-- The tasks that are allocated. -/
  mem : A → Option (Task A H X)
  /-- `head`, with `none` for `NULL`. -/
  head : Option A
  /-- `tail`, with `none` for `&queue->head` and otherwise the task whose link it is. -/
  tail : Option A

variable {A H X : Type*}

/-- What a task is to run. -/
def Task.job (t : Task A H X) : H × X := (t.func, t.arg)

namespace TaskQueue

/-- The queue that `__taskqueue_create` makes. -/
def create : TaskQueue A H X where
  mem := fun _ => none
  head := none
  tail := none

/-- The first task, its link, and so on to the null pointer: the tasks `xs`. -/
def Linked (mem : A → Option (Task A H X)) : List A → Prop
  | [] => True
  | task :: xs => (∃ t, mem task = some t ∧ t.next = xs.head?) ∧ Linked mem xs

/-- The queue consists of the tasks `xs`, the oldest first. -/
structure Holds (q : TaskQueue A H X) (xs : List A) : Prop where
  /-- No task is in the queue twice. -/
  nodup : xs.Nodup
  /-- `head` points to the oldest task. -/
  head : q.head = xs.head?
  /-- `tail` is the link of the newest task, or the address of `head`. -/
  tail : q.tail = xs.getLast?
  /-- The links lead through the tasks in order. -/
  linked : Linked q.mem xs

variable {q q' : TaskQueue A H X} {mem mem' : A → Option (Task A H X)} {xs : List A} {task : A}

/-- The links of tasks outside the list do not matter. -/
theorem Linked.congr (h : Linked mem xs) (hm : ∀ a ∈ xs, mem' a = mem a) : Linked mem' xs := by
  induction xs with
  | nil => trivial
  | cons x xs ih =>
    obtain ⟨⟨t, ht, hn⟩, h⟩ := h
    exact ⟨⟨t, (hm x (by simp)).trans ht, hn⟩, ih h fun a ha => hm a (by simp [ha])⟩

/-- The tasks of the queue are allocated. -/
theorem Linked.live (h : Linked mem xs) : ∀ a ∈ xs, mem a ≠ none := by
  induction xs with
  | nil => simp
  | cons x xs ih =>
    obtain ⟨⟨t, ht, -⟩, h⟩ := h
    intro a ha
    rcases List.mem_cons.mp ha with rfl | ha
    · simp [ht]
    · exact ih h a ha

/-- The queue that `__taskqueue_create` makes is empty. -/
theorem holds_create : (create : TaskQueue A H X).Holds [] where
  nodup := List.nodup_nil
  head := rfl
  tail := rfl
  linked := trivial

/-- The queue has no task exactly when `head` is null. -/
theorem Holds.head_eq_none (h : q.Holds xs) : q.head = none ↔ xs = [] := by
  rw [h.head, List.head?_eq_none_iff]

/-- `__pop_task`: the oldest task, or `NULL` where there is none. An access to a task that is not
allocated has no defined result. -/
def popTask (q : TaskQueue A H X) : Option (TaskQueue A H X × Option A) :=
  match q.head with
  | none => some (q, none)
  | some task =>
    match q.mem task with
    | none => none
    | some t =>
      some ({ q with head := t.next, tail := if t.next = none then none else q.tail }, some task)

/-- A `__pop_task` that returns `NULL` has found the queue empty. -/
theorem head_of_popTask_none (h : q.popTask = some (q', none)) : q.head = none := by
  unfold popTask at h
  split at h
  · assumption
  · split at h <;> simp at h

/-- A `__pop_task` that returns a task has found the queue non-empty. -/
theorem head_of_popTask_some (h : q.popTask = some (q', some task)) : q.head ≠ none := by
  intro hnone
  unfold popTask at h
  rw [hnone] at h
  simp at h

/-- `__pop_task` on an empty queue. -/
theorem Holds.popTask_nil (h : q.Holds []) : q.popTask = some (q, none) := by
  have hh : q.head = none := h.head
  unfold popTask
  rw [hh]

/-- `__pop_task` takes out the oldest task. -/
theorem Holds.popTask_cons (h : q.Holds (task :: xs)) :
    ∃ q', q.popTask = some (q', some task) ∧ q'.Holds xs ∧ q'.mem = q.mem := by
  have hh : q.head = some task := h.head
  obtain ⟨⟨t, ht, hn⟩, hl⟩ := h.linked
  refine ⟨{ q with head := t.next, tail := if t.next = none then none else q.tail },
    by simp only [popTask, hh, ht], ?_, rfl⟩
  refine { nodup := (List.nodup_cons.mp h.nodup).2, head := hn, tail := ?_, linked := hl }
  -- `tail` goes back to the address of `head` exactly when the last task is taken out.
  show (if t.next = none then none else q.tail) = xs.getLast?
  rw [hn, h.tail]
  cases xs with
  | nil => rfl
  | cons y ys => simp [List.getLast?_cons_cons]

/-- What `__pop_task` can return. -/
theorem Holds.popTask_cases (h : q.Holds xs) {task? : Option A}
    (hp : q.popTask = some (q', task?)) :
    (task? = none ∧ xs = []) ∨ ∃ task xs', task? = some task ∧ xs = task :: xs' ∧
      q'.Holds xs' ∧ q'.mem = q.mem := by
  cases xs with
  | nil =>
    rw [h.popTask_nil] at hp
    cases hp
    exact .inl ⟨rfl, rfl⟩
  | cons task xs' =>
    obtain ⟨q'', hp', hq, hm⟩ := h.popTask_cons
    rw [hp'] at hp
    cases hp
    exact .inr ⟨task, xs', rfl, rfl, hq, hm⟩

variable [DecidableEq A]

/-- `*queue->tail = link`. -/
def storeTail (q : TaskQueue A H X) (link : A) : Option (TaskQueue A H X) :=
  match q.tail with
  | none => some { q with head := some link }
  | some last =>
    match q.mem last with
    | none => none
    | some t => some { q with mem := update q.mem last (some { t with next := some link }) }

/-- `__add_task`, up to its unlock: the link of the task is reset and the task becomes the newest
one. An access to a task that is not allocated has no defined result. -/
def addTask (q : TaskQueue A H X) (task : A) : Option (TaskQueue A H X) :=
  match q.mem task with
  | none => none
  | some t =>
    (storeTail { q with mem := update q.mem task (some { t with next := none }) } task).map
      fun q => { q with tail := some task }

/-- Memory outside the queue can be allocated, written and freed. -/
theorem Holds.update (h : q.Holds xs) (hx : task ∉ xs) (t : Option (Task A H X)) :
    { q with mem := Function.update q.mem task t }.Holds xs where
  nodup := h.nodup
  head := h.head
  tail := h.tail
  linked := h.linked.congr fun a ha => by
    have hne : a ≠ task := by
      rintro rfl
      exact hx ha
    exact Function.update_of_ne hne _ _

omit [DecidableEq A] in
/-- Where the last link leads to a task without a link, that task is appended. -/
theorem Linked.concat (h : Linked mem xs) (hnd : xs.Nodup) {last : A}
    (hlast : xs.getLast? = some last) (hm : ∀ a ∈ xs, a ≠ last → mem' a = mem a)
    (hl : ∃ t, mem' last = some t ∧ t.next = some task)
    (ht : ∃ t, mem' task = some t ∧ t.next = none) : Linked mem' (xs ++ [task]) := by
  induction xs with
  | nil => simp at hlast
  | cons x xs ih =>
    obtain ⟨⟨t, hx, hn⟩, h⟩ := h
    rw [List.nodup_cons] at hnd
    cases xs with
    | nil =>
      obtain rfl : x = last := by simpa using hlast
      exact ⟨hl, ht, trivial⟩
    | cons y ys =>
      rw [List.getLast?_cons_cons] at hlast
      have hne : x ≠ last := by
        rintro rfl
        exact hnd.1 (List.mem_of_getLast? hlast)
      refine ⟨⟨t, (hm x (by simp) hne).trans hx, hn⟩, ?_⟩
      exact ih h hnd.2 hlast fun a ha => hm a (List.mem_cons_of_mem _ ha)

/-- `__add_task` appends the task and changes no task but for its link. -/
theorem Holds.addTask (h : q.Holds xs) (hx : task ∉ xs) (hm : q.mem task ≠ none) :
    ∃ q', q.addTask task = some q' ∧ q'.Holds (xs ++ [task]) ∧
      ∀ a, (q'.mem a).map Task.job = (q.mem a).map Task.job := by
  obtain ⟨t, ht⟩ := Option.ne_none_iff_exists'.mp hm
  have hjob : ∀ a, (Function.update q.mem task (some { t with next := none }) a).map Task.job =
      (q.mem a).map Task.job := by
    intro a
    by_cases ha : a = task
    · simp [ha, ht, Task.job]
    · simp [ha]
  have hnd : (xs ++ [task]).Nodup := by
    rw [List.nodup_append]
    exact ⟨h.nodup, List.nodup_singleton task, by grind⟩
  unfold TaskQueue.addTask storeTail
  rw [ht]
  have htail := h.tail
  cases hlast : xs.getLast? with
  | none =>
    -- `tail` is the address of `head`: the task becomes the first one.
    obtain rfl : xs = [] := List.getLast?_eq_none_iff.mp hlast
    rw [hlast] at htail
    simp only [htail, Option.map_some]
    refine ⟨_, rfl, ?_, hjob⟩
    exact { nodup := hnd, head := rfl, tail := rfl,
            linked := ⟨⟨{ t with next := none }, by simp, rfl⟩, trivial⟩ }
  | some last =>
    -- `tail` is the link of the last task.
    rw [hlast] at htail
    have hmem : last ∈ xs := List.mem_of_getLast? hlast
    have hne : last ≠ task := by
      rintro rfl
      exact hx hmem
    obtain ⟨tl, htl⟩ := Option.ne_none_iff_exists'.mp (h.linked.live last hmem)
    simp only [htail, Function.update_of_ne hne, htl, Option.map_some]
    refine ⟨_, rfl, ?_, ?_⟩
    · refine { nodup := hnd, head := ?_, tail := by simp, linked := ?_ }
      · rw [h.head, List.head?_append_of_ne_nil _ (List.ne_nil_of_mem hmem)]
      · refine h.linked.concat h.nodup hlast ?_ ⟨{ tl with next := some task }, by simp, rfl⟩
          ⟨{ t with next := none }, by simp [hne.symm], rfl⟩
        intro a ha hal
        have hat : a ≠ task := by
          rintro rfl
          exact hx ha
        simp [hal, hat]
    · intro a
      by_cases ha : a = last
      · subst ha
        simp [htl, Task.job]
      · simp only [Function.update_of_ne ha]
        exact hjob a

end TaskQueue

end CPStudy.ThrdPool
