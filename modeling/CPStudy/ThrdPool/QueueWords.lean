import CPStudy.Lib.Chain
import CPStudy.Lib.Transition
import CPStudy.ThrdPool.TaskQueue

/-!
# The task queue of `thread_pool-master/thrd_pool.c` in words of memory

The memory gives a word for each address at which a pointer can be stored, `NULL` is `0`, and the
first word of a task is its link. `tail` holds an address, which is at times that of `head` and at
times that of a task, and `*queue->tail = link` stores wherever it points.

`Represents` connects the words to the structures of `TaskQueue`, on which `__add_task` and
`__pop_task` are specified: whatever an operation does there, it does to the words
(`Represents.addTask`, `Represents.popTask`). In a run the memory outside the queue is written by
anybody at any time, and a task can be added again once it was popped.
-/

namespace CPStudy.ThrdPool

open Function (update)

/-- The memory by words, with a history of the addresses that the queue's operations store to. -/
structure Words where
  /-- The word at each address. -/
  word : ℕ → ℕ
  /-- The addresses stored to. -/
  stores : List ℕ

/-- A store. -/
def Words.store (m : Words) (a v : ℕ) : Words :=
  { word := update m.word a v, stores := m.stores ++ [a] }

namespace WordQueue

/-- `&queue->head`. -/
def head (queue : ℕ) : ℕ := queue

/-- `&queue->tail`, one pointer behind. -/
def tail (queue : ℕ) : ℕ := queue + 8

/-- What `__taskqueue_create` stores in the fields that the spinlock protects. -/
def create (m : Words) (queue : ℕ) : Words :=
  (m.store (head queue) 0).store (tail queue) (head queue)

/-- `__add_task`, up to its unlock. -/
def addTask (m : Words) (queue task : ℕ) : Words :=
  let m := m.store task 0
  -- `*queue->tail = link`, to `head` or to a task.
  let m := m.store (m.word (tail queue)) task
  m.store (tail queue) task

/-- `__pop_task`, with the address it returns. -/
def popTask (m : Words) (queue : ℕ) : Words × ℕ :=
  if m.word (head queue) = 0 then (m, 0)
  else
    let task := m.word (head queue)
    let m := m.store (head queue) (m.word task)
    if m.word (head queue) = 0 then (m.store (tail queue) (head queue), task) else (m, task)

/-- The memory, and the tasks that were added and not yet popped, the oldest first. -/
structure State where
  /-- The memory. -/
  mem : Words
  /-- The tasks of the list that the queue stands for. -/
  queued : List ℕ

/-- What happens next. -/
inductive Action
  /-- `__add_task` of a task that is not queued. -/
  | add (task : ℕ)
  /-- `__pop_task`. -/
  | pop
  /-- A store outside the queue: by the owner of a task, or by the allocator. -/
  | write (a v : ℕ)

/-- A step of a run with the queue at the address `queue`. -/
def step (queue : ℕ) (s : State) : Action → Option State
  | .add task =>
    if task ≠ 0 ∧ task ≠ head queue ∧ task ≠ tail queue ∧ task ∉ s.queued then
      some { mem := addTask s.mem queue task, queued := s.queued ++ [task] }
    else none
  | .pop => some { mem := (popTask s.mem queue).1, queued := s.queued.tail }
  | .write a v =>
    if a ≠ head queue ∧ a ≠ tail queue ∧ a ∉ s.queued then
      some { s with mem := { s.mem with word := update s.mem.word a v } }
    else none

/-- A state that some run reaches from the queue that `__taskqueue_create` makes, in a memory with
arbitrary contents. -/
def Reachable (queue : ℕ) (s : State) : Prop :=
  ∃ m, Lib.Reaches (step queue) (fun _ _ => True) { mem := create m queue, queued := [] } s

variable {H X : Type*} {queue task a : ℕ} {m : Words} {q q' : TaskQueue ℕ H X} {xs : List ℕ}
  {s s' : State}

/-- The two fields of the queue are apart. -/
theorem head_ne_tail (queue : ℕ) : head queue ≠ tail queue := by
  unfold head tail
  omega

/-- The words that are stored in the memory of a queue. -/
structure Represents (queue : ℕ) (word : ℕ → ℕ) (q : TaskQueue ℕ H X) : Prop where
  /-- `head`. -/
  head : word (head queue) = q.head.getD 0
  /-- The first task is not at `NULL`. -/
  head_ne : q.head ≠ some 0
  /-- `tail`. -/
  tail : word (tail queue) = q.tail.getD (WordQueue.head queue)
  /-- The first word of a task is its link. -/
  link : ∀ a t, q.mem a = some t → word a = t.next.getD 0
  /-- No link leads to a task at `NULL`. -/
  link_ne : ∀ a t, q.mem a = some t → t.next ≠ some 0
  /-- No task lies on the fields of the queue. -/
  apart : ∀ a t, q.mem a = some t → a ≠ 0 ∧ a ≠ WordQueue.head queue ∧ a ≠ WordQueue.tail queue

/-- The queue that `__taskqueue_create` makes. -/
theorem represents_create (m : Words) (queue : ℕ) :
    Represents queue (create m queue).word (TaskQueue.create : TaskQueue ℕ H X) where
  head := by
    show update (update m.word _ _) _ _ _ = _
    rw [Function.update_of_ne (head_ne_tail queue), Function.update_self]
    rfl
  head_ne := by
    intro h
    cases h
  tail := Function.update_self _ _ _
  link := by
    intro a t h
    cases h
  link_ne := by
    intro a t h
    cases h
  apart := by
    intro a t h
    cases h

namespace Represents

/-- A pointer that is null or not at `0` is `NULL` exactly when it is null. -/
theorem getD_eq_zero {p : Option ℕ} (hp : p ≠ some 0) : p.getD 0 = 0 ↔ p = none := by
  cases p with
  | none => simp
  | some a =>
    have ha : a ≠ 0 := by
      rintro rfl
      exact hp rfl
    simp [ha]

/-- Memory that belongs to no task of the queue can be taken for a task, or given back: only what
the word there holds matters, and where it is. -/
theorem update_mem (h : Represents queue m.word q) (t : Option (Task ℕ H X))
    (ht : ∀ t', t = some t' → m.word a = t'.next.getD 0 ∧ t'.next ≠ some 0 ∧
      a ≠ 0 ∧ a ≠ WordQueue.head queue ∧ a ≠ WordQueue.tail queue) :
    Represents queue m.word { q with mem := update q.mem a t } where
  head := h.head
  head_ne := h.head_ne
  tail := h.tail
  link := by
    intro b t' hb
    rcases eq_or_ne b a with rfl | hne
    · exact (ht t' (by simpa using hb)).1
    · exact h.link b t' (by simpa [hne] using hb)
  link_ne := by
    intro b t' hb
    rcases eq_or_ne b a with rfl | hne
    · exact (ht t' (by simpa using hb)).2.1
    · exact h.link_ne b t' (by simpa [hne] using hb)
  apart := by
    intro b t' hb
    rcases eq_or_ne b a with rfl | hne
    · exact (ht t' (by simpa using hb)).2.2
    · exact h.apart b t' (by simpa [hne] using hb)

/-- A store to a word outside the queue. -/
theorem write (h : Represents queue m.word q) (ha : q.mem a = none) (v : ℕ)
    (hhead : a ≠ WordQueue.head queue) (htail : a ≠ WordQueue.tail queue) :
    Represents queue (update m.word a v) q where
  head := by
    rw [Function.update_of_ne hhead.symm]
    exact h.head
  head_ne := h.head_ne
  tail := by
    rw [Function.update_of_ne htail.symm]
    exact h.tail
  link := by
    intro b t hb
    have hne : b ≠ a := by
      rintro rfl
      rw [ha] at hb
      cases hb
    rw [Function.update_of_ne hne]
    exact h.link b t hb
  link_ne := h.link_ne
  apart := h.apart

/-- The link of a task is stored. -/
theorem store_link (h : Represents queue m.word q) {t : Task ℕ H X} (ha : q.mem a = some t)
    {p : Option ℕ} (hp : p ≠ some 0) :
    Represents queue (m.store a (p.getD 0)).word
      { q with mem := update q.mem a (some { t with next := p }) } where
  head := by
    have hne := (h.apart a t ha).2.1
    show update m.word _ _ _ = _
    rw [Function.update_of_ne hne.symm]
    exact h.head
  head_ne := h.head_ne
  tail := by
    have hne := (h.apart a t ha).2.2
    show update m.word _ _ _ = _
    rw [Function.update_of_ne hne.symm]
    exact h.tail
  -- Only the node itself has its link changed.
  link := by
    intro b t' hb
    show update m.word _ _ _ = _
    rcases eq_or_ne b a with rfl | hne
    · obtain rfl : { t with next := p } = t' := by simpa using hb
      exact Function.update_self _ _ _
    · rw [Function.update_of_ne hne]
      exact h.link b t' (by simpa [hne] using hb)
  link_ne := by
    intro b t' hb
    rcases eq_or_ne b a with rfl | hne
    · obtain rfl : { t with next := p } = t' := by simpa using hb
      exact hp
    · exact h.link_ne b t' (by simpa [hne] using hb)
  apart := by
    intro b t' hb
    rcases eq_or_ne b a with rfl | hne
    · exact h.apart b t ha
    · exact h.apart b t' (by simpa [hne] using hb)

/-- `head` is stored. -/
theorem store_head (h : Represents queue m.word q) {p : Option ℕ} (hp : p ≠ some 0) :
    Represents queue (m.store (WordQueue.head queue) (p.getD 0)).word { q with head := p } where
  head := Function.update_self _ _ _
  head_ne := hp
  tail := by
    show update m.word _ _ _ = _
    rw [Function.update_of_ne (head_ne_tail queue).symm]
    exact h.tail
  link := by
    intro b t hb
    show update m.word _ _ _ = _
    rw [Function.update_of_ne (h.apart b t hb).2.1]
    exact h.link b t hb
  link_ne := h.link_ne
  apart := h.apart

/-- `tail` is stored. -/
theorem store_tail (h : Represents queue m.word q) (p : Option ℕ) :
    Represents queue (m.store (WordQueue.tail queue) (p.getD (WordQueue.head queue))).word
      { q with tail := p } where
  head := by
    show update m.word _ _ _ = _
    rw [Function.update_of_ne (head_ne_tail queue)]
    exact h.head
  head_ne := h.head_ne
  tail := Function.update_self _ _ _
  link := by
    intro b t hb
    show update m.word _ _ _ = _
    rw [Function.update_of_ne (h.apart b t hb).2.2]
    exact h.link b t hb
  link_ne := h.link_ne
  apart := h.apart

/-- `*queue->tail = link` stores to `head` or to the link of a task, whichever `tail` points to. -/
theorem storeTail (h : Represents queue m.word q) (htask : task ≠ 0)
    (hq : q.storeTail task = some q') :
    Represents queue (m.store (m.word (WordQueue.tail queue)) task).word q' := by
  have hsome : some task ≠ some 0 := fun heq => htask (Option.some.inj heq)
  unfold TaskQueue.storeTail at hq
  rw [h.tail]
  cases hlast : q.tail with
  | none =>
    rw [hlast] at hq
    have hstored := h.store_head hsome
    rw [hlast] at hstored
    rw [← Option.some.inj hq]
    exact hstored
  | some last =>
    rw [hlast] at hq
    dsimp only at hq
    cases ht : q.mem last with
    | none => rw [ht] at hq; cases hq
    | some t =>
      have hstored := h.store_link ht hsome
      rw [hlast] at hstored
      rw [ht] at hq
      rw [← Option.some.inj hq]
      exact hstored

/-- `__add_task` does to the words what it does to the structures. -/
theorem addTask (h : Represents queue m.word q) (hq : q.addTask task = some q') :
    Represents queue (WordQueue.addTask m queue task).word q' := by
  unfold TaskQueue.addTask at hq
  cases ht : q.mem task with
  | none => rw [ht] at hq; cases hq
  | some t =>
    rw [ht] at hq
    obtain ⟨q₂, hq₂, rfl⟩ := Option.map_eq_some_iff.mp hq
    have htask := (h.apart task t ht).1
    have h₁ : Represents queue (m.store task 0).word _ := h.store_link ht (p := none) (by simp)
    exact (h₁.storeTail htask hq₂).store_tail (some task)

/-- `__pop_task` does to the words what it does to the structures, and returns the same task. -/
theorem popTask (h : Represents queue m.word q) {task? : Option ℕ}
    (hq : q.popTask = some (q', task?)) :
    (WordQueue.popTask m queue).2 = task?.getD 0 ∧
      Represents queue (WordQueue.popTask m queue).1.word q' := by
  have hhead := h.head
  have hhead_ne := h.head_ne
  unfold TaskQueue.popTask at hq
  unfold WordQueue.popTask
  cases hfirst : q.head with
  | none =>
    rw [hfirst] at hq hhead
    cases hq
    have hzero : m.word (WordQueue.head queue) = 0 := hhead
    rw [if_pos hzero]
    exact ⟨rfl, h⟩
  | some first =>
    rw [hfirst] at hq hhead hhead_ne
    dsimp only at hq
    have hzero : ¬m.word (WordQueue.head queue) = 0 := by
      intro heq
      rw [hhead] at heq
      exact hhead_ne (congrArg some heq)
    cases ht : q.mem first with
    | none => rw [ht] at hq; cases hq
    | some t =>
      rw [ht] at hq
      cases hq
      have hlink : m.word (m.word (WordQueue.head queue)) = t.next.getD 0 := by
        rw [hhead]
        exact h.link first t ht
      have h₁ := h.store_head (h.link_ne first t ht)
      rw [if_neg hzero]
      dsimp only
      rw [hlink, h₁.head]
      -- The link of the task that is taken out becomes `head`, and at `NULL` `tail` goes back.
      by_cases hnext : t.next = none
      · rw [if_pos ((getD_eq_zero (h.link_ne first t ht)).mpr hnext), if_pos hnext]
        exact ⟨hhead, h₁.store_tail none⟩
      · rw [if_neg fun heq => hnext ((getD_eq_zero (h.link_ne first t ht)).mp heq),
          if_neg hnext]
        exact ⟨hhead, h₁⟩

/-- The words at the tasks of the queue form a chain from `head`. -/
theorem chain (h : Represents queue m.word q) {p : Option ℕ} (hp : p = xs.head?)
    (hl : TaskQueue.Linked q.mem xs) : Lib.Chain 0 m.word (p.getD 0) xs := by
  induction xs generalizing p with
  | nil =>
    rw [hp]
    rfl
  | cons x xs ih =>
    obtain ⟨⟨t, ht, hnext⟩, hl⟩ := hl
    rw [hp]
    refine ⟨rfl, (h.apart x t ht).1, ?_⟩
    rw [h.link x t ht]
    exact ih hnext hl

end Represents

end WordQueue

end CPStudy.ThrdPool
