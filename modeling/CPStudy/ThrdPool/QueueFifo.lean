import CPStudy.ThrdPool.QueueWords

/-!
# Runs of the task queue in words of memory

In every state of a run the words represent a task queue that holds the tasks of the list. So the
chain from `head` is the list, `tail` is the address of `head` or the newest task, and the next
`__pop_task` returns the oldest one, whatever was stored outside the queue in the meantime and
however often a task was in the queue before.
-/

namespace CPStudy.ThrdPool.WordQueue

open Function (update)

variable {queue : ℕ} {s s' : State} {a : Action}

/-- The pointer that a word is. -/
def ofWord (w : ℕ) : Option ℕ := if w = 0 then none else some w

/-- The word of the pointer that a word is. -/
theorem getD_ofWord (w : ℕ) : w = (ofWord w).getD 0 := by
  unfold ofWord
  split
  case isTrue h => exact h
  case isFalse => rfl

/-- A pointer that is not null is not `0`. -/
theorem ofWord_ne (w : ℕ) : ofWord w ≠ some 0 := by
  unfold ofWord
  split
  case isTrue => simp
  case isFalse h => simpa using h

/-- The words represent a queue that holds the tasks of the list. -/
def Inv (queue : ℕ) (s : State) : Prop :=
  ∃ q : TaskQueue ℕ Unit Unit, Represents queue s.mem.word q ∧ q.Holds s.queued

/-- Every step keeps the invariant. -/
theorem Inv.step (h : Inv queue s) (hstep : step queue s a = some s') : Inv queue s' := by
  obtain ⟨q, hr, hq⟩ := h
  cases a with
  | add task =>
    obtain ⟨⟨hzero, hhead, htail, hnew⟩, hstep⟩ := Option.ite_none_right_eq_some.mp hstep
    -- The memory at the task, with whatever was left there, is taken for a task first.
    let t : Task ℕ Unit Unit := { next := ofWord (s.mem.word task), func := (), arg := () }
    have hr₁ := hr.update_mem (a := task) (some t) (by
      intro t' ht'
      obtain rfl : t = t' := Option.some.inj ht'
      exact ⟨getD_ofWord _, ofWord_ne _, hzero, hhead, htail⟩)
    obtain ⟨q', hadd, hq', -⟩ := (hq.update hnew (some t)).addTask hnew (by simp)
    rw [← Option.some.inj hstep]
    exact ⟨q', hr₁.addTask hadd, hq'⟩
  | pop =>
    rw [← Option.some.inj hstep]
    cases hxs : s.queued with
    | nil =>
      rw [hxs] at hq
      exact ⟨q, (hr.popTask hq.popTask_nil).2, hq⟩
    | cons task xs =>
      rw [hxs] at hq
      obtain ⟨q', hpop, hq', -⟩ := hq.popTask_cons
      exact ⟨q', (hr.popTask hpop).2, hq'⟩
  | write w v =>
    obtain ⟨⟨hhead, htail, hnew⟩, hstep⟩ := Option.ite_none_right_eq_some.mp hstep
    have hr₁ := hr.update_mem (a := w) none (by intro t' ht'; cases ht')
    rw [← Option.some.inj hstep]
    exact ⟨_, hr₁.write (Function.update_self ..) v hhead htail, hq.update hnew none⟩

/-- The invariant holds in every state of a run. -/
theorem Inv.reachable (h : Reachable queue s) : Inv queue s := by
  obtain ⟨m, hrun⟩ := h
  refine Lib.Reaches.invariant ?_ (fun t a u ht _ hstep => Inv.step ht hstep) hrun
  exact ⟨TaskQueue.create, represents_create m queue, TaskQueue.holds_create⟩

/-- The chain from `head` is the list. -/
theorem Inv.chain (h : Inv queue s) :
    Lib.Chain 0 s.mem.word (s.mem.word (head queue)) s.queued := by
  obtain ⟨q, hr, hq⟩ := h
  rw [hr.head]
  exact hr.chain hq.head hq.linked

/-- `tail` is the address of `head` when the list is empty. -/
theorem Inv.tail_nil (h : Inv queue s) (hxs : s.queued = []) :
    s.mem.word (tail queue) = head queue := by
  obtain ⟨q, hr, hq⟩ := h
  rw [hr.tail, hq.tail, hxs]
  rfl

/-- Otherwise it is the newest task, which does not lie on `head`. -/
theorem Inv.tail_getLast (h : Inv queue s) {task : ℕ} (hlast : s.queued.getLast? = some task) :
    s.mem.word (tail queue) = task ∧ task ≠ head queue := by
  obtain ⟨q, hr, hq⟩ := h
  obtain ⟨t, ht⟩ := Option.ne_none_iff_exists'.mp
    (hq.linked.live task (List.mem_of_getLast? hlast))
  rw [hr.tail, hq.tail, hlast]
  exact ⟨rfl, (hr.apart task t ht).2.1⟩

/-- `tail` is the address of `head` or a task of the list. -/
theorem Inv.tail_cases (h : Inv queue s) :
    s.mem.word (tail queue) = head queue ∨ s.mem.word (tail queue) ∈ s.queued := by
  cases hlast : s.queued.getLast? with
  | none => exact .inl (h.tail_nil (List.getLast?_eq_none_iff.mp hlast))
  | some task =>
    rw [(h.tail_getLast hlast).1]
    exact .inr (List.mem_of_getLast? hlast)

/-- `tail` is the address of `head` exactly when the list is empty. -/
theorem Inv.tail_eq_head (h : Inv queue s) :
    s.mem.word (tail queue) = head queue ↔ s.queued = [] := by
  refine ⟨fun htail => ?_, h.tail_nil⟩
  cases hlast : s.queued.getLast? with
  | none => exact List.getLast?_eq_none_iff.mp hlast
  | some task =>
    obtain ⟨heq, hne⟩ := h.tail_getLast hlast
    exact absurd (heq.symm.trans htail) hne

/-- What `tail` points to is `NULL`. -/
theorem Inv.tail_null (h : Inv queue s) : s.mem.word (s.mem.word (tail queue)) = 0 := by
  cases hlast : s.queued.getLast? with
  | none =>
    have hxs := List.getLast?_eq_none_iff.mp hlast
    rw [h.tail_nil hxs]
    exact h.chain.eq_null_iff.mpr hxs
  | some task =>
    rw [(h.tail_getLast hlast).1]
    exact h.chain.last hlast

/-- `__pop_task` returns what `head` holds. -/
theorem popTask_result (m : Words) (queue : ℕ) : (popTask m queue).2 = m.word (head queue) := by
  unfold popTask
  split
  case isTrue h => exact h.symm
  case isFalse =>
    dsimp only
    split <;> rfl

/-- The words that `__pop_task` stores to. -/
theorem stores_popTask (m : Words) (queue : ℕ) :
    ∃ ws, (popTask m queue).1.stores = m.stores ++ ws ∧
      ∀ w ∈ ws, w = head queue ∨ w = tail queue := by
  unfold popTask
  split
  case isTrue => exact ⟨[], (List.append_nil _).symm, by simp⟩
  case isFalse =>
    dsimp only
    split
    case isTrue => exact ⟨[head queue, tail queue], List.append_assoc .., by simp⟩
    case isFalse => exact ⟨[head queue], rfl, by simp⟩

/-- The words that `__add_task` stores to. -/
theorem stores_addTask (m : Words) {queue task : ℕ} (htask : task ≠ tail queue) :
    (addTask m queue task).stores =
      m.stores ++ [task, m.word (tail queue), tail queue] := by
  have hkept : (m.store task 0).word (tail queue) = m.word (tail queue) :=
    Function.update_of_ne htask.symm ..
  unfold addTask
  dsimp only
  rw [hkept]
  simp [Words.store]

/-- The words that a step stores to are `head`, `tail`, and links of queued tasks or of the task
that is added. -/
theorem Inv.stores (h : Inv queue s) (hstep : WordQueue.step queue s a = some s') :
    ∃ ws, s'.mem.stores = s.mem.stores ++ ws ∧
      ∀ w ∈ ws, w = head queue ∨ w = tail queue ∨ w ∈ s.queued ∨ a = .add w := by
  cases a with
  | add task =>
    obtain ⟨⟨-, -, htail, -⟩, hstep⟩ := Option.ite_none_right_eq_some.mp hstep
    rw [← Option.some.inj hstep]
    refine ⟨_, stores_addTask s.mem htail, fun w hw => ?_⟩
    simp only [List.mem_cons, List.not_mem_nil, or_false] at hw
    rcases hw with rfl | rfl | rfl
    · exact .inr (.inr (.inr rfl))
    · -- `*queue->tail` is `head` or the newest task.
      rcases h.tail_cases with heq | hmem
      · exact .inl heq
      · exact .inr (.inr (.inl hmem))
    · exact .inr (.inl rfl)
  | pop =>
    rw [← Option.some.inj hstep]
    obtain ⟨ws, hws, hin⟩ := stores_popTask s.mem queue
    exact ⟨ws, hws, fun w hw => (hin w hw).imp_right .inl⟩
  | write w v =>
    obtain ⟨-, hstep⟩ := Option.ite_none_right_eq_some.mp hstep
    rw [← Option.some.inj hstep]
    exact ⟨[], (List.append_nil _).symm, by simp⟩

/-- In every state of a run: `__pop_task` returns `NULL` exactly when the list of the queued tasks
is empty, and otherwise the oldest of them; following the links from `head` visits these tasks in
order and ends in `NULL`; `tail` is the address of `head` exactly when there are none and otherwise
the first word of the newest, and holds the address of a word that is `NULL`; and whatever an
operation stores, it stores to `head`, to `tail`, to the first word of a queued task or to that of
the task it adds. -/
theorem queue_refines_list (hrun : Reachable queue s) :
    (((popTask s.mem queue).2 = 0 ↔ s.queued = []) ∧
      ∀ task ∈ s.queued.head?, (popTask s.mem queue).2 = task) ∧
    Lib.Chain 0 s.mem.word (s.mem.word (head queue)) s.queued ∧
    ((s.mem.word (tail queue) = head queue ↔ s.queued = []) ∧
      (∀ task ∈ s.queued.getLast?, s.mem.word (tail queue) = task) ∧
      s.mem.word (s.mem.word (tail queue)) = 0) ∧
    ∀ a s', step queue s a = some s' → ∃ ws, s'.mem.stores = s.mem.stores ++ ws ∧
      ∀ w ∈ ws, w = head queue ∨ w = tail queue ∨ w ∈ s.queued ∨ a = .add w := by
  have h := Inv.reachable hrun
  rw [popTask_result]
  refine ⟨⟨h.chain.eq_null_iff, fun task htask => ?_⟩, h.chain,
    ⟨h.tail_eq_head, fun task htask => (h.tail_getLast htask).1, h.tail_null⟩,
    fun a s' hstep => h.stores hstep⟩
  rw [h.chain.entry, List.headD_eq_head?_getD, Option.mem_def.mp htask]
  rfl

/-- Two tasks are added and popped, the memory of the first one is written to, and it is added
again. -/
def recycledRun : List Action := [.add 64, .add 96, .pop, .pop, .write 64 7, .add 64]

/-- A task at an address that was in the queue before is the next to be popped. -/
theorem queue_refines_list_recycled : ∃ s : State, s.queued = [64] ∧ (popTask s.mem 1000).2 = 64 ∧
    s.mem.word (tail 1000) = 64 ∧ s.mem.word 64 = 0 := by
  obtain ⟨s, hrun, hp⟩ := Lib.exists_reaches (step 1000) (fun _ _ => true)
    { mem := create { word := fun _ => 5, stores := [] } 1000, queued := [] } recycledRun
    (fun s => decide (s.queued = [64])) (by decide)
  have hxs : s.queued = [64] := of_decide_eq_true hp
  obtain ⟨⟨-, hpop⟩, -, ⟨-, htail, hnull⟩, -⟩ :=
    queue_refines_list (show Reachable 1000 s from ⟨_, hrun.mono fun _ _ _ => trivial⟩)
  have hlast : s.mem.word (tail 1000) = 64 := htail 64 (by rw [hxs]; rfl)
  rw [hlast] at hnull
  exact ⟨s, hxs, hpop 64 (by rw [hxs]; rfl), hlast, hnull⟩

end CPStudy.ThrdPool.WordQueue
