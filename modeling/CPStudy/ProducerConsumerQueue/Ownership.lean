import Mathlib.Data.List.Nodup
import CPStudy.ProducerConsumerQueue.Model

/-!
# Who owns a pushed value

Every pushed value is delivered, deleted or still queued, and never two of these. What carries this
is one equation, `Ledger`: what was delivered, followed by what was deleted, followed by what is
queued, is what was pushed, in order. It holds over every run, since nothing is delivered any more
once something was deleted.

After `Cancel` the queue is to stay empty, so that nothing pushed is left without an owner. `Pop`
and `WaitAndPop` test `_shutdown`; `Push` does not, so that this holds of the runs in which nobody
pushes after `Cancel` (`ownership_across_cancel`), and a later `Push` breaks it.
-/

namespace CPStudy.ProducerConsumerQueue

variable {ι T : Type*}

/-- The numbers of the pushes whose values were delivered, in the order of the deliveries. -/
def State.deliveredNos (s : State ι T) : List ℕ := s.delivered.map fun d => d.1.2

/-- The numbers of the pushes whose values were deleted, in the order of the deletions. -/
def State.deletedNos (s : State ι T) : List ℕ := s.deleted.map Prod.snd

/-- No pushed value has two owners. -/
structure SingleOwner (s : State ι T) : Prop where
  /-- Every value is delivered at most once, and in push order. -/
  inOrder : s.deliveredNos.Pairwise (· < ·)
  /-- What is delivered is the value that was pushed. -/
  deliveredValue : ∀ d ∈ s.delivered, s.pushed[d.1.2]? = some d.1.1
  /-- Every value is deleted at most once. -/
  deletedOnce : s.deletedNos.Nodup
  /-- What is deleted is the value that was pushed. -/
  deletedValue : ∀ item ∈ s.deleted, s.pushed[item.2]? = some item.1
  /-- Nothing is both delivered and deleted. -/
  apart : ∀ k, k ∈ s.deliveredNos → k ∉ s.deletedNos

/-- No pushed value has two owners, and each has one once `Cancel` has returned. -/
structure Ownership (s : State ι T) : Prop extends SingleOwner s where
  /-- The queue is empty after `Cancel`. -/
  drained : 0 < s.cancels → s.queue = []
  /-- After `Cancel` every pushed value was either delivered to one consumer or deleted once. -/
  settled : 0 < s.cancels →
    ∀ k < s.pushed.length, s.deliveredNos.count k + s.deletedNos.count k = 1

/-- Nobody runs `Push` while `_shutdown` is set. -/
def NoLatePush (s : State ι T) : Action ι T → Prop
  | .push _ _ _ => s.shutdown = false
  | _ => True

/-- Whether an action is a late push can be tested. -/
instance (s : State ι T) (a : Action ι T) : Decidable (NoLatePush s a) :=
  match a with
  | .push _ _ _ => inferInstanceAs (Decidable (s.shutdown = false))
  | .pop _ => inferInstanceAs (Decidable True)
  | .waitAndPop _ => inferInstanceAs (Decidable True)
  | .wake _ => inferInstanceAs (Decidable True)
  | .cancel _ => inferInstanceAs (Decidable True)
  | .spurious _ => inferInstanceAs (Decidable True)

/-- What was pushed, with its numbers, is what was delivered, what was deleted and what is queued;
and `_shutdown` is set by `Cancel` alone. -/
structure Ledger (s : State ι T) : Prop where
  /-- The values pushed, in order. -/
  items : s.delivered.map Prod.fst ++ s.deleted ++ s.queue = s.pushed.zipIdx
  /-- Nothing is deleted before `Cancel`. -/
  kept : s.shutdown = false → s.deleted = []
  /-- Some `Cancel` has returned exactly when `_shutdown` is set. -/
  cancelled : 0 < s.cancels ↔ s.shutdown = true

/-- A value is queued with the number of its push. -/
theorem Ledger.items_push {s : State ι T} (h : Ledger s) (value : T) :
    s.delivered.map Prod.fst ++ s.deleted ++ (s.queue ++ [(value, s.pushed.length)]) =
      (s.pushed ++ [value]).zipIdx := by
  rw [List.zipIdx_append, ← h.items]
  simp

/-- The front of the queue is delivered. -/
theorem Ledger.items_deliver {s : State ι T} (h : Ledger s) {item : Item T} {rest : List (Item T)}
    (t : ι) (hq : s.queue = item :: rest) (hs : s.shutdown = false) :
    (s.delivered ++ [(item, t)]).map Prod.fst ++ s.deleted ++ rest = s.pushed.zipIdx := by
  rw [← h.items, h.kept hs, hq]
  simp

/-- Every step keeps the ledger. -/
theorem Ledger.step [DecidableEq ι] {s s' : State ι T} (hs : Ledger s) (h : Effect s s') :
    Ledger s' := by
  cases h with
  | pushWake value w hw => exact ⟨hs.items_push value, hs.kept, hs.cancelled⟩
  | pushLost value hw => exact ⟨hs.items_push value, hs.kept, hs.cancelled⟩
  | pop t item rest ht hq hsd => exact ⟨hs.items_deliver t hq hsd, hs.kept, hs.cancelled⟩
  | popNone hq => exact hs
  | wait t ht hq hsd => exact ⟨hs.items, hs.kept, hs.cancelled⟩
  | take t item rest ht hq hsd => exact ⟨hs.items_deliver t hq hsd, hs.kept, hs.cancelled⟩
  | leave t ht hsd => exact ⟨hs.items, hs.kept, hs.cancelled⟩
  | cancel =>
    refine ⟨?_, fun hsd => absurd hsd (by simp), by simp⟩
    -- What was queued is deleted, in the order of the queue.
    show s.delivered.map Prod.fst ++ (s.deleted ++ s.queue) ++ [] = s.pushed.zipIdx
    rw [List.append_nil, ← List.append_assoc]
    exact hs.items
  | spurious t ht => exact ⟨hs.items, hs.kept, hs.cancelled⟩

/-- The ledger of the new queue. -/
theorem Ledger.init : Ledger (State.init ι T) where
  items := rfl
  kept := fun _ => rfl
  cancelled := by simp [State.init]

/-- The numbers of what was delivered, deleted and queued are those of the pushes, in order. -/
theorem Ledger.numbers {s : State ι T} (h : Ledger s) :
    s.deliveredNos ++ s.deletedNos ++ s.queue.map Prod.snd = List.range s.pushed.length := by
  -- The numbers of the ledger's items, which `zipIdx` counts up from zero.
  have hmap := congrArg (List.map Prod.snd) h.items
  rw [List.zipIdx_map_snd, List.map_append, List.map_append, List.map_map] at hmap
  rw [List.range_eq_range']
  exact hmap

/-- What was delivered or deleted carries the value of its push. -/
theorem Ledger.value {s : State ι T} (h : Ledger s) {item : Item T}
    (hi : item ∈ s.delivered.map Prod.fst ++ s.deleted) : s.pushed[item.2]? = some item.1 := by
  rw [← List.mem_zipIdx_iff_getElem?, ← h.items]
  exact List.mem_append_left _ hi

/-- The ledger leaves no value two owners. -/
theorem Ledger.singleOwner {s : State ι T} (h : Ledger s) : SingleOwner s := by
  have hlt : (s.deliveredNos ++ s.deletedNos ++ s.queue.map Prod.snd).Pairwise (· < ·) := by
    rw [h.numbers]
    exact List.pairwise_lt_range
  -- The numbers of the delivered and the deleted values ascend as one list, so none stands twice.
  obtain ⟨hlt, -, -⟩ := List.pairwise_append.mp hlt
  obtain ⟨hdelivered, hdeleted, hcross⟩ := List.pairwise_append.mp hlt
  refine ⟨hdelivered, fun d hd => ?_, ?_, fun item hi => ?_, fun k hk hk' => ?_⟩
  · exact h.value (List.mem_append_left _ (List.mem_map_of_mem hd))
  · exact hdeleted.imp fun hab => ne_of_lt hab
  · exact h.value (List.mem_append_right _ hi)
  · exact lt_irrefl k (hcross k hk k hk')

/-- With the queue empty, every pushed value was either delivered once or deleted once. -/
theorem Ledger.settled {s : State ι T} (h : Ledger s) (hq : s.queue = []) (k : ℕ)
    (hk : k < s.pushed.length) : s.deliveredNos.count k + s.deletedNos.count k = 1 := by
  have hnos := h.numbers
  rw [hq, List.map_nil, List.append_nil] at hnos
  rw [← List.count_append, hnos]
  exact List.count_eq_one_of_mem List.nodup_range (List.mem_range.mpr hk)

/-- Delivering the front of the queue pushes nothing. -/
@[simp]
theorem takeFront_pushed (s : State ι T) (t : ι) : (takeFront s t).pushed = s.pushed := by
  unfold takeFront
  split
  · rfl
  · split <;> rfl

variable [DecidableEq ι]

/-- A step that pushes nothing keeps the queue empty after `Cancel`. -/
theorem Effect.drained {s s' : State ι T} (h : Effect s s')
    (hp : s.shutdown = true → s'.pushed = s.pushed)
    (hd : s.shutdown = true → s.queue = []) : s'.shutdown = true → s'.queue = [] := by
  cases h with
  | pushWake value w hw => intro hs; simpa using hp hs
  | pushLost value hw => intro hs; simpa using hp hs
  -- Nothing is delivered once `_shutdown` is set.
  | pop t item rest ht hq hsd =>
    intro hs
    rw [hsd] at hs
    cases hs
  | popNone hq => exact hd
  | wait t ht hq hsd => exact hd
  | take t item rest ht hq hsd =>
    intro hs
    rw [hsd] at hs
    cases hs
  | leave t ht hsd => exact hd
  | cancel => intro _; rfl
  | spurious t ht => exact hd

/-- `WaitAndPop` pushes nothing. -/
@[simp]
theorem waitSection_pushed (s : State ι T) (t : ι) : (waitSection s t).pushed = s.pushed := by
  unfold waitSection
  split
  · rfl
  · rw [takeFront_pushed]

variable [Fintype ι]

/-- Where no late push is made, a step after `Cancel` pushes nothing. -/
theorem pushed_of_noLatePush {s s' : State ι T} {a : Action ι T} (hok : NoLatePush s a)
    (h : step s a = some s') (hs : s.shutdown = true) : s'.pushed = s.pushed := by
  cases a with
  | push t value w =>
    unfold NoLatePush at hok
    rw [hok] at hs
    cases hs
  | pop t =>
    obtain ⟨-, h⟩ := Option.ite_none_right_eq_some.mp h
    rw [← Option.some.inj h, takeFront_pushed]
  | waitAndPop t =>
    obtain ⟨-, h⟩ := Option.ite_none_right_eq_some.mp h
    rw [← Option.some.inj h, waitSection_pushed]
  | wake t =>
    obtain ⟨-, h⟩ := Option.ite_none_right_eq_some.mp h
    rw [← Option.some.inj h, waitSection_pushed]
  | cancel t =>
    obtain ⟨-, h⟩ := Option.ite_none_right_eq_some.mp h
    rw [← Option.some.inj h]
    rfl
  | spurious t =>
    obtain ⟨-, h⟩ := Option.ite_none_right_eq_some.mp h
    rw [← Option.some.inj h]

/-- Every reachable state has its ledger. -/
theorem ledger_of_reachable {s : State ι T} (h : Reachable s) : Ledger s :=
  h.invariant Ledger Ledger.init fun _ _ ht heff => ht.step heff

/-- In every run without a late push the queue stays empty after `Cancel`. -/
theorem drained_of_noLatePush {s : State ι T} (h : ReachableIf NoLatePush s) :
    s.shutdown = true → s.queue = [] := by
  refine Lib.Reaches.invariant (I := fun s => s.shutdown = true → s.queue = []) ?_ ?_ h
  · intro _; rfl
  · intro t a u ht hok hstep
    exact (effect_of_step hstep).drained (pushed_of_noLatePush hok hstep) ht

/-- What `Push` does to the queue. -/
theorem queue_of_push {s s' : State ι T} {t : ι} {value : T} {w : Option ι}
    (h : step s (.push t value w) = some s') :
    s'.queue = s.queue ++ [(value, s.pushed.length)] ∧ s'.cancels = s.cancels := by
  obtain ⟨-, h⟩ := Option.ite_none_right_eq_some.mp h
  unfold push notifyOne at h
  cases w with
  | some w =>
    obtain ⟨-, h⟩ := Option.ite_none_right_eq_some.mp h
    rw [← Option.some.inj h]
    exact ⟨rfl, rfl⟩
  | none =>
    obtain ⟨-, h⟩ := Option.ite_none_right_eq_some.mp h
    rw [← Option.some.inj h]
    exact ⟨rfl, rfl⟩

/-- In every run no pushed value has two owners. In every run in which nobody runs `Push` while
`_shutdown` is set, the queue stays empty once a `Cancel` has returned and every value ever pushed
was either delivered to exactly one consumer or deleted exactly once; and the first `Push` against
that leaves a value in the queue after a `Cancel`. -/
theorem ownership_across_cancel :
    (∀ s : State ι T, Reachable s → SingleOwner s) ∧
    (∀ s : State ι T, ReachableIf NoLatePush s → Ownership s) ∧
    (∀ (s s' : State ι T) (a : Action ι T), ReachableIf NoLatePush s → ¬NoLatePush s a →
      step s a = some s' → 0 < s'.cancels ∧ s'.queue ≠ [] ∧ ¬Ownership s') := by
  -- The ledger gives the first part of every run; a late push matters to the empty queue alone.
  refine ⟨fun s hs => (ledger_of_reachable hs).singleOwner, fun s hs => ?_, ?_⟩
  · have hledger := ledger_of_reachable hs.reachable
    have hdrained : 0 < s.cancels → s.queue = [] := fun hc =>
      drained_of_noLatePush hs (hledger.cancelled.mp hc)
    exact { hledger.singleOwner with
      drained := hdrained
      settled := fun hc => hledger.settled (hdrained hc) }
  · intro s s' a hs ha hstep
    obtain ⟨t, value, w, rfl⟩ : ∃ t value w, a = .push t value w := by
      cases a with
      | push t value w => exact ⟨t, value, w, rfl⟩
      | pop t => exact absurd trivial ha
      | waitAndPop t => exact absurd trivial ha
      | wake t => exact absurd trivial ha
      | cancel t => exact absurd trivial ha
      | spurious t => exact absurd trivial ha
    -- `Push` runs as ever and leaves its value in the queue.
    have hshut : s.shutdown = true := by
      unfold NoLatePush at ha
      simpa using ha
    obtain ⟨hqueue, hcancels⟩ := queue_of_push hstep
    have hpos : 0 < s'.cancels := by
      rw [hcancels]
      exact (ledger_of_reachable hs.reachable).cancelled.mpr hshut
    have hne : s'.queue ≠ [] := by
      rw [hqueue]
      simp
    exact ⟨hpos, hne, fun h => hne (h.drained hpos)⟩

/-- A consumer waits, a producer pushes two values, the consumer takes the first and `Cancel`
deletes the second. -/
def cancelledRun (t u : ι) (first second : T) : List (Action ι T) :=
  [.waitAndPop t, .push u first (some t), .push u second none, .wake t, .cancel u]

/-- A run in which one value is delivered and one deleted. -/
theorem ownership_across_cancel_shared : ∃ s : State (Fin 2) ℕ, s.pushed = [7, 8] ∧
    s.deliveredNos = [0] ∧ s.deletedNos = [1] ∧ Ownership s := by
  obtain ⟨s, hs, hp⟩ := exists_reachable (fun s a => decide (NoLatePush s a))
    (cancelledRun (ι := Fin 2) (T := ℕ) 0 1 7 8)
    (fun s => decide (s.pushed = [7, 8] ∧ s.deliveredNos = [0] ∧ s.deletedNos = [1])) (by decide)
  obtain ⟨hpushed, hdelivered, hdeleted⟩ := of_decide_eq_true hp
  have hrun : ReachableIf NoLatePush s := hs.mono fun _ _ hok => of_decide_eq_true hok
  exact ⟨s, hpushed, hdelivered, hdeleted, ownership_across_cancel.2.1 s hrun⟩

/-- The first thread cancels the queue, and the second then pushes a value. -/
def pushAfterCancel (t u : ι) (value : T) : List (Action ι T) := [.cancel t, .push u value none]

/-- A value pushed after `Cancel` is neither delivered nor deleted. -/
theorem ownership_across_cancel_late : ∃ s : State (Fin 2) ℕ, Reachable s ∧ 0 < s.cancels ∧
    s.queue ≠ [] ∧ s.pushed = [7] ∧ s.deliveredNos.count 0 + s.deletedNos.count 0 = 0 := by
  obtain ⟨s, hs, hp⟩ := exists_reachable (fun _ _ => true)
    (pushAfterCancel (ι := Fin 2) (T := ℕ) 0 1 7)
    (fun s => decide (0 < s.cancels ∧ s.queue ≠ [] ∧ s.pushed = [7] ∧
      s.deliveredNos.count 0 + s.deletedNos.count 0 = 0)) (by decide)
  exact ⟨s, hs.reachable, of_decide_eq_true hp⟩

end CPStudy.ProducerConsumerQueue
