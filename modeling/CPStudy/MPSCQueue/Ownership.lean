import CPStudy.MPSCQueue.Intrusive.Ownership
import CPStudy.MPSCQueue.NonIntrusive.Ownership

/-!
# Ownership in both queues

A node that `MPSCQueueNonIntrusive::Dequeue` has deleted, or an element that
`MPSCQueueIntrusive::Dequeue` has returned, belongs to the caller: no step of the queue accesses
its link and neither end points to it. What is still queued is deleted by the destructor.
-/

namespace CPStudy.MPSCQueue

variable {P T : Type*} [DecidableEq P] [DecidableEq T]

/-- Ownership is handed over in both queues. In the non-intrusive one, after the delete of a node
no later state has an end there and no later step accesses it; the destructor ends, deletes the
values queued when it began, and leaves every node ever allocated deleted once. In the intrusive
one, after the return of an element no state has an end there and no step accesses its link until
it is enqueued again; the destructor ends and deletes the elements queued when it began, each of
them once, since none is queued twice. -/
theorem ownership_handover :
    (∀ (uninit : T) (s s' : NonIntrusive.State P T), NonIntrusive.Reachable uninit s →
      (∀ x r, s.cons = .deleteTail x r → NonIntrusive.step s .cons = some s' →
        ∀ t, Lib.Reaches NonIntrusive.step NonIntrusive.Allowed s' t →
          t.head ≠ x ∧ t.tail ≠ x ∧
            ∀ a, NonIntrusive.Allowed t a → x ∉ NonIntrusive.touches t a) ∧
      (NonIntrusive.Allowed s .destroy → NonIntrusive.step s .destroy = some s' →
        (∃ t, Lib.Reaches NonIntrusive.step (fun _ a => a = .cons) s' t ∧
          t.cons = .destroyed) ∧
        ∀ t, Lib.Reaches NonIntrusive.step NonIntrusive.Allowed s' t → t.cons = .destroyed →
          t.deleted = s.queued ∧ t.freed.Nodup ∧ ∀ x < t.fresh, x ∈ t.freed)) ∧
    ∀ s s' : Intrusive.State P T, Intrusive.Reachable s →
      (∀ a r, Intrusive.Allowed s a → Intrusive.step s a = some s' →
        s'.outcomes = s.outcomes ++ [some r] → ∃ x, r = .elem x ∧
          ∀ t, Lib.Reaches Intrusive.step
              (fun s a => Intrusive.Allowed s a ∧ ∀ p, a ≠ .enqueue p x) s' t →
            t.head ≠ .elem x ∧ t.tail ≠ .elem x ∧ ∀ a, .elem x ∉ Intrusive.touches t a) ∧
      (Intrusive.Allowed s .destroy → Intrusive.step s .destroy = some s' →
        (∃ t, Lib.Reaches Intrusive.step (fun _ a => a = .cons) s' t ∧ t.cons = .destroyed) ∧
        ∀ t, Lib.Reaches Intrusive.step Intrusive.Allowed s' t → t.cons = .destroyed →
          t.deleted = s.queued ∧ s.queued.Nodup) := by
  constructor
  -- The node that `Dequeue` deletes.
  · intro uninit s s' h
    refine ⟨fun x r hc hstep t hrun => NonIntrusive.deleted_forgotten h hc hstep hrun,
      fun hok hstep => ⟨?_, fun t hrun hc => ?_⟩⟩
    · refine NonIntrusive.destructor_ends (h.tail hok hstep) ?_
      cases NonIntrusive.effect_of_step hok hstep with
      | destroy => rfl
    · exact ⟨NonIntrusive.destructor_deletes h hok hstep hrun hc,
        NonIntrusive.destroyed_freed ((h.tail hok hstep).trans hrun) hc⟩
  -- The element that `Dequeue` returns.
  · intro s s' h
    have hs' : ∀ {a}, Intrusive.Allowed s a → Intrusive.step s a = some s' →
        Intrusive.Reachable s' := by
      obtain ⟨link, hs⟩ := h
      exact fun hok hstep => ⟨link, hs.tail hok hstep⟩
    refine ⟨fun a r hok hstep hout => ?_, fun hok hstep => ⟨?_, fun t hrun hc => ?_⟩⟩
    · have heff := Intrusive.effect_of_step hok hstep
      obtain ⟨c, hc⟩ := Intrusive.chained_of_reachable h
      obtain ⟨x, rfl⟩ := hc.returned_elem heff hout
      exact ⟨x, rfl, fun t hrun =>
        Intrusive.released_untouched (hs' hok hstep) (heff.returned_owned hout) hrun⟩
    · refine Intrusive.destructor_ends (hs' hok hstep) ?_
      cases Intrusive.effect_of_step hok hstep with
      | destroy => rfl
    · exact ⟨Intrusive.destructor_deletes h hok hstep hrun hc, Intrusive.queued_nodup h⟩

/-- A producer enqueues, and the consumer is before the delete of the node that the constructor
made. -/
def nonIntrusiveRun (p : P) : List (NonIntrusive.Action P ℕ) :=
  [.enqueue p 100, .prod p, .prod p, .dequeue, .cons, .cons, .cons]

/-- A producer enqueues, and the consumer is before the return of the element. -/
def intrusiveRun (p : P) : List (Intrusive.Action P ℕ) :=
  [.enqueue p 100, .prod p, .prod p, .prod p, .dequeue, .cons, .cons, .cons, .cons, .cons, .cons,
    .cons, .cons]

/-- After the steps that follow, the node and the element are out of the queues' reach. -/
theorem ownership_handover_runs :
    (∃ s' : NonIntrusive.State (Fin 2) ℕ, s'.freed = [0] ∧ s'.head ≠ 0 ∧ s'.tail ≠ 0) ∧
      ∃ s' : Intrusive.State (Fin 2) ℕ, s'.delivered = [.elem 100] ∧
        s'.head ≠ .elem 100 ∧ s'.tail ≠ .elem 100 := by
  constructor
  · obtain ⟨s, hs, hp⟩ := NonIntrusive.exists_reachable 0 (nonIntrusiveRun (P := Fin 2) 0)
      (fun s => s.cons == .deleteTail 0 100 && (NonIntrusive.step s .cons).any (·.freed == [0]))
      (by decide)
    simp only [Bool.and_eq_true, beq_iff_eq, Option.any_eq_true] at hp
    obtain ⟨hc, s', hstep, hfreed⟩ := hp
    obtain ⟨hhead, htail, -⟩ := (ownership_handover.1 0 s s' hs).1 0 100 hc hstep s' .refl
    exact ⟨s', hfreed, hhead, htail⟩
  · obtain ⟨s, hs, hp⟩ := Intrusive.exists_reachable (fun _ => none) (intrusiveRun (P := Fin 2) 0)
      (fun s => s.outcomes == [] && (Intrusive.step s .cons).any fun s' =>
        s'.outcomes == [some (.elem 100)] && s'.delivered == [.elem 100]) (by decide)
    simp only [Bool.and_eq_true, beq_iff_eq, Option.any_eq_true] at hp
    obtain ⟨hout, s', hstep, hout', hdel⟩ := hp
    obtain ⟨x, hx, h⟩ := (ownership_handover.2 s s' hs).1 .cons (.elem 100) trivial hstep
      (by rw [hout, hout']; rfl)
    cases hx
    obtain ⟨hhead, htail, -⟩ := h s' .refl
    exact ⟨s', hdel, hhead, htail⟩

end CPStudy.MPSCQueue
