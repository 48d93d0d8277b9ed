import CPStudy.MPSCQueue.NonIntrusive.Chain

/-!
# `MPSCQueueNonIntrusive` is a FIFO queue

The values that `Dequeue` has returned are a prefix of the values in the order of the exchanges,
and so are those of each producer a prefix of what it has enqueued. `Dequeue` returns `false` at
its load of the tail's `Next`, and there exactly when the queue is empty or the producer of the
next value is between its exchange and its store of the link; otherwise four steps of the consumer
return the value.
-/

namespace CPStudy.MPSCQueue.NonIntrusive

open Function (update)

variable {P T : Type*} {s : State P T} {a : Action P T}

/-- The input of an `Enqueue` before its exchange. -/
def ProdPc.input : ProdPc T → List T
  | .exchange _ input => [input]
  | _ => []

variable [DecidableEq P]

/-- The exchanges of one producer, by value. -/
def State.exchangedBy (s : State P T) (p : P) : List T :=
  (s.exchanged.filter fun e => e.producer = p).map Exchange.value

/-- The calls of each producer are its exchanges and the call before its exchange, in order. -/
def InOrder (s : State P T) : Prop := ∀ p, s.calls p = s.exchangedBy p ++ (s.prod p).input

/-- Every step keeps the calls in order. -/
theorem InOrder.step {s' : State P T} (h : InOrder s) (heff : Effect s a s') : InOrder s' := by
  intro q
  have hq := h q
  cases heff with
  | enter p input hd hp =>
    by_cases hqp : q = p
    · subst hqp
      rw [hp] at hq
      simp only [Function.update_self, hq]
      simp [ProdPc.input, State.exchangedBy]
    · simpa [hqp, State.exchangedBy] using hq
  | exchange p node input hp =>
    by_cases hqp : q = p
    · subst hqp
      rw [hp] at hq
      simp only [hq, State.exchangedBy, List.filter_append]
      simp [ProdPc.input]
    · simpa [hqp, State.exchangedBy, Ne.symm hqp] using hq
  | link p prevHead node nd hp hm =>
    by_cases hqp : q = p
    · subst hqp
      rw [hp] at hq
      simpa [State.exchangedBy, ProdPc.input] using hq
    · simpa [hqp, State.exchangedBy] using hq
  | call | loadNull | loadNext | read | store | free | output | front | destroy => exact hq

/-- The calls of every producer are in order in every reachable state. -/
theorem inOrder_of_reachable {uninit : T} (h : Reachable uninit s) : InOrder s :=
  h.invariant InOrder (fun _ => rfl) fun _ _ _ ht heff => ht.step heff

/-- The values returned are a prefix of the values in the order of the exchanges. -/
theorem returned_isPrefix {uninit : T} (h : Reachable uninit s) :
    s.returned <+: s.exchanged.map Exchange.value := by
  rcases inv_of_reachable h with ⟨c, done, pend, hs⟩ | hs
  · rw [hs.exchanged, List.map_append, hs.values, List.append_assoc]
    exact List.prefix_append _ _
  · rw [hs.values]

/-- The returned values of one producer are a prefix of what it has enqueued. -/
theorem returned_producer_isPrefix {uninit : T} (h : Reachable uninit s) (p : P) :
    ((s.exchanged.take s.returned.length).filter fun e => e.producer = p).map Exchange.value <+:
      s.calls p := by
  rw [inOrder_of_reachable h p]
  refine List.IsPrefix.trans ?_ (List.prefix_append _ _)
  exact ((List.take_prefix _ _).filter _).map _

/-- The next value in the order of the exchanges is there, and its producer has not yet stored
its link. -/
def NextUnlinked (s : State P T) : Prop :=
  ∃ e prevHead, s.exchanged[s.returned.length]? = some e ∧
    s.prod e.producer = .link prevHead e.node

omit [DecidableEq P] in
/-- The load of the tail's `Next` finds the null pointer exactly when the queue is empty or the
next value's link is not yet stored. -/
theorem nextOf_tail_eq_none_iff {c : List NodeId} {done pend : List (Exchange P T)}
    (h : Chained s c done pend) (hc : s.cons = .loadNext s.tail) :
    s.nextOf s.tail = none ↔
      s.returned = s.exchanged.map Exchange.value ∨ NextUnlinked s := by
  have hvalues : done.map Exchange.value = s.returned := by
    simpa [hc, ConsPc.inHand] using h.values
  have hlen : s.returned.length = done.length := by rw [← hvalues, List.length_map]
  have hnodes := h.nodes
  constructor
  · intro hnull
    rcases h.chain.stuck hnull with ⟨rfl, -⟩ | ⟨y, c', rfl, p, hp⟩
    · left
      have hpend : pend = [] := by simpa using hnodes
      rw [h.exchanged, hpend, List.append_nil, hvalues]
    · right
      obtain ⟨e, he, rfl, hy⟩ := h.announcer p _ _ hp
      -- The announced node is the first after the tail, so its exchange is the first pending one.
      obtain ⟨e', pend', rfl⟩ : ∃ e' pend', pend = e' :: pend' := by
        cases pend with
        | nil => simp at he
        | cons e' pend' => exact ⟨e', pend', rfl⟩
      simp only [List.map_cons, List.tail_cons, List.cons.injEq] at hnodes
      obtain rfl : e = e' := by
        rcases List.mem_cons.mp he with heq | he
        · exact heq
        · have hmem : y ∈ c' := by
            rw [← hnodes.2, ← hy]
            exact List.mem_map_of_mem he
          exact absurd hmem (List.nodup_cons.mp (List.nodup_cons.mp h.chain.nodup).2).1
      exact ⟨e, s.tail, by simp [h.exchanged, hlen], hy ▸ hp⟩
  · rintro (heq | ⟨e, prevHead, he, hp⟩)
    · have hpend : pend = [] := by
        rw [h.exchanged, List.map_append, hvalues] at heq
        simpa using heq
      rw [hpend] at hnodes
      have hcc : c = [s.tail] := by
        cases c with
        | nil => simpa using h.chain.head
        | cons z c' =>
          obtain rfl : z = s.tail := by simpa using h.chain.head
          simpa using hnodes.symm
      have hlast : s.tail = s.head := by simpa [hcc] using h.chain.getLast
      rw [hlast]
      exact h.chain.ending
    · obtain ⟨pend', rfl⟩ : ∃ pend', pend = e :: pend' := by
        rw [h.exchanged, hlen, List.getElem?_append_right le_rfl, Nat.sub_self] at he
        cases pend with
        | nil => simp at he
        | cons e' pend' => exact ⟨pend', by simpa using he⟩
      obtain ⟨hadj, hnull⟩ := h.chain.pending _ _ ⟨_, hp⟩
      obtain ⟨z, c', rfl⟩ : ∃ z c', c = z :: e.node :: c' := by
        cases c with
        | nil => simpa using h.chain.head
        | cons z c =>
          simp only [List.map_cons, List.tail_cons] at hnodes
          exact ⟨z, pend'.map Exchange.node, by rw [hnodes]⟩
      obtain rfl : z = s.tail := by simpa using h.chain.head
      rcases Lib.adj_cons.mp hadj with ⟨rfl, -⟩ | hadj
      · exact hnull
      · exact absurd rfl (hadj.ne_head (List.nodup_cons.mp h.chain.nodup).2 rfl)

/-- A step makes a `Dequeue` return `false` exactly when it is a load of the tail's `Next` that
finds the null pointer. -/
theorem outcome_false_iff {a : Action P T} {s' : State P T} (heff : Effect s a s') :
    s'.outcomes = s.outcomes ++ [none] ↔
      a = .cons ∧ ∃ t, s.cons = .loadNext t ∧ s.nextOf t = none := by
  cases heff with
  | loadNull t nd hc hm hn => simp [State.returnFalse, State.nextOf, hc, hm, hn]
  | loadNext t n nd hc hm hn => simp [State.nextOf, hc, hm, hn]
  | free t r hc => simp [State.returnTrue, State.delete, hc]
  | front hc => simp [State.delete, hc]
  | read t n nd hc hm => simp [hc]
  | store t n r hc => simp [hc]
  | output output hc => simp [hc]
  | enter | exchange | link | call | destroy => simp

/-- At its load of the tail's `Next` the consumer holds the tail of a living queue. -/
theorem chained_of_loadNext {uninit : T} (h : Reachable uninit s) {t : NodeId}
    (hc : s.cons = .loadNext t) :
    t = s.tail ∧ ∃ c done pend, Chained s c done pend := by
  rcases inv_of_reachable h with ⟨c, done, pend, hs⟩ | hs
  · exact ⟨hs.at_loadNext hc, c, done, pend, hs⟩
  · rw [hs.cons] at hc
    cases hc

/-- A `Dequeue` that finds a next node returns its value by three more steps, if the node is still
allocated. -/
theorem dequeue_returns {nd nd' : Node T} {n : NodeId} (hc : s.cons = .loadNext s.tail)
    (hm : s.mem s.tail = some nd) (hn : nd.next = some n) (hm' : s.mem n = some nd') :
    ∃ s', Lib.Steps step (fun _ a => a = .cons) s 4 s' ∧
      s'.outcomes = s.outcomes ++ [some nd'.data] := by
  have hload : step s .cons = some { s with cons := .readData s.tail n } := by
    simp only [step, stepCons, hc, hm, hn]
  have hread : step { s with cons := .readData s.tail n } .cons =
      some { s with cons := .storeTail s.tail n nd'.data } := by
    simp only [step, stepCons, hm']
  have hstore : step { s with cons := .storeTail s.tail n nd'.data } .cons =
      some { s with tail := n, cons := .deleteTail s.tail nd'.data } := rfl
  have hdelete : step { s with tail := n, cons := .deleteTail s.tail nd'.data } .cons =
      some ((State.delete { s with tail := n, cons := .deleteTail s.tail nd'.data }
        s.tail).returnTrue nd'.data) := rfl
  have hrun : Lib.Steps step (fun _ a => a = .cons) s 3
      { s with tail := n, cons := .deleteTail s.tail nd'.data } :=
    .tail (.tail (.tail .refl rfl hload) rfl hread) rfl hstore
  exact ⟨_, hrun.tail rfl hdelete, rfl⟩

/-- `MPSCQueueNonIntrusive` is a FIFO queue. The values that `Dequeue` has returned are a prefix
of the values in the order of the exchanges, and those of each producer are a prefix of what that
producer has enqueued. A step makes `Dequeue` return `false` exactly when it is the load of the
tail's `Next` in a state where every exchanged value has been returned or the producer of the next
value has not yet stored its link; in any other state `Dequeue` returns a value after four steps of
the consumer alone. -/
theorem nonIntrusive_fifo {uninit : T} (h : Reachable uninit s) :
    s.returned <+: s.exchanged.map Exchange.value ∧
    (∀ p, ((s.exchanged.take s.returned.length).filter fun e => e.producer = p).map
      Exchange.value <+: s.calls p) ∧
    (∀ a s', Allowed s a → step s a = some s' →
      (s'.outcomes = s.outcomes ++ [none] ↔
        a = .cons ∧ (∃ t, s.cons = .loadNext t) ∧
          (s.returned = s.exchanged.map Exchange.value ∨ NextUnlinked s))) ∧
    ∀ t, s.cons = .loadNext t →
      ¬(s.returned = s.exchanged.map Exchange.value ∨ NextUnlinked s) →
        ∃ s' r, Lib.Steps step (fun _ a => a = .cons) s 4 s' ∧
          s'.outcomes = s.outcomes ++ [some r] := by
  refine ⟨returned_isPrefix h, returned_producer_isPrefix h, fun a s' hok hstep => ?_,
    fun t hc hnext => ?_⟩
  · rw [outcome_false_iff (effect_of_step hok hstep)]
    refine and_congr_right fun _ => ?_
    constructor
    · rintro ⟨t, hc, hn⟩
      obtain ⟨rfl, c, done, pend, hs⟩ := chained_of_loadNext h hc
      exact ⟨⟨_, hc⟩, (nextOf_tail_eq_none_iff hs hc).mp hn⟩
    · rintro ⟨⟨t, hc⟩, hor⟩
      obtain ⟨rfl, c, done, pend, hs⟩ := chained_of_loadNext h hc
      exact ⟨_, hc, (nextOf_tail_eq_none_iff hs hc).mpr hor⟩
  · obtain ⟨rfl, c, done, pend, hs⟩ := chained_of_loadNext h hc
    have hsome : s.nextOf s.tail ≠ none := fun hn =>
      hnext ((nextOf_tail_eq_none_iff hs hc).mp hn)
    obtain ⟨n, hn⟩ := Option.ne_none_iff_exists'.mp hsome
    obtain ⟨nd, hm, hnd⟩ := Option.bind_eq_some_iff.mp hn
    -- The next node is in the chain, and what is in the chain is allocated.
    obtain ⟨nd', hm'⟩ := Option.ne_none_iff_exists'.mp (hs.live _ (hs.chain.next_mem hn))
    obtain ⟨s', hrun, hout⟩ := dequeue_returns hc hm hnd hm'
    exact ⟨s', nd'.data, hrun, hout⟩

/-- Two producers exchange, the first one has not stored its link, and the consumer dequeues. Then
the link is stored, and the consumer gets the first value and dequeues again. -/
def brokenRun (p q : P) : List (Action P ℕ) :=
  [.enqueue p 100, .enqueue q 500, .prod p, .prod q, .prod q, .dequeue, .cons, .prod p, .dequeue,
    .cons, .cons, .cons, .cons, .dequeue]

/-- The second producer's value is in the queue and linked, and yet `Dequeue` returns `false`,
since the first producer has not stored its link. Later it returns the first value, and then four
steps of the consumer return another one. -/
theorem nonIntrusive_fifo_broken : ∃ (s s' : State (Fin 2) ℕ) (r : ℕ),
    s.exchanged.map Exchange.value = [100, 500] ∧ s.outcomes = [none, some 100] ∧
      s.returned <+: s.exchanged.map Exchange.value ∧
      Lib.Steps step (fun _ a => a = .cons) s 4 s' ∧ s'.outcomes = [none, some 100, some r] := by
  obtain ⟨s, hs, hp⟩ := exists_reachable 0 (brokenRun (P := Fin 2) 0 1)
    (fun s => s.cons == .loadNext 1 && s.outcomes == [none, some 100] && s.prod 0 == .idle &&
      s.prod 1 == .idle && s.exchanged.map Exchange.value == [100, 500]) (by decide)
  simp only [Bool.and_eq_true, beq_iff_eq] at hp
  obtain ⟨⟨⟨⟨hc, hout⟩, hp0⟩, hp1⟩, hvalues⟩ := hp
  obtain ⟨hordered, -, -, hreturns⟩ := nonIntrusive_fifo hs
  have hreturned : s.returned = [100] := by
    rw [State.returned, hout]
    rfl
  have hnext : ¬(s.returned = s.exchanged.map Exchange.value ∨ NextUnlinked s) := by
    rintro (heq | ⟨e, prevHead, -, hlink⟩)
    · rw [hreturned, hvalues] at heq
      cases heq
    · -- Both producers have stored their links.
      have hidle : s.prod e.producer = .idle := by
        obtain heq | heq : e.producer = 0 ∨ e.producer = 1 := by omega
        · rw [heq, hp0]
        · rw [heq, hp1]
      rw [hidle] at hlink
      cases hlink
  obtain ⟨s', r, hrun, hout'⟩ := hreturns _ hc hnext
  exact ⟨s, s', r, hvalues, hout, hordered, hrun, by rw [hout', hout]; rfl⟩

end CPStudy.MPSCQueue.NonIntrusive
