import CPStudy.MPSCQueue.NonIntrusive.Chain

/-!
# No access to a deleted node of `MPSCQueueNonIntrusive`

A node that was deleted is neither `_head` nor `_tail` and no later step reads, writes or deletes
it. The destructor, run when no `Enqueue` is in flight, ends; it deletes every node that is left
and every value still queued, each once.
-/

namespace CPStudy.MPSCQueue.NonIntrusive

open Function (update)

variable {P T : Type*} {s : State P T} {a : Action P T}

/-- The values not yet returned, in the order of their exchanges. -/
def State.queued (s : State P T) : List T :=
  (s.exchanged.map Exchange.value).drop s.returned.length

/-- The history of deletions agrees with the memory: a node was deleted exactly when its name was
given out and it is not allocated. The values returned went to the consumer or to the destructor,
which deletes each before it goes on. -/
structure Recorded (s : State P T) : Prop where
  /-- No node is deleted twice. -/
  nodup : s.freed.Nodup
  /-- The deleted nodes are those that were allocated and are no more. -/
  mem_freed : ∀ a, a ∈ s.freed ↔ a < s.fresh ∧ s.mem a = none
  /-- Every value returned was handed to the consumer or deleted by the destructor. -/
  elements : s.returned = s.delivered ++ s.deleted ++ s.cons.output
  /-- The destructor deletes nothing before it begins. -/
  deleted : s.dtor = false → s.deleted = []

/-- Every node that the next step of any thread accesses is allocated, or is the one that it
allocates. -/
theorem Chained.touches_live {c : List NodeId} {done pend : List (Exchange P T)}
    (h : Chained s c done pend) {a : Action P T} {x : NodeId} (hx : x ∈ touches s a) :
    s.mem x ≠ none ∨ x = s.fresh := by
  -- What is stored to or loaded from is in the chain, but for the node that the consumer deletes.
  cases a with
  | enqueue p input => exact .inr (by simpa [touches] using hx)
  | prod p =>
    simp only [touches] at hx
    split at hx
    case h_1 prevHead node hp =>
      obtain rfl := List.mem_singleton.mp hx
      exact .inl (h.live _ (h.chain.pending _ _ ⟨p, hp⟩).1.mem_left)
    case h_2 => cases hx
  | cons =>
    simp only [touches] at hx
    split at hx
    case h_1 t hc =>
      obtain rfl := List.mem_singleton.mp hx
      exact .inl (h.live _ (h.at_loadNext hc ▸ h.chain.first_mem))
    case h_2 t n hc =>
      obtain rfl := List.mem_singleton.mp hx
      obtain ⟨rfl, hn⟩ := h.at_readData hc
      exact .inl (h.live _ (h.chain.next_mem hn))
    case h_3 t r hc =>
      obtain rfl := List.mem_singleton.mp hx
      exact .inl (h.at_deleteTail hc).2.1
    case h_4 hc =>
      obtain rfl := List.mem_singleton.mp hx
      exact .inl (h.live _ h.chain.last_mem)
    case h_5 => cases hx
  | dequeue => cases hx
  | destroy => cases hx

/-- A destroyed queue is not accessed any more. -/
theorem Destroyed.touches_eq_nil (h : Destroyed s) {a : Action P T} (hok : Allowed s a) :
    touches s a = [] := by
  cases a with
  | enqueue p input => exact absurd h.dtor (by simpa [Allowed] using hok)
  | prod p => simp [touches, h.quiet p]
  | cons => simp [touches, h.cons]
  | dequeue | destroy => rfl

/-- Deleting an allocated node keeps the history of deletions in agreement with the memory. -/
theorem mem_freed_delete {node : NodeId} (h : ∀ a, a ∈ s.freed ↔ a < s.fresh ∧ s.mem a = none)
    (hlt : node < s.fresh) (a : NodeId) :
    a ∈ (s.delete node).freed ↔ a < (s.delete node).fresh ∧ (s.delete node).mem a = none := by
  by_cases ha : a = node
  · simp [State.delete, ha, hlt]
  · simp [State.delete, ha, h a]

variable [DecidableEq P]

/-- Every step keeps the history in agreement with the memory. -/
theorem Recorded.step {s' : State P T} (h : Recorded s) {c : List NodeId}
    {done pend : List (Exchange P T)} (hch : Chained s c done pend) (heff : Effect s a s') :
    Recorded s' := by
  have helements := h.elements
  cases heff with
  | enter p input hd hp =>
    refine { h with mem_freed := fun a => ?_ }
    by_cases ha : a = s.fresh
    · simp [ha, (h.mem_freed s.fresh)]
    · simp only [Function.update_of_ne ha]
      rw [h.mem_freed a]
      exact and_congr_left fun _ =>
        ⟨Nat.lt_succ_of_lt, fun hlt => lt_of_le_of_ne (Nat.lt_succ_iff.mp hlt) ha⟩
  | exchange p node input hp => exact { h with }
  | link p prevHead node nd hp hm =>
    refine { h with mem_freed := fun a => ?_ }
    by_cases ha : a = prevHead
    · subst ha; simp [h.mem_freed a, hm]
    · simp only [Function.update_of_ne ha]
      exact h.mem_freed a
  | call hc =>
    rw [hc] at helements
    exact { h with elements := helements }
  | loadNull t nd hc hm hn =>
    rw [hc] at helements
    refine { h with elements := ?_ }
    rw [returned_returnFalse, helements]
    unfold State.returnFalse
    cases s.dtor <;> rfl
  | loadNext t n nd hc hm hn =>
    rw [hc] at helements
    exact { h with elements := helements }
  | read t n nd hc hm =>
    rw [hc] at helements
    exact { h with elements := helements }
  | store t n r hc =>
    rw [hc] at helements
    exact { h with elements := helements }
  | free t r hc =>
    obtain ⟨-, hlive, -⟩ := hch.at_deleteTail hc
    rw [hc] at helements
    -- The node is still allocated, so this is its first deletion.
    have hnew : t ∉ s.freed := fun hm => hlive ((h.mem_freed t).mp hm).2
    refine { nodup := ?_, mem_freed := mem_freed_delete h.mem_freed (hch.lt t hlive),
             elements := ?_, deleted := h.deleted }
    · simpa [State.delete, State.returnTrue, List.nodup_append] using
        ⟨h.nodup, fun a ha heq => hnew (heq ▸ ha)⟩
    · rw [returned_returnTrue]
      show s.returned ++ [r] = _
      rw [helements]
      unfold State.returnTrue State.delete
      cases hd : s.dtor with
      | false => simp [ConsPc.output, h.deleted hd]
      | true => simp [ConsPc.output]
  | output output hc =>
    rw [hc] at helements
    refine { h with elements := ?_, deleted := fun hd => ?_ }
    · simpa [State.returned, ConsPc.output] using helements
    · rw [hch.at_deleteOutput hc] at hd
      cases hd
  | front hc =>
    have hlive := hch.live _ hch.chain.last_mem
    rw [hc] at helements
    have hnew : s.head ∉ s.freed := fun hm => hlive ((h.mem_freed _).mp hm).2
    refine { nodup := ?_, mem_freed := mem_freed_delete h.mem_freed (hch.lt _ hlive),
             elements := helements, deleted := h.deleted }
    simpa [State.delete, List.nodup_append] using ⟨h.nodup, fun a ha heq => hnew (heq ▸ ha)⟩
  | destroy hc hp =>
    rw [hc] at helements
    exact { h with elements := helements, deleted := fun hd => by cases hd }

/-- In every reachable state the history agrees with the memory. -/
theorem recorded_of_reachable {uninit : T} (h : Reachable uninit s) : Recorded s := by
  refine (h.invariant (fun s => Inv s ∧ Recorded s) ⟨inv_of_reachable .refl, ?_⟩ ?_).2
  · refine { nodup := List.nodup_nil, mem_freed := fun a => ?_, elements := rfl,
             deleted := fun _ => rfl }
    by_cases ha : a = 0
    · simp [State.init, ha]
    · simp only [State.init, List.not_mem_nil, false_iff, not_and]
      exact fun hlt => absurd (Nat.lt_one_iff.mp hlt) ha
  · rintro t a u ⟨ht, hrec⟩ heff
    rcases ht with ⟨c, done, pend, ht⟩ | ht
    · exact ⟨ht.step heff, hrec.step ht heff⟩
    · exact (ht.not_effect heff).elim

omit [DecidableEq P]

/-- How far the consumer is from the end of the destructor at its program point. -/
def ConsPc.rank : ConsPc T → ℕ
  | .idle => 0
  | .loadNext _ => 4
  | .readData _ _ => 3
  | .storeTail _ _ _ => 2
  | .deleteTail _ _ => 7
  | .deleteOutput _ => 6
  | .deleteFront => 1
  | .destroyed => 0

/-- How far the destructor is from its end: the values in the chain, and the program point. -/
def State.remaining (s : State P T) : ℕ :=
  8 * (s.exchanged.length - (s.returned.length + s.cons.inHand.length)) + s.cons.rank

/-- The values in the chain are those of the pending exchanges. -/
theorem Chained.length_pend {c : List NodeId} {done pend : List (Exchange P T)}
    (h : Chained s c done pend) :
    s.exchanged.length - (s.returned.length + s.cons.inHand.length) = pend.length := by
  have hlen := congrArg List.length h.values
  rw [List.length_map, List.length_append] at hlen
  rw [h.exchanged, List.length_append, ← hlen]
  omega

/-- The destructor always has a next step, and each step brings it nearer to its end. -/
theorem Chained.destructor_step {c : List NodeId} {done pend : List (Exchange P T)}
    (h : Chained s c done pend) (hd : s.dtor = true) :
    ∃ s', stepCons s = some s' ∧ s'.dtor = true ∧ s'.remaining < s.remaining := by
  have hlive := h.live
  cases hc : s.cons with
  | idle =>
    have hcons := h.cons
    simp only [ConsOk, hc, hd] at hcons
    cases hcons
  | loadNext t =>
    obtain rfl := h.at_loadNext hc
    obtain ⟨nd, hm⟩ := Option.ne_none_iff_exists'.mp (hlive _ h.chain.first_mem)
    cases hn : nd.next with
    | none =>
      refine ⟨s.returnFalse, by simp [stepCons, hc, hm, hn], hd, ?_⟩
      simp only [State.remaining, returned_returnFalse]
      simp [State.returnFalse, hd, hc, ConsPc.rank, ConsPc.inHand]
    | some n =>
      refine ⟨{ s with cons := .readData s.tail n }, by simp only [stepCons, hc, hm, hn], hd, ?_⟩
      simp [State.remaining, State.returned, hc, ConsPc.rank, ConsPc.inHand]
  | readData t n =>
    obtain ⟨rfl, hn⟩ := h.at_readData hc
    obtain ⟨nd, hm⟩ := Option.ne_none_iff_exists'.mp (hlive _ (h.chain.next_mem hn))
    refine ⟨{ s with cons := .storeTail s.tail n nd.data }, by simp only [stepCons, hc, hm], hd,
      ?_⟩
    simp [State.remaining, State.returned, hc, ConsPc.rank, ConsPc.inHand]
  | storeTail t n r =>
    refine ⟨{ s with tail := n, cons := .deleteTail t r }, by simp only [stepCons, hc], hd, ?_⟩
    have hlen := h.length_pend
    obtain ⟨c', done', pend', h'⟩ := h.store hc
    have hlen' := h'.length_pend
    simp only [State.remaining, State.returned, hc, ConsPc.rank, ConsPc.inHand,
      List.length_nil, List.length_singleton] at hlen hlen' ⊢
    -- The value that is taken out was in the chain.
    have hpos : 0 < pend.length := by
      obtain ⟨rfl, hn, -⟩ := h.at_storeTail hc
      obtain ⟨c'', rfl, -, hchain, -⟩ := h.chain.advance hn
      have := congrArg List.length h.nodes
      rw [List.length_map, List.tail_cons] at this
      rw [this]
      exact List.length_pos_of_mem hchain.first_mem
    omega
  | deleteTail t r =>
    refine ⟨(s.delete t).returnTrue r, by simp only [stepCons, hc], hd, ?_⟩
    simp only [State.remaining, returned_returnTrue]
    simp [State.returnTrue, State.delete, hd, hc, ConsPc.rank, ConsPc.inHand, State.returned]
  | deleteOutput r =>
    refine ⟨{ s with deleted := s.deleted ++ [r], cons := .loadNext s.tail },
      by simp only [stepCons, hc], hd, ?_⟩
    simp [State.remaining, State.returned, hc, ConsPc.rank, ConsPc.inHand]
  | deleteFront =>
    refine ⟨{ s.delete s.head with cons := .destroyed }, by simp only [stepCons, hc], hd, ?_⟩
    simp [State.remaining, State.returned, State.delete, hc, ConsPc.rank, ConsPc.inHand]
  | destroyed =>
    have hcons := h.cons
    simp [ConsOk, hc] at hcons

variable [DecidableEq P]

/-- The destructor ends. -/
theorem destructor_ends {uninit : T} (h : Reachable uninit s) (hd : s.dtor = true) :
    ∃ s', Lib.Reaches step (fun _ a => a = .cons) s s' ∧ s'.cons = .destroyed := by
  induction hk : s.remaining using Nat.strong_induction_on generalizing s with
  | _ k ih =>
    -- By strong induction on what remains: each step of the destructor makes it smaller.
    subst hk
    rcases inv_of_reachable h with ⟨c, done, pend, hs⟩ | hs
    · obtain ⟨t, hstep, hdt, hlt⟩ := hs.destructor_step hd
      have hok : Allowed s (.cons : Action P T) := trivial
      have hfirst : Lib.Reaches step (fun _ a => a = .cons) s t := .single rfl hstep
      obtain ⟨u, hu, hdes⟩ := ih _ hlt (h.tail hok hstep) hdt rfl
      exact ⟨u, hfirst.trans hu, hdes⟩
    · exact ⟨s, .refl, hs.cons⟩

/-- In the destructor no step changes what was enqueued or what the consumer has got. -/
theorem Effect.dtor_frame {s' : State P T} {c : List NodeId} {done pend : List (Exchange P T)}
    (heff : Effect s a s') (h : Chained s c done pend) (hd : s.dtor = true) :
    s'.dtor = true ∧ s'.exchanged = s.exchanged ∧ s'.delivered = s.delivered := by
  cases heff with
  | enter p input hd' =>
    rw [hd] at hd'
    cases hd'
  | exchange p node input hp =>
    rw [h.quiet hd p] at hp
    cases hp
  | free t r hc =>
    refine ⟨hd, rfl, ?_⟩
    simp [State.returnTrue, State.delete, hd]
  | destroy => exact ⟨rfl, rfl, rfl⟩
  | link | call | loadNull | loadNext | read | store | output | front => exact ⟨hd, rfl, rfl⟩

/-- The destructor deletes the values that were queued when it began, in order. -/
theorem destructor_deletes {uninit : T} {s' t : State P T} (h : Reachable uninit s)
    (hok : Allowed s (.destroy : Action P T)) (hstep : step s .destroy = some s')
    (hrun : Lib.Reaches step Allowed s' t) (hc : t.cons = .destroyed) : t.deleted = s.queued := by
  have hreach : ∀ u, Lib.Reaches step Allowed s' u → Reachable uninit u := fun u hu =>
    (h.tail hok hstep).trans hu
  have hbegin : s'.dtor = true ∧ s'.exchanged = s.exchanged ∧ s'.delivered = s.returned := by
    cases effect_of_step hok hstep with
    | destroy hidle hp =>
      have hd : s.dtor = false := by
        rcases inv_of_reachable h with ⟨c, done, pend, hs⟩ | hs
        · simpa [ConsOk, hidle] using hs.cons
        · rw [hs.cons] at hidle
          cases hidle
      have hrec := recorded_of_reachable h
      refine ⟨rfl, rfl, ?_⟩
      rw [hrec.elements, hrec.deleted hd, hidle]
      simp [ConsPc.output]
  have hend : t.dtor = true ∧ t.exchanged = s.exchanged ∧ t.delivered = s.returned := by
    refine hrun.invariant_of (I := fun u => u.dtor = true ∧ u.exchanged = s.exchanged ∧
      u.delivered = s.returned) hreach hbegin ?_
    rintro u a v hu ⟨hd, he, hdel⟩ hok' hstep'
    rcases inv_of_reachable hu with ⟨c, done, pend, hu⟩ | hu
    · obtain ⟨h1, h2, h3⟩ := (effect_of_step hok' hstep').dtor_frame hu hd
      exact ⟨h1, h2.trans he, h3.trans hdel⟩
    · exact (hu.not_effect (effect_of_step hok' hstep')).elim
  -- Nothing is exchanged or delivered in between: what the queue held is what was deleted.
  obtain ⟨-, hexchanged, hdelivered⟩ := hend
  have hrec := recorded_of_reachable (hreach t hrun)
  rcases inv_of_reachable (hreach t hrun) with ⟨c, done, pend, ht⟩ | ht
  · have hcons := ht.cons
    simp [ConsOk, hc] at hcons
  · have hall := ht.values
    rw [hrec.elements, hexchanged, hdelivered, hc] at hall
    rw [State.queued, hall]
    simp [ConsPc.output]

/-- After the destructor every node that was ever allocated has been deleted, once. -/
theorem destroyed_freed {uninit : T} (h : Reachable uninit s) (hc : s.cons = .destroyed) :
    s.freed.Nodup ∧ ∀ x < s.fresh, x ∈ s.freed := by
  have hrec := recorded_of_reachable h
  rcases inv_of_reachable h with ⟨c, done, pend, hs⟩ | hs
  · have hcons := hs.cons
    simp [ConsOk, hc] at hcons
  · exact ⟨hrec.nodup, fun x hx => (hrec.mem_freed x).mpr ⟨hx, hs.empty x⟩⟩

/-- A deleted node is not accessed again, and while the queue lives neither end points to it. -/
theorem deleted_untouched {uninit : T} (h : Reachable uninit s) {x : NodeId} (hx : x ∈ s.freed) :
    (s.cons ≠ .destroyed → s.head ≠ x ∧ s.tail ≠ x) ∧
      ∀ a, Allowed s a → x ∉ touches s a := by
  obtain ⟨hlt, hnone⟩ := ((recorded_of_reachable h).mem_freed x).mp hx
  rcases inv_of_reachable h with ⟨c, done, pend, hs⟩ | hs
  · refine ⟨fun _ => ⟨?_, ?_⟩, fun a _ hxa => ?_⟩
    · rintro rfl
      exact hs.live _ hs.chain.last_mem hnone
    · rintro rfl
      exact hs.live _ hs.chain.first_mem hnone
    · rcases hs.touches_live hxa with hlive | rfl
      · exact hlive hnone
      · exact absurd hlt (lt_irrefl _)
  · refine ⟨fun hne => absurd hs.cons hne, fun a hok => ?_⟩
    rw [hs.touches_eq_nil hok]
    exact List.not_mem_nil

/-- A step forgets no deletion. -/
theorem Effect.freed_mono {s' : State P T} (heff : Effect s a s') {x : NodeId}
    (hx : x ∈ s.freed) : x ∈ s'.freed := by
  cases heff with
  | free | front => exact List.mem_append_left _ hx
  | enter | exchange | link | call | loadNull | loadNext | read | store | output | destroy =>
    exact hx

/-- The step that destroys the queue leaves its ends. -/
theorem Chained.ends_of_destroyed {s' : State P T} {c : List NodeId}
    {done pend : List (Exchange P T)} (h : Chained s c done pend) (heff : Effect s a s')
    (hc : s'.cons = .destroyed) : s'.head = s.head ∧ s'.tail = s.tail := by
  cases heff with
  | exchange p node input hp =>
    have hcons := h.cons
    have hc' : s.cons = .destroyed := hc
    simp [ConsOk, hc'] at hcons
  | store t n r => cases hc
  | free t r =>
    unfold State.returnTrue at hc
    cases hd : s.dtor <;> simp [State.delete, hd] at hc
  | enter | link | call | loadNull | loadNext | read | output | front | destroy =>
    exact ⟨rfl, rfl⟩

/-- A node that `Dequeue` has deleted is out of the queue's reach in the rest of the run. -/
theorem deleted_forgotten {uninit : T} {s' t : State P T} (h : Reachable uninit s) {x : NodeId}
    {r : T} (hc : s.cons = .deleteTail x r) (hstep : step s .cons = some s')
    (hrun : Lib.Reaches step Allowed s' t) :
    t.head ≠ x ∧ t.tail ≠ x ∧ ∀ a, Allowed t a → x ∉ touches t a := by
  have hok : Allowed s (.cons : Action P T) := trivial
  have hreach : ∀ u, Lib.Reaches step Allowed s' u → Reachable uninit u := fun u hu =>
    (h.tail hok hstep).trans hu
  have hbegin : x ∈ s'.freed ∧ s'.cons ≠ .destroyed := by
    have hs' : s' = (s.delete x).returnTrue r := by
      simpa [step, stepCons, hc, eq_comm] using hstep
    subst hs'
    refine ⟨by simp [State.returnTrue, State.delete], ?_⟩
    unfold State.returnTrue
    cases hd : s.dtor <;> simp [State.delete, hd]
  have hends : x ∈ t.freed ∧ t.head ≠ x ∧ t.tail ≠ x := by
    refine hrun.invariant_of (I := fun u => x ∈ u.freed ∧ u.head ≠ x ∧ u.tail ≠ x) hreach
      ⟨hbegin.1, (deleted_untouched (hreach s' .refl) hbegin.1).1 hbegin.2⟩ ?_
    rintro u a v hu ⟨hx, hhead, htail⟩ hok' hstep'
    have heff := effect_of_step hok' hstep'
    have hxv := heff.freed_mono hx
    by_cases hv : v.cons = .destroyed
    · rcases inv_of_reachable hu with ⟨c, done, pend, hchain⟩ | hdes
      · obtain ⟨h1, h2⟩ := hchain.ends_of_destroyed heff hv
        exact ⟨hxv, h1 ▸ hhead, h2 ▸ htail⟩
      · exact (hdes.not_effect heff).elim
    · exact ⟨hxv, (deleted_untouched (Lib.Reaches.tail hu hok' hstep') hxv).1 hv⟩
  exact ⟨hends.2.1, hends.2.2, (deleted_untouched (hreach t hrun) hends.1).2⟩

end CPStudy.MPSCQueue.NonIntrusive
