import CPStudy.MPSCQueue.Intrusive.Fifo

/-!
# No access to a returned element of `MPSCQueueIntrusive`

Every element whose link a step loads or stores, and every element that `_head` or `_tail` points
to, belongs to the queue: its `Enqueue` has begun and no `Dequeue` has returned it. The destructor,
run when no `Enqueue` is in flight, ends, and deletes every element still in the queue, in order.
-/

namespace CPStudy.MPSCQueue.Intrusive

open Function (update)

variable {P T : Type*} {s s' : State P T} {a : Action P T} {c : List (Ptr T)}

/-- The elements not yet returned, in the order of their exchanges. -/
def State.queued (s : State P T) : List (Ptr T) := s.elements.drop s.returned.length

/-- The element that the destructor has dequeued and not yet deleted. -/
def DequeuePc.output : DequeuePc T → List (Ptr T)
  | .deleteOutput output => [output]
  | _ => []

/-- No element is queued twice. -/
theorem queued_nodup [DecidableEq P] [DecidableEq T] (h : Reachable s) : s.queued.Nodup := by
  obtain ⟨c, hs⟩ := chained_of_reachable h
  have hqueued : s.queued = elems c := by
    rw [State.queued, hs.elements, List.drop_left]
  rw [hqueued, elems]
  -- The chain is without repetition, and different elements are different pointers.
  have helem : (c.filterMap Ptr.elem?).Nodup := by
    refine hs.chain.nodup.filterMap fun a b x ha hb => ?_
    cases a with
    | dummy => cases ha
    | elem y =>
      cases b with
      | dummy => cases hb
      | elem z =>
        cases ha
        cases hb
        rfl
  exact helem.map fun _ _ h => Ptr.elem.inj h

/-- An element that `_head` or `_tail` points to belongs to the queue. -/
theorem Chained.ends_owned (h : Chained s c) {x : T} (hx : s.head = .elem x ∨ s.tail = .elem x) :
    s.owned x = true := by
  rcases hx with hx | hx
  · exact h.owned x (hx ▸ h.chain.last_mem)
  · exact h.owned x (hx ▸ h.chain.first_mem)

/-- An element whose link the next step of any thread accesses belongs to the queue. -/
theorem Chained.touches_owned (h : Chained s c) {x : T} (hx : .elem x ∈ touches s a) :
    s.owned x = true := by
  have htail : ∀ t, t = s.tail → .elem x ∈ [t] → s.owned x = true := by
    rintro t rfl hx
    exact h.ends_owned (.inr (List.mem_singleton.mp hx).symm)
  cases a with
  | prod p =>
    simp only [touches] at hx
    cases hp : s.prod p with
    -- A producer's element is its own until the exchange.
    | reset i =>
      rw [hp] at hx
      obtain rfl := List.mem_singleton.mp hx
      obtain ⟨-, y, hy, hown⟩ := h.apart p (.elem x) (by rw [hp]; rfl)
      cases hy
      exact hown
    -- The old head is in the chain, with its link to come.
    | link prevHead i =>
      rw [hp] at hx
      obtain rfl := List.mem_singleton.mp hx
      exact h.owned x (h.chain.pending _ _ (.inl ⟨p, hp⟩)).1.mem_left
    | idle | exchange => simp [hp, EnqueuePc.touches] at hx
  | cons =>
    simp only [touches] at hx
    split at hx
    case h_1 t hc => exact htail t (h.at_loadNext hc) hx
    case h_2 t hc => exact htail t (h.at_loadSkipped hc).1 hx
    -- The consumer enqueues the dummy, which is no element.
    case h_3 t pc hc =>
      cases pc with
      | reset i =>
        obtain ⟨-, -, rfl, -⟩ := h.at_ownReset hc
        simp [EnqueuePc.touches] at hx
      | link prevHead i =>
        obtain rfl := List.mem_singleton.mp hx
        exact h.owned x (h.chain.pending _ _ (.inr ⟨t, hc⟩)).1.mem_left
      | idle | exchange => simp [EnqueuePc.touches] at hx
    case h_4 t hc => exact htail t (h.at_reload hc).1 hx
    case h_5 => cases hx
  | enqueue | dequeue | destroy => cases hx

/-- The history of the destructor: what `Dequeue` has returned went to the consumer or to the
destructor, which deletes each element before it goes on, and ends when the queue is empty. -/
structure Recorded (s : State P T) : Prop where
  /-- Every element returned was handed to the consumer or deleted by the destructor. -/
  returned : s.returned = s.delivered ++ s.deleted ++ s.cons.output
  /-- The destructor deletes nothing before it begins. -/
  deleted : s.dtor = false → s.deleted = []
  /-- In the destructor no producer takes the consumer by surprise. -/
  steady : s.dtor = true → Steady s
  /-- The destructor ends with an empty queue. -/
  ending : s.cons = .destroyed → s.elements = s.returned

variable [DecidableEq P] [DecidableEq T]

/-- A step other than an `Enqueue` of the element does not make it the queue's. -/
theorem Effect.owned_eq_false (heff : Effect s a s') {x : T} (ha : ∀ p, a ≠ .enqueue p x)
    (hx : s.owned x = false) : s'.owned x = false := by
  cases heff with
  | enter p input hd ho hp =>
    have hne : x ≠ input := by
      rintro rfl
      exact ha p rfl
    simpa [hne] using hx
  | store t n hc =>
    show release s.owned t x = false
    cases t with
    | dummy => exact hx
    | elem y =>
      by_cases hxy : x = y
      · simp [release, hxy]
      · simpa [release, hxy] using hx
  | reset | exchange | link | call | dummyNull | dummyNext | skip | loadNull | loadNext | headEq
  | headNe | ownReset | ownExchange | ownLink | reloadNull | output | destroy => exact hx

/-- What a `Dequeue` has returned no longer belongs to the queue. -/
theorem Effect.returned_owned (heff : Effect s a s') {x : T}
    (hout : s'.outcomes = s.outcomes ++ [some (.elem x)]) : s'.owned x = false := by
  cases heff with
  | store t n hc =>
    have ht : t = .elem x := by simpa [State.returnTrue] using hout
    simp [State.returnTrue, ht, release]
  | dummyNull | headNe | reloadNull => simp [State.returnFalse] at hout
  | enter | reset | exchange | link | call | dummyNext | skip | loadNull | loadNext | headEq
  | ownReset | ownExchange | ownLink | output | destroy => simp at hout

/-- A `Dequeue` returns an element, never the dummy. -/
theorem Chained.returned_elem (h : Chained s c) (heff : Effect s a s') {r : Ptr T}
    (hout : s'.outcomes = s.outcomes ++ [some r]) : ∃ x, r = .elem x := by
  cases heff with
  | store t n hc =>
    obtain rfl : t = r := by simpa [State.returnTrue] using hout
    exact Ptr.exists_elem (h.at_storeTail hc).2.1
  | dummyNull | headNe | reloadNull => simp [State.returnFalse] at hout
  | enter | reset | exchange | link | call | dummyNext | skip | loadNull | loadNext | headEq
  | ownReset | ownExchange | ownLink | output | destroy => simp at hout

/-- An element that does not belong to the queue is out of its reach until it is enqueued again. -/
theorem released_untouched (h : Reachable s) {x : T} (hx : s.owned x = false)
    (hrun : Lib.Reaches step (fun s a => Allowed s a ∧ ∀ p, a ≠ .enqueue p x) s s') :
    s'.head ≠ .elem x ∧ s'.tail ≠ .elem x ∧ ∀ a, .elem x ∉ touches s' a := by
  have hreach : Reachable s' := by
    obtain ⟨link, hs⟩ := h
    exact ⟨link, hs.trans (hrun.mono fun _ _ hok => hok.1)⟩
  have hfree : s'.owned x = false :=
    hrun.invariant (I := fun u => u.owned x = false) hx fun t a u ht hok hstep =>
      (effect_of_step hok.1 hstep).owned_eq_false hok.2 ht
  obtain ⟨c, hs⟩ := chained_of_reachable hreach
  have hno : s'.owned x ≠ true := by simp [hfree]
  exact ⟨fun heq => hno (hs.ends_owned (.inl heq)), fun heq => hno (hs.ends_owned (.inr heq)),
    fun a ha => hno (hs.touches_owned ha)⟩

/-- A return of `false` keeps the history; in the destructor it finds the queue empty. -/
theorem Recorded.returnFalse (h : Recorded s) (hch : Chained s c) (heff : Effect s a s.returnFalse)
    (hc : s.cons.output = []) : Recorded s.returnFalse where
  returned := by
    have hreturned := h.returned
    rw [hc] at hreturned
    rw [returned_returnFalse, hreturned]
    unfold State.returnFalse
    cases s.dtor <;> rfl
  deleted := h.deleted
  steady := fun _ => by
    unfold Steady State.returnFalse
    cases s.dtor <;> simp
  ending := fun hdes => by
    have hd : s.dtor = true := by
      by_contra hne
      simp [State.returnFalse, hne] at hdes
    have hq : ¬s.Linking := by
      rintro ⟨p, a, b, hp⟩
      rw [hch.quiet hd p] at hp
      cases hp
    have hsingle := hch.empty_of_false (h.steady hd) hq heff rfl
    rw [returned_returnFalse]
    show s.elements = s.returned
    rw [hch.elements, hsingle]
    simp

/-- Every step keeps the history. -/
theorem Recorded.step (h : Recorded s) (hch : Chained s c) (heff : Effect s a s') :
    Recorded s' := by
  -- The destructor's loop goes on with no `Enqueue` between its exchange and its link anywhere.
  have hsteady : s'.dtor = true → s.dtor = true → Steady s' := by
    intro hd' hd
    obtain ⟨c', hch'⟩ := hch.step heff
    refine (h.steady hd).step hch ?_ ?_ heff
    · rintro ⟨p, a, b, hp⟩
      rw [hch.quiet hd p] at hp
      cases hp
    · rintro ⟨p, a, b, hp⟩
      rw [hch'.quiet hd' p] at hp
      cases hp
  have hreturned := h.returned
  have hending := h.ending
  cases heff with
  | enter p input hd ho hp =>
    exact { h with steady := fun hd' => absurd (hd.symm.trans hd') (by simp) }
  | reset | link => exact { h with steady := fun hd => hsteady hd hd }
  | exchange p input hp =>
    refine { h with steady := fun hd => hsteady hd hd, ending := fun hdes => ?_ }
    rw [hch.quiet (hch.at_destroyed hdes) p] at hp
    cases hp
  -- The three returns of `false`.
  | dummyNull hc hn => exact h.returnFalse hch (.dummyNull hc hn) (by rw [hc]; rfl)
  | headNe t hc hne => exact h.returnFalse hch (.headNe t hc hne) (by rw [hc]; rfl)
  | reloadNull t hc hn => exact h.returnFalse hch (.reloadNull t hc hn) (by rw [hc]; rfl)
  | loadNull t hc hn =>
    refine { h with steady := fun hd => hsteady hd hd, returned := ?_, ending := by simp }
    rcases hc with ⟨hc, -⟩ | hc <;> rw [hc] at hreturned <;> exact hreturned
  | loadNext t n hc hn =>
    refine { h with steady := fun hd => hsteady hd hd, returned := ?_, ending := by simp }
    rcases hc with ⟨hc, -⟩ | hc | hc <;> rw [hc] at hreturned <;> exact hreturned
  | call hc | dummyNext n hc | skip n hc | headEq hc | ownReset t i hc | ownExchange t i hc
  | ownLink t prevHead i hc =>
    rw [hc] at hreturned
    exact { h with steady := fun hd => hsteady hd hd, returned := hreturned, ending := by simp }
  -- An element is returned: before the destructor to the caller, in it to be deleted.
  | store t n hc =>
    rw [hc] at hreturned
    refine { returned := ?_, deleted := h.deleted, steady := fun hd => hsteady hd hd,
             ending := fun hdes => ?_ }
    · unfold State.returnTrue State.returned at *
      cases hd : s.dtor with
      | false => simp_all [List.reduceOption_append, List.reduceOption_singleton,
          DequeuePc.output, h.deleted hd]
      | true => simp_all [List.reduceOption_append, List.reduceOption_singleton,
          DequeuePc.output]
    · unfold State.returnTrue at hdes
      cases hd : s.dtor <;> simp [hd] at hdes
  | output output hc =>
    rw [hc] at hreturned
    have hd : s.dtor = true := by simpa [ConsOk, hc] using hch.cons
    refine { h with steady := fun hd => hsteady hd hd, returned := ?_, ending := by simp,
                    deleted := fun hd' => ?_ }
    · simpa [State.returned, DequeuePc.output] using hreturned
    · rw [hd] at hd'
      cases hd'
  | destroy hc hp =>
    rw [hc] at hreturned
    exact { h with steady := fun _ => trivial, returned := hreturned, ending := by simp,
                   deleted := by simp }

/-- The history of every reachable queue is kept. -/
theorem recorded_of_reachable (h : Reachable s) : Recorded s := by
  refine (h.invariant (fun s => (∃ c, Chained s c) ∧ Recorded s)
    (fun link => ⟨chained_of_reachable ⟨link, .refl⟩, ?_⟩) ?_).2
  · exact
      { returned := rfl
        deleted := fun _ => rfl
        steady := fun hd => by cases hd
        ending := fun hc => by cases hc }
  · rintro t a u ⟨⟨c, ht⟩, hrec⟩ heff
    exact ⟨ht.step heff, hrec.step ht heff⟩

/-- In the destructor no step changes what was enqueued or what the consumer has got. -/
theorem Effect.dtor_frame (heff : Effect s a s') (h : Chained s c) (hd : s.dtor = true) :
    s'.dtor = true ∧ s'.elements = s.elements ∧ s'.delivered = s.delivered := by
  have hquiet := h.quiet hd
  cases heff with
  | enter p input hd' =>
    rw [hd] at hd'
    cases hd'
  | exchange p input hp =>
    rw [hquiet p] at hp
    cases hp
  | call hc =>
    have hd' : s.dtor = false := by simpa [ConsOk, hc] using h.cons
    rw [hd] at hd'
    cases hd'
  | ownExchange t i hc =>
    obtain ⟨-, -, rfl, -⟩ := h.at_ownExchange hc
    refine ⟨hd, ?_, rfl⟩
    simp [State.elements, Ptr.elem?]
  | store t n hc =>
    refine ⟨hd, rfl, ?_⟩
    simp [State.returnTrue, hd]
  | destroy => exact ⟨rfl, rfl, rfl⟩
  | reset | link | dummyNull | dummyNext | skip | loadNull | loadNext | headEq | headNe
  | ownReset | ownLink | reloadNull | output => exact ⟨hd, rfl, rfl⟩

/-- How far the consumer is from the end of the destructor at its program point. -/
def DequeuePc.rank : DequeuePc T → ℕ
  | .idle => 0
  | .deleteOutput _ => 11
  | .loadNext _ => 10
  | .skipDummy _ => 9
  | .loadSkipped _ => 8
  | .loadHead _ => 7
  | .enqueue _ (.reset _) => 6
  | .enqueue _ (.exchange _) => 5
  | .enqueue _ _ => 4
  | .reload _ => 3
  | .storeTail _ _ => 2
  | .destroyed => 0

/-- How far the destructor is from its end: the elements in the chain, and the program point. -/
def State.remaining (s : State P T) : ℕ :=
  10 * (s.elements.length - s.returned.length) + s.cons.rank

/-- Each step of the destructor brings it nearer to its end. -/
theorem Effect.remaining_lt (heff : Effect s .cons s') (h : Chained s c) (hd : s.dtor = true) :
    s'.remaining < s.remaining := by
  have hframe := (heff.dtor_frame h hd).2.1
  unfold State.remaining
  rw [hframe]
  cases heff with
  | dummyNull hc hn =>
    rw [returned_returnFalse]
    simp [State.returnFalse, hd, hc, DequeuePc.rank]
  | headNe t hc hne =>
    rw [returned_returnFalse]
    simp [State.returnFalse, hd, hc, DequeuePc.rank]
  | reloadNull t hc hn =>
    rw [returned_returnFalse]
    simp [State.returnFalse, hd, hc, DequeuePc.rank]
  | loadNull t hc hn =>
    rcases hc with ⟨hc, -⟩ | hc <;> simp [hc, DequeuePc.rank, State.returned]
  | loadNext t n hc hn =>
    rcases hc with ⟨hc, -⟩ | hc | hc <;> simp [hc, DequeuePc.rank, State.returned]
  | store t n hc =>
    -- The element that is returned was in the chain.
    have hlen : s.returned.length < s.elements.length := by
      obtain ⟨c', rfl, -⟩ := h.store hc
      obtain ⟨x, rfl⟩ := Ptr.exists_elem (h.at_storeTail hc).2.1
      simp [h.elements]
    simp only [State.returned, State.returnTrue, hd, hc, DequeuePc.rank,
      List.reduceOption_append, List.reduceOption_singleton, List.length_append] at hlen ⊢
    simp only [Option.toList_some, List.length_singleton, if_true]
    omega
  | dummyNext n hc | skip n hc | headEq hc | ownReset t i hc | ownExchange t i hc
  | ownLink t prevHead i hc | output output hc =>
    simp [hc, DequeuePc.rank, State.returned]

omit [DecidableEq P] in
/-- The destructor always has a next step. -/
theorem Chained.cons_enabled (h : Chained s c) (hd : s.dtor = true)
    (hne : s.cons ≠ .destroyed) : ∃ s', stepCons s = some s' := by
  have hcons := h.cons
  refine Option.isSome_iff_exists.mp ?_
  unfold stepCons
  cases hc : s.cons with
  | idle =>
    simp only [ConsOk, hc, hd] at hcons
    cases hcons
  | loadNext t =>
    dsimp only
    split <;> split <;> rfl
  | loadSkipped t | loadHead t | reload t =>
    dsimp only
    split <;> rfl
  | enqueue t pc =>
    cases pc with
    | idle => simp [ConsOk, hc] at hcons
    | reset | exchange | link => rfl
  | skipDummy n | storeTail t n | deleteOutput output => rfl
  | destroyed => exact absurd hc hne

/-- The destructor ends. -/
theorem destructor_ends (h : Reachable s) (hd : s.dtor = true) :
    ∃ s', Lib.Reaches step (fun _ a => a = .cons) s s' ∧ s'.cons = .destroyed := by
  induction hk : s.remaining using Nat.strong_induction_on generalizing s with
  | _ k ih =>
    subst hk
    by_cases hc : s.cons = .destroyed
    · exact ⟨s, .refl, hc⟩
    · obtain ⟨c, hs⟩ := chained_of_reachable h
      obtain ⟨t, hstep⟩ := hs.cons_enabled hd hc
      have hok : Allowed s (.cons : Action P T) := trivial
      have heff : Effect s .cons t := effect_of_step hok hstep
      have hfirst : Lib.Reaches step (fun _ a => a = .cons) s t := .single rfl hstep
      have ht : Reachable t := by
        obtain ⟨link, hs⟩ := h
        exact ⟨link, hs.tail hok hstep⟩
      obtain ⟨u, hu, hdes⟩ := ih _ (heff.remaining_lt hs hd) ht (heff.dtor_frame hs hd).1 rfl
      exact ⟨u, hfirst.trans hu, hdes⟩

/-- The destructor deletes the elements that were queued when it began, in order. -/
theorem destructor_deletes (h : Reachable s) (hok : Allowed s (.destroy : Action P T))
    (hstep : step s .destroy = some s') {t : State P T}
    (hrun : Lib.Reaches step Allowed s' t) (hc : t.cons = .destroyed) : t.deleted = s.queued := by
  have hreach : ∀ u, Lib.Reaches step Allowed s' u → Reachable u := by
    obtain ⟨link, hs⟩ := h
    exact fun u hu => ⟨link, (hs.tail hok hstep).trans hu⟩
  have hbegin : s'.dtor = true ∧ s'.elements = s.elements ∧ s'.delivered = s.returned := by
    cases effect_of_step hok hstep with
    | destroy hidle hp =>
      obtain ⟨c, hs⟩ := chained_of_reachable h
      have hd : s.dtor = false := by simpa [ConsOk, hidle] using hs.cons
      have hrec := recorded_of_reachable h
      refine ⟨rfl, rfl, ?_⟩
      rw [hrec.returned, hrec.deleted hd, hidle]
      simp [DequeuePc.output]
  -- In the destructor nothing is enqueued and nothing delivered, so the histories stay.
  have hend : t.dtor = true ∧ t.elements = s.elements ∧ t.delivered = s.returned := by
    refine hrun.invariant_of (I := fun u => u.dtor = true ∧ u.elements = s.elements ∧
      u.delivered = s.returned) hreach hbegin ?_
    rintro u a v hu ⟨hd, he, hdel⟩ hok' hstep'
    obtain ⟨c, hu⟩ := chained_of_reachable hu
    obtain ⟨h1, h2, h3⟩ := (effect_of_step hok' hstep').dtor_frame hu hd
    exact ⟨h1, h2.trans he, h3.trans hdel⟩
  obtain ⟨-, helements, hdelivered⟩ := hend
  have hrec := recorded_of_reachable (hreach t hrun)
  have hall := hrec.ending hc
  rw [hrec.returned, helements, hdelivered, hc] at hall
  rw [State.queued, hall]
  simp [DequeuePc.output]

end CPStudy.MPSCQueue.Intrusive
