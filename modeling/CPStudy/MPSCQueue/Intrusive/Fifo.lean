import CPStudy.MPSCQueue.Intrusive.Chain

/-!
# `MPSCQueueIntrusive` is a FIFO queue

The elements that `Dequeue` has returned are a prefix of the elements in the order of the
exchanges; the dummy is never returned and stands at most once in the chain. `Dequeue` returns
`false` only if at some moment of the call the queue held no element or a producer was between its
exchange and its store of the link: without such a moment the call keeps `Steady`, the knowledge
that the element found at the tail is still the whole queue. A `Dequeue` that finds the link of the
next element stored returns it by its own steps.
-/

namespace CPStudy.MPSCQueue.Intrusive

open Function (update)

variable {P T : Type*} {s s' : State P T} {a : Action P T} {c : List (Ptr T)}

/-- The pointers of the list lead from `_tail` to `_head`, each one's link to the next stored or
about to be stored. -/
structure State.IsQueue (s : State P T) (c : List (Ptr T)) : Prop where
  /-- The first pointer is the tail. -/
  head : c.head? = some s.tail
  /-- The last pointer is the head. -/
  getLast : c.getLast? = some s.head
  /-- Each link is stored, or its `Enqueue` is before the store. -/
  links : c.IsChain fun a b => s.link a = some b ∨ s.Announced a b

/-- Some producer is between its exchange and its store of the link. -/
def State.Linking (s : State P T) : Prop := ∃ p a b, s.prod p = .link a b

/-- A moment that lets a `Dequeue` return `false`: the queue holds no element, or some producer is
between its exchange and its store of the link. -/
def State.Gap (s : State P T) : Prop := s.returned = s.elements ∨ s.Linking

/-- What a `Dequeue` during which no producer was between its exchange and its store knows of the
end of the chain. -/
def Steady (s : State P T) : Prop :=
  match s.cons with
  | .loadHead t => s.head = t
  | .enqueue t (.reset _) => s.head = t
  | .enqueue t (.exchange _) => s.head = t
  | .enqueue t (.link prevHead _) => prevHead = t
  | .reload t => s.link t ≠ none
  | _ => True

/-- The pointers of the shape are those from the tail to the head. -/
theorem Chained.isQueue (h : Chained s c) : s.IsQueue c where
  head := h.chain.head
  getLast := h.chain.getLast
  links := (List.isChain_isInfix c).imp fun a b hab => h.chain.edge a b hab

/-- There is no other way from the tail to the head. -/
theorem Chained.eq_of_isQueue (h : Chained s c) {c' : List (Ptr T)} (h' : s.IsQueue c') :
    c' = c :=
  h.chain.unique h'.head h'.getLast h'.links

/-- An element at the tail without a link is the whole queue, where no link is announced. -/
theorem Chained.head_eq_tail (h : Chained s c) (hq : ¬s.Linking)
    (hc : ∀ t a b, s.cons ≠ .enqueue t (.link a b)) (hn : s.link s.tail = none) :
    c = [s.tail] ∧ s.head = s.tail := by
  rcases h.chain.stuck hn with ⟨hsingle, heq⟩ | ⟨y, c', -, ⟨p, hp⟩ | ⟨t, ht⟩⟩
  · exact ⟨hsingle, heq.symm⟩
  · exact absurd ⟨p, _, _, hp⟩ hq
  · exact absurd ht (hc _ _ _)

variable [DecidableEq P] [DecidableEq T]

/-- A step between two moments without a producer before its store keeps the knowledge. -/
theorem Steady.step (hs : Steady s) (h : Chained s c) (hq : ¬s.Linking) (hq' : ¬s'.Linking)
    (heff : Effect s a s') : Steady s' := by
  cases heff with
  | enter => exact hs
  | reset p input hp =>
    have hin : (s.prod p).input? = some input := by rw [hp]; rfl
    -- The input is outside the chain, of which the consumer holds the first element.
    have hne : ∀ t, s.cons = .reload t → t ≠ input := by
      rintro t hc rfl
      obtain ⟨rfl, -⟩ := h.at_reload hc
      exact (h.apart p _ hin).1 h.chain.first_mem
    unfold Steady at *
    dsimp only
    split <;> grind
  | exchange p input hp => exact absurd ⟨p, s.head, input, by simp⟩ hq'
  | link p prevHead input hp => exact absurd ⟨p, prevHead, input, hp⟩ hq
  | loadNull t hc hn =>
    have ht : t = s.tail := by
      rcases hc with ⟨hc, -⟩ | hc
      · exact h.at_loadNext hc
      · exact (h.at_loadSkipped hc).1
    subst ht
    exact (h.head_eq_tail hq (by rcases hc with ⟨hc, -⟩ | hc <;> simp [hc]) hn).2
  | headEq hc => rfl
  | ownReset t i hc => simpa [Steady, hc] using hs
  | ownExchange t i hc => simpa [Steady, hc] using hs
  | ownLink t prevHead i hc =>
    obtain rfl : prevHead = t := by simpa [Steady, hc] using hs
    simp [Steady]
  | dummyNull | headNe | reloadNull =>
    unfold Steady State.returnFalse
    cases s.dtor <;> simp
  | store =>
    unfold Steady State.returnTrue
    cases s.dtor <;> simp
  | call | dummyNext | skip | loadNext | output | destroy => trivial

/-- A step that makes `Dequeue` return `false` with this knowledge finds no element in the
queue. -/
theorem Chained.empty_of_false (h : Chained s c) (hs : Steady s) (hq : ¬s.Linking)
    (heff : Effect s a s') (hout : s'.outcomes = s.outcomes ++ [none]) :
    c = [.dummy] := by
  have hne : s.outcomes ≠ s.outcomes ++ [none] := fun heq => by
    simpa using congrArg List.length heq
  cases heff with
  | dummyNull hc hn =>
    have ht := h.at_loadNext hc
    rw [ht] at hn ⊢
    exact (h.head_eq_tail hq (by simp [hc]) hn).1
  | headNe t hc hne' =>
    have : s.head = t := by simpa [Steady, hc] using hs
    exact absurd this.symm hne'
  | reloadNull t hc hn =>
    have : s.link t ≠ none := by simpa [Steady, hc] using hs
    exact absurd hn this
  | store t n hc => simp [State.returnTrue] at hout
  | enter | reset | exchange | link | call | dummyNext | skip | loadNull | loadNext | headEq
  | ownReset | ownExchange | ownLink | output | destroy => exact absurd hout hne

/-- A call that meets no moment of the kind keeps the knowledge. -/
theorem steady_of_call (h : Reachable s) {t : Ptr T} (hc : s.cons = .loadNext t)
    (hrun : Lib.Reaches step (fun s a => Allowed s a ∧ ¬s.Gap) s s') (hgap : ¬s'.Gap) :
    Reachable s' ∧ Steady s' := by
  have hreach : ∀ u, Lib.Reaches step (fun s a => Allowed s a ∧ ¬s.Gap) s u → Reachable u := by
    obtain ⟨link, hs⟩ := h
    exact fun u hu => ⟨link, hs.trans (hu.mono fun _ _ hok => hok.1)⟩
  refine ⟨hreach _ hrun, ?_⟩
  refine hrun.invariant_of (I := fun u => ¬u.Gap → Steady u) hreach
    (fun _ => by simp [Steady, hc]) (fun u a v hu hsteady hok hstep hv => ?_) hgap
  obtain ⟨d, hd⟩ := chained_of_reachable hu
  exact (hsteady hok.2).step hd (fun hl => hok.2 (.inr hl)) (fun hl => hv (.inr hl))
    (effect_of_step hok.1 hstep)

/-! ## A `Dequeue` that finds its element linked -/

omit [DecidableEq P] [DecidableEq T] in
/-- The link behind the pointer is stored, or the queue ends there. -/
def State.Linked (s : State P T) (t : Ptr T) : Prop := s.link t ≠ none ∨ s.head = t

/-- The next element is linked: it is at the tail, or behind the dummy there. -/
def State.NextLinked (s : State P T) : Prop :=
  if s.tail = .dummy then ∃ next, s.link .dummy = some next ∧ s.Linked next else s.Linked s.tail

/-- Where the consumer has found the link of an element it returns the element. -/
theorem returns_of_link {t n : Ptr T} (hc : s.cons = .loadNext t ∧ t ≠ .dummy ∨
    s.cons = .loadSkipped t ∨ s.cons = .reload t) (hn : s.link t = some n) :
    ∃ s', Lib.Reaches step (fun _ a => a = .cons) s s' ∧ s'.outcomes = s.outcomes ++ [some t] := by
  have hload : step s .cons = some { s with cons := .storeTail t n } := by
    rcases hc with ⟨hc, hne⟩ | hc | hc
    · simp only [step, stepCons, hc, hn, if_neg hne]
    · simp only [step, stepCons, hc, hn]
    · simp only [step, stepCons, hc, hn]
  have hstore : step { s with cons := .storeTail t n } .cons =
      some (State.returnTrue { s with tail := n } t) := rfl
  have hrun : Lib.Reaches step (fun _ a => a = .cons) s { s with cons := .storeTail t n } :=
    .single rfl hload
  exact ⟨_, hrun.tail rfl hstore, rfl⟩

/-- Where the element is the last one the consumer enqueues the dummy behind it and returns it. -/
theorem returns_of_head {t : Ptr T} (hc : s.cons = .loadNext t ∧ t ≠ .dummy ∨
    s.cons = .loadSkipped t) (hn : s.link t = none) (hhead : s.head = t) :
    ∃ s', Lib.Reaches step (fun _ a => a = .cons) s s' ∧ s'.outcomes = s.outcomes ++ [some t] := by
  subst hhead
  have hload : step s .cons = some { s with cons := .loadHead s.head } := by
    rcases hc with ⟨hc, hne⟩ | hc
    · simp only [step, stepCons, hc, hn, if_neg hne]
    · simp only [step, stepCons, hc, hn]
  have hequal : step { s with cons := .loadHead s.head } .cons =
      some { s with cons := .enqueue s.head (.reset .dummy) } := by
    simp only [step, stepCons, if_true]
  have hload' : Lib.Reaches step (fun _ a => a = .cons) s { s with cons := .loadHead s.head } :=
    .single rfl hload
  -- `Enqueue` of the dummy: its reset, its exchange, and its store of the link of the old head.
  let reset : State P T := { s with
    link := update s.link .dummy none
    cons := .enqueue s.head (.exchange .dummy) }
  let exchanged : State P T := { reset with
    head := .dummy
    exchanged := s.exchanged ++ [.dummy]
    cons := .enqueue s.head (.link s.head .dummy) }
  let linked : State P T := { exchanged with
    link := update reset.link s.head (some .dummy)
    cons := .reload s.head }
  have hreset : step { s with cons := .enqueue s.head (.reset .dummy) } .cons = some reset := rfl
  have hexchange : step reset .cons = some exchanged := rfl
  have hlink : step exchanged .cons = some linked := rfl
  have hrun : Lib.Reaches step (fun _ a => a = .cons) s linked :=
    (((hload'.tail rfl hequal).tail rfl hreset).tail rfl hexchange).tail rfl hlink
  have hfound : linked.link s.head = some .dummy := Function.update_self ..
  obtain ⟨s', hrun', hout⟩ := returns_of_link (.inr (.inr rfl)) hfound
  exact ⟨s', hrun.trans hrun', hout⟩

/-- A `Dequeue` that nobody disturbs returns the element whose link is stored. -/
theorem dequeue_returns (hc : s.cons = .loadNext s.tail) (h : s.NextLinked) :
    ∃ s' x, Lib.Reaches step (fun _ a => a = .cons) s s' ∧
      s'.outcomes = s.outcomes ++ [some x] := by
  -- From the element on, whichever way the consumer has come there.
  have hfrom : ∀ {u : State P T} {t : Ptr T}, u.cons = .loadNext t ∧ t ≠ .dummy ∨
      u.cons = .loadSkipped t → u.Linked t →
      ∃ u', Lib.Reaches step (fun _ a => a = .cons) u u' ∧
        u'.outcomes = u.outcomes ++ [some t] := by
    intro u t hu hlinked
    cases hn : u.link t with
    | some n => exact returns_of_link (hu.imp_right .inl) hn
    | none => exact returns_of_head hu hn (hlinked.resolve_left fun hne => hne hn)
  unfold State.NextLinked at h
  split at h
  case isTrue htail =>
    obtain ⟨next, hnext, hlinked⟩ := h
    have hload : step s .cons = some { s with cons := .skipDummy next } := by
      simp only [step, stepCons, hc, htail, hnext, if_true]
    have hskip : step { s with cons := .skipDummy next } .cons =
        some { s with tail := next, cons := .loadSkipped next } := rfl
    obtain ⟨s', hrun, hout⟩ :=
      hfrom (u := { s with tail := next, cons := .loadSkipped next }) (.inr rfl) hlinked
    have hload' : Lib.Reaches step (fun _ a => a = .cons) s { s with cons := .skipDummy next } :=
      .single rfl hload
    exact ⟨s', next, (hload'.tail rfl hskip).trans hrun, hout⟩
  case isFalse htail =>
    obtain ⟨s', hrun, hout⟩ := hfrom (.inl ⟨hc, htail⟩) h
    exact ⟨s', s.tail, hrun, hout⟩

omit [DecidableEq P] in
/-- The next element is linked where the queue holds one and no producer is before its store. -/
theorem Chained.nextLinked (h : Chained s c) (hc : s.cons = .loadNext s.tail) (hgap : ¬s.Gap) :
    s.NextLinked := by
  have hq : ¬s.Linking := fun hl => hgap (.inr hl)
  have hown : ∀ t a b, s.cons ≠ .enqueue t (.link a b) := fun t a b hcons => by
    rw [hc] at hcons
    cases hcons
  unfold State.NextLinked
  split
  case isTrue htail =>
    cases hn : s.link .dummy with
    | none =>
      -- The dummy alone would be an empty queue.
      obtain ⟨hsingle, -⟩ := h.head_eq_tail hq hown (htail ▸ hn)
      refine absurd (.inl ?_) hgap
      rw [h.elements, hsingle, htail]
      simp
    | some next =>
      refine ⟨next, rfl, ?_⟩
      obtain ⟨c', -, -, hchain, -⟩ := h.chain.advance (htail ▸ hn)
      by_cases hnone : s.link next = none
      · rcases hchain.stuck hnone with ⟨-, heq⟩ | ⟨y, c'', -, ⟨p, hp⟩ | ⟨t, ht⟩⟩
        · exact .inr heq.symm
        · exact absurd ⟨p, _, _, hp⟩ hq
        · exact absurd ht (hown _ _ _)
      · exact .inl hnone
  case isFalse =>
    by_cases hnone : s.link s.tail = none
    · exact .inr (h.head_eq_tail hq hown hnone).2
    · exact .inl hnone

/-- What was returned is a prefix of the elements, and the dummy is not among it. -/
theorem returned_isPrefix (h : Reachable s) :
    s.returned <+: s.elements ∧ .dummy ∉ s.returned := by
  obtain ⟨c, hs⟩ := chained_of_reachable h
  have hordered : s.returned <+: s.elements := by
    rw [hs.elements]
    exact List.prefix_append _ _
  exact ⟨hordered, fun hd => dummy_notMem_elems s.exchanged (hordered.subset hd)⟩

/-- `MPSCQueueIntrusive` is a FIFO queue. The elements that `Dequeue` has returned are a prefix of
the elements in the order of the exchanges, and the dummy is not among them. From `_tail` to
`_head` there is one chain of stored and announced links; it holds the elements not yet returned
and the dummy at most once. In a run from the beginning of a `Dequeue` in which the queue always
holds an element and no producer is ever between its exchange and its store, no step makes
`Dequeue` return `false`. In a state of that kind the next element is linked; and where it is linked
the steps of the consumer alone make `Dequeue` return an element. -/
theorem intrusive_fifo (h : Reachable s) :
    (s.returned <+: s.elements ∧ .dummy ∉ s.returned) ∧
      ((∃ c, s.IsQueue c) ∧
        ∀ c, s.IsQueue c → c.count .dummy ≤ 1 ∧ s.elements = s.returned ++ elems c) ∧
      (∀ t, s.cons = .loadNext t → ∀ s₁,
        Lib.Reaches step (fun s a => Allowed s a ∧ ¬s.Gap) s s₁ → ¬s₁.Gap →
          ∀ a s₂, Allowed s₁ a → step s₁ a = some s₂ → s₂.outcomes ≠ s₁.outcomes ++ [none]) ∧
      ∀ t, s.cons = .loadNext t → (¬s.Gap → s.NextLinked) ∧
        (s.NextLinked → ∃ s' x, Lib.Reaches step (fun _ a => a = .cons) s s' ∧
          s'.outcomes = s.outcomes ++ [some (.elem x)]) := by
  obtain ⟨c, hs⟩ := chained_of_reachable h
  refine ⟨returned_isPrefix h, ⟨⟨c, hs.isQueue⟩, fun c' hc' => ?_⟩, ?_, fun t hc => ?_⟩
  · obtain rfl := hs.eq_of_isQueue hc'
    exact ⟨List.nodup_iff_count_le_one.mp hs.chain.nodup _, hs.elements⟩
  · intro t hc s₁ hrun hgap a s₂ hok hstep hout
    obtain ⟨hreach, hsteady⟩ := steady_of_call h hc hrun hgap
    -- Returning `false` would show the queue empty at this moment.
    obtain ⟨d, hd⟩ := chained_of_reachable hreach
    have hd' := hd.empty_of_false hsteady (fun hl => hgap (.inr hl)) (effect_of_step hok hstep) hout
    refine hgap (.inl ?_)
    rw [hd.elements, hd']
    simp
  · have hc : s.cons = .loadNext s.tail := hs.at_loadNext hc ▸ hc
    refine ⟨hs.nextLinked hc, fun hlinked => ?_⟩
    obtain ⟨s', x, hrun, hout⟩ := dequeue_returns hc hlinked
    have hallowed : ∀ (u : State P T) a, a = .cons → Allowed u a := by
      rintro u a rfl
      trivial
    have hreach : Reachable s' := by
      obtain ⟨link, h⟩ := h
      exact ⟨link, h.trans (hrun.mono hallowed)⟩
    have hx : x ∈ s'.returned := by
      rw [State.returned, hout, List.reduceOption_append, List.reduceOption_singleton]
      simp
    obtain ⟨y, rfl⟩ : ∃ y, x = .elem y :=
      Ptr.exists_elem fun heq => (returned_isPrefix hreach).2 (heq ▸ hx)
    exact ⟨s', y, hrun, hout⟩

/-- One producer has enqueued, the other has exchanged and not stored its link; the consumer moves
the tail over the dummy and finds no link at the first element. Then the link is stored, the
consumer gets the first element and calls `Dequeue` for the second one. -/
def overtakenRun (p q : P) : List (Action P ℕ) :=
  [.enqueue p 100, .prod p, .prod p, .prod p, .enqueue q 500, .prod q, .prod q, .dequeue, .cons,
    .cons, .cons, .cons, .prod q, .dequeue, .cons, .cons, .dequeue]

/-- `Dequeue` returns `false` with two elements in the queue, one of them not linked; afterwards it
returns the first one, and then, with the consumer's steps alone, another one. -/
theorem intrusive_fifo_overtaken : ∃ (s s' : State (Fin 2) ℕ) (x : ℕ),
    s.elements = [.elem 100, .elem 500] ∧ s.outcomes = [none, some (.elem 100)] ∧
      s.returned <+: s.elements ∧ Ptr.dummy ∉ s.returned ∧
      Lib.Reaches step (fun _ a => a = .cons) s s' ∧
      s'.outcomes = [none, some (.elem 100), some (.elem x)] := by
  obtain ⟨s, hs, hp⟩ := exists_reachable (fun _ => none) (overtakenRun (P := Fin 2) 0 1)
    (fun s => s.elements == [.elem 100, .elem 500] && s.outcomes == [none, some (.elem 100)] &&
      s.cons == .loadNext (.elem 500) && s.head == .elem 500 && s.tail == .elem 500) (by decide)
  simp only [Bool.and_eq_true, beq_iff_eq] at hp
  obtain ⟨⟨⟨⟨helements, hout⟩, hc⟩, hhead⟩, htail⟩ := hp
  obtain ⟨⟨hordered, hdummy⟩, -, -, hreturns⟩ := intrusive_fifo hs
  have hlinked : s.NextLinked := by
    rw [State.NextLinked, htail, if_neg (by simp)]
    exact .inr hhead
  obtain ⟨s', x, hrun, hout'⟩ := (hreturns _ hc).2 hlinked
  exact ⟨s, s', x, helements, hout, hordered, hdummy, hrun, by rw [hout', hout]; rfl⟩

end CPStudy.MPSCQueue.Intrusive
