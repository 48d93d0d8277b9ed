import Mathlib.Data.List.ReduceOption
import CPStudy.Lib.BrokenChain
import CPStudy.MPSCQueue.NonIntrusive.Model

/-!
# The chain of `MPSCQueueNonIntrusive`

`Chained s c done pend` says what the memory looks like while the queue lives. The nodes `c` form a
broken chain from `_tail` to `_head` whose announced links are those of the producers between their
exchange and their store; the values of the exchanges `done` have been taken out, and the exchanges
`pend` are those of the nodes of `c` after the first, in order. Every step keeps it, up to the last
step of the destructor, which leaves the queue `Destroyed`.
-/

namespace CPStudy.MPSCQueue.NonIntrusive

open Function (update)
open Lib (Adj BrokenChain)

variable {P T : Type*}

/-- `node->Next`, null for a node that is not allocated. -/
def State.nextOf (s : State P T) (node : NodeId) : Option NodeId := (s.mem node).bind Node.next

/-- Some producer is between its exchange and its store of the link from `a` to `b`. -/
def State.Announced (s : State P T) (a b : NodeId) : Prop := ∃ p, s.prod p = .link a b

/-- The value that the `Dequeue` in progress has taken out of the chain. -/
def ConsPc.inHand : ConsPc T → List T
  | .deleteTail _ result => [result]
  | _ => []

/-- The value that the destructor has dequeued and not yet deleted. -/
def ConsPc.output : ConsPc T → List T
  | .deleteOutput output => [output]
  | _ => []

/-- What the consumer knows at its program point. -/
def ConsOk (s : State P T) (c : List NodeId) : Prop :=
  match s.cons with
  | .idle => s.dtor = false
  | .loadNext t => t = s.tail
  | .readData t n => t = s.tail ∧ s.nextOf t = some n
  | .storeTail t n r => t = s.tail ∧ s.nextOf t = some n ∧ ∃ nx, s.mem n = some ⟨r, nx⟩
  | .deleteTail t _ => t ∉ c ∧ s.mem t ≠ none ∧ ∀ p v, s.prod p ≠ .exchange t v
  | .deleteOutput _ => s.dtor = true
  | .deleteFront => s.dtor = true ∧ c = [s.head]
  | .destroyed => False

/-- The shape of the memory while the queue lives. -/
structure Chained (s : State P T) (c : List NodeId) (done pend : List (Exchange P T)) :
    Prop where
  /-- The nodes form a chain from the tail to the head. -/
  chain : BrokenChain s.nextOf s.Announced s.tail s.head c
  /-- The nodes of the chain are allocated. -/
  live : ∀ a ∈ c, s.mem a ≠ none
  /-- Only names that were given out are allocated. -/
  lt : ∀ a, s.mem a ≠ none → a < s.fresh
  /-- A node before its exchange is outside the chain and has no successor. -/
  owned : ∀ p a v, s.prod p = .exchange a v → a ∉ c ∧ s.mem a = some ⟨v, none⟩
  /-- A node before its exchange belongs to one producer. -/
  owner : ∀ p q a v w, s.prod p = .exchange a v → s.prod q = .exchange a w → p = q
  /-- The exchanges whose values were taken out come before those in the chain. -/
  exchanged : s.exchanged = done ++ pend
  /-- The values taken out are the returned ones and the one in the consumer's hand. -/
  values : done.map Exchange.value = s.returned ++ s.cons.inHand
  /-- The nodes after the first are those of the later exchanges, in order. -/
  nodes : pend.map Exchange.node = c.tail
  /-- A node in the chain holds the value of its exchange. -/
  data : ∀ e ∈ pend, ∃ nx, s.mem e.node = some ⟨e.value, nx⟩
  /-- A link is announced by the producer of its second node's exchange. -/
  announcer : ∀ p a b, s.prod p = .link a b → ∃ e ∈ pend, e.producer = p ∧ e.node = b
  /-- Every allocated node is in the chain, in the hands of its producer, or about to be deleted. -/
  accounted : ∀ a, s.mem a ≠ none →
    a ∈ c ∨ (∃ p v, s.prod p = .exchange a v) ∨ ∃ r, s.cons = .deleteTail a r
  /-- What the consumer knows. -/
  cons : ConsOk s c
  /-- No `Enqueue` runs beside the destructor. -/
  quiet : s.dtor = true → ∀ p, s.prod p = .idle

/-- The queue after its destructor. -/
structure Destroyed (s : State P T) : Prop where
  /-- The destructor has ended. -/
  cons : s.cons = .destroyed
  /-- It was begun. -/
  dtor : s.dtor = true
  /-- No `Enqueue` is in flight. -/
  quiet : ∀ p, s.prod p = .idle
  /-- No node is left. -/
  empty : ∀ a, s.mem a = none
  /-- Every value was returned by a `Dequeue`. -/
  values : s.exchanged.map Exchange.value = s.returned

/-- The queue lives with the memory in shape, or is destroyed. -/
def Inv (s : State P T) : Prop := (∃ c done pend, Chained s c done pend) ∨ Destroyed s

variable {s : State P T} {a : Action P T} {c : List NodeId} {done pend : List (Exchange P T)}

/-- The next free name is not in the chain. -/
theorem Chained.fresh_notMem (h : Chained s c done pend) : s.fresh ∉ c := fun hm =>
  absurd (h.lt _ (h.live _ hm)) (lt_irrefl _)

/-- Two producers never announce the same node. -/
theorem Chained.announcer_inj (h : Chained s c done pend) {p q : P} {a a' b : NodeId}
    (hp : s.prod p = .link a b) (hq : s.prod q = .link a' b) : p = q := by
  obtain ⟨e, he, rfl, hb⟩ := h.announcer p a b hp
  obtain ⟨e', he', rfl, hb'⟩ := h.announcer q a' b hq
  -- The nodes of the pending exchanges are those of the chain, which holds no node twice.
  have hnd : (pend.map Exchange.node).Nodup := h.nodes ▸ h.chain.nodup.tail
  rw [List.inj_on_of_nodup_map hnd he he' (hb.trans hb'.symm)]

/-- At its load of the next node the consumer holds the tail. -/
theorem Chained.at_loadNext (h : Chained s c done pend) {t : NodeId} (hc : s.cons = .loadNext t) :
    t = s.tail := by
  simpa [ConsOk, hc] using h.cons

/-- At its read of the value the consumer holds the tail and the node after it. -/
theorem Chained.at_readData (h : Chained s c done pend) {t n : NodeId}
    (hc : s.cons = .readData t n) : t = s.tail ∧ s.nextOf t = some n := by
  simpa [ConsOk, hc] using h.cons

/-- At its store of the tail the consumer holds the tail, the node after it, and its value. -/
theorem Chained.at_storeTail (h : Chained s c done pend) {t n : NodeId} {r : T}
    (hc : s.cons = .storeTail t n r) :
    t = s.tail ∧ s.nextOf t = some n ∧ ∃ nx, s.mem n = some ⟨r, nx⟩ := by
  simpa [ConsOk, hc] using h.cons

/-- At its delete the consumer holds a node that is allocated, outside the chain, and nobody
else's. -/
theorem Chained.at_deleteTail (h : Chained s c done pend) {t : NodeId} {r : T}
    (hc : s.cons = .deleteTail t r) :
    t ∉ c ∧ s.mem t ≠ none ∧ ∀ p v, s.prod p ≠ .exchange t v := by
  simpa [ConsOk, hc] using h.cons

/-- Only the destructor deletes what it has dequeued. -/
theorem Chained.at_deleteOutput (h : Chained s c done pend) {r : T}
    (hc : s.cons = .deleteOutput r) : s.dtor = true := by
  simpa [ConsOk, hc] using h.cons

/-- At the destructor's last delete the chain is one node. -/
theorem Chained.at_deleteFront (h : Chained s c done pend) (hc : s.cons = .deleteFront) :
    s.dtor = true ∧ c = [s.head] := by
  simpa [ConsOk, hc] using h.cons

/-- A history with one more `false` has the same returned values. -/
theorem returned_returnFalse (s : State P T) : s.returnFalse.returned = s.returned := by
  simp [State.returned, State.returnFalse, List.reduceOption_append, List.reduceOption_singleton]

/-- A `return true` adds its value to the returned ones. -/
theorem returned_returnTrue (s : State P T) (r : T) :
    (s.returnTrue r).returned = s.returned ++ [r] := by
  simp [State.returned, State.returnTrue, List.reduceOption_append, List.reduceOption_singleton]

variable [DecidableEq P]

/-- Making a node changes no link of the chain. -/
theorem Chained.enter (h : Chained s c done pend) {p : P} {input : T} (hd : s.dtor = false)
    (hp : s.prod p = .idle) :
    Chained { s with
      mem := update s.mem s.fresh (some ⟨input, none⟩)
      fresh := s.fresh + 1
      prod := update s.prod p (.exchange s.fresh input)
      calls := update s.calls p (s.calls p ++ [input]) } c done pend := by
  -- The new node has a name that was never given out, so no pointer leads to it.
  have hf := h.fresh_notMem
  have hlt := h.lt
  have hnone : s.mem s.fresh = none := by
    by_contra hne
    exact absurd (hlt _ hne) (lt_irrefl _)
  refine { h with chain := h.chain.congr ?_ ?_, live := ?_, lt := ?_, owned := ?_, owner := ?_,
                  data := ?_, announcer := ?_, accounted := ?_, cons := ?_, quiet := ?_ }
  · intro a ha
    have : a ≠ s.fresh := fun heq => hf (heq ▸ ha)
    simp [State.nextOf, this]
  · intro a b
    constructor
    · rintro ⟨q, hq⟩
      by_cases hqp : q = p
      · subst hqp; simp at hq
      · exact ⟨q, by simpa [hqp] using hq⟩
    · rintro ⟨q, hq⟩
      exact ⟨q, by grind⟩
  · intro a ha
    have := h.live a ha
    grind
  · grind
  · intro q a v hq
    have := h.owned q a v
    grind
  · intro q r a v w hq hr
    have := h.owner q r a v w
    have := fun v => h.owned q a v
    have := fun v => h.owned r a v
    grind
  · intro e he
    obtain ⟨nx, hnx⟩ := h.data e he
    exact ⟨nx, by grind⟩
  · intro q a b hq
    exact h.announcer q a b (by grind)
  · intro a ha
    by_cases haf : a = s.fresh
    · exact .inr (.inl ⟨p, input, by simp [haf]⟩)
    · rcases h.accounted a (by simpa [haf] using ha) with hac | ⟨q, v, hq⟩ | hr
      · exact .inl hac
      · exact .inr (.inl ⟨q, v, by grind⟩)
      · exact .inr (.inr hr)
  · have hcons := h.cons
    unfold ConsOk State.nextOf at *
    dsimp only
    split <;> grind
  · intro hdt
    rw [hd] at hdt
    cases hdt

/-- The exchange of the head announces the producer's node after the old head. -/
theorem Chained.exchange (h : Chained s c done pend) {p : P} {node : NodeId} {input : T}
    (hp : s.prod p = .exchange node input) :
    Chained { s with
      head := node
      prod := update s.prod p (.link s.head node)
      exchanged := s.exchanged ++ [⟨p, node, input⟩] }
      (c ++ [node]) done (pend ++ [⟨p, node, input⟩]) := by
  obtain ⟨hnc, hmem⟩ := h.owned p node input hp
  have hnext : s.nextOf node = none := by rw [State.nextOf, hmem]; rfl
  have hne : c ≠ [] := List.ne_nil_of_mem h.chain.first_mem
  refine { h with chain := ?_, live := ?_, owned := ?_, owner := ?_, exchanged := ?_,
                  nodes := ?_, data := ?_, announcer := ?_, accounted := ?_, cons := ?_,
                  quiet := ?_ }
  · refine h.chain.exchange hnc hnext fun a b => ?_
    constructor
    · rintro ⟨q, hq⟩
      by_cases hqp : q = p
      · subst hqp
        exact .inr (by simpa [eq_comm] using hq)
      · exact .inl ⟨q, by simpa [hqp] using hq⟩
    · rintro (⟨q, hq⟩ | ⟨rfl, rfl⟩)
      · exact ⟨q, by grind⟩
      · exact ⟨p, by simp⟩
  · intro a ha
    rcases List.mem_append.mp ha with ha | ha
    · exact h.live a ha
    · obtain rfl : a = node := by simpa using ha
      simp [hmem]
  · intro q a v hq
    by_cases hqp : q = p
    · subst hqp; simp at hq
    · have hq' : s.prod q = .exchange a v := by simpa [hqp] using hq
      -- The exchanged node has one owner, so another producer's node is not it.
      refine ⟨?_, (h.owned q a v hq').2⟩
      have : a ≠ node := fun heq => hqp (h.owner q p a v input hq' (heq ▸ hp))
      simpa [this] using (h.owned q a v hq').1
  · intro q r a v w hq hr
    exact h.owner q r a v w (by grind) (by grind)
  · simp [h.exchanged]
  · rw [List.map_append, h.nodes, List.tail_append_of_ne_nil hne]
    rfl
  · intro e he
    rcases List.mem_append.mp he with he | he
    · exact h.data e he
    · obtain rfl : e = ⟨p, node, input⟩ := by simpa using he
      exact ⟨none, hmem⟩
  · intro q a b hq
    by_cases hqp : q = p
    · subst hqp
      have hab : s.head = a ∧ node = b := by simpa using hq
      exact ⟨⟨q, node, input⟩, by simp, rfl, hab.2⟩
    · obtain ⟨e, he, h1, h2⟩ := h.announcer q a b (by simpa [hqp] using hq)
      exact ⟨e, List.mem_append_left _ he, h1, h2⟩
  · intro a ha
    rcases h.accounted a ha with hac | ⟨q, v, hq⟩ | hr
    · exact .inl (List.mem_append_left _ hac)
    · by_cases hqp : q = p
      -- The node goes from its producer's hands to the end of the chain.
      · rw [hqp, hp] at hq
        cases hq
        exact .inl (by simp)
      · exact .inr (.inl ⟨q, v, by simpa [hqp] using hq⟩)
    · exact .inr (.inr hr)
  · have hcons := h.cons
    have hquiet := h.quiet
    unfold ConsOk State.nextOf at *
    dsimp only
    split <;> grind
  · intro hdt
    have := h.quiet hdt p
    rw [hp] at this
    cases this

/-- The store of an announced link. -/
theorem Chained.link (h : Chained s c done pend) {p : P} {prevHead node : NodeId} {nd : Node T}
    (hp : s.prod p = .link prevHead node) (hm : s.mem prevHead = some nd) :
    Chained { s with
      mem := update s.mem prevHead (some { nd with next := some node })
      prod := update s.prod p .idle } c done pend := by
  have hann : s.Announced prevHead node := ⟨p, hp⟩
  obtain ⟨hadj, hnull⟩ := h.chain.pending _ _ hann
  have hlive : prevHead ∈ c := hadj.mem_left
  refine { h with chain := ?_, live := ?_, lt := ?_, owned := ?_, owner := ?_,
                  data := ?_, announcer := ?_, accounted := ?_, cons := ?_, quiet := ?_ }
  · have hst : State.nextOf { s with
        mem := update s.mem prevHead (some { nd with next := some node })
        prod := update s.prod p .idle } = update s.nextOf prevHead (some node) := by
      funext a
      by_cases ha : a = prevHead
      · subst ha; simp [State.nextOf]
      · simp [State.nextOf, ha]
    rw [hst]
    refine h.chain.link hann fun a b => ?_
    constructor
    · rintro ⟨q, hq⟩
      have hqp : q ≠ p := by rintro rfl; simp at hq
      have hq' : s.prod q = .link a b := by simpa [hqp] using hq
      refine ⟨⟨q, hq'⟩, ?_⟩
      rintro ⟨rfl, rfl⟩
      exact hqp (h.announcer_inj hq' hp)
    · rintro ⟨⟨q, hq⟩, hne⟩
      have hqp : q ≠ p := by
        rintro rfl
        rw [hp] at hq
        cases hq
        exact hne ⟨rfl, rfl⟩
      exact ⟨q, by simpa [hqp] using hq⟩
  · intro a ha
    have := h.live a ha
    grind
  · intro a ha
    have := h.lt a
    grind
  · intro q a v hq
    have := h.owned q a v
    grind
  · intro q r a v w hq hr
    exact h.owner q r a v w (by grind) (by grind)
  · intro e he
    obtain ⟨nx, hnx⟩ := h.data e he
    -- The store changes the successor of the node and leaves its value.
    by_cases heq : e.node = prevHead
    · obtain rfl : nd = ⟨e.value, nx⟩ := by
        rw [heq, hm] at hnx
        exact Option.some.inj hnx
      exact ⟨some node, by simp [heq]⟩
    · exact ⟨nx, by simpa [heq] using hnx⟩
  · intro q a b hq
    exact h.announcer q a b (by grind)
  · intro a ha
    rcases h.accounted a (by grind) with hac | ⟨q, v, hq⟩ | hr
    · exact .inl hac
    · exact .inr (.inl ⟨q, v, by grind⟩)
    · exact .inr (.inr hr)
  · have hcons := h.cons
    unfold ConsOk State.nextOf at *
    dsimp only
    split <;> grind
  · intro hdt q
    have := h.quiet hdt q
    grind

omit [DecidableEq P]

/-- While the consumer is not about to delete a node, every allocated node is in the chain or in
the hands of its producer. -/
theorem Chained.accounted_of_ne (h : Chained s c done pend) (hc : ∀ a r, s.cons ≠ .deleteTail a r)
    {a : NodeId} (ha : s.mem a ≠ none) : a ∈ c ∨ ∃ p v, s.prod p = .exchange a v := by
  rcases h.accounted a ha with hac | hp | ⟨r, hr⟩
  · exact .inl hac
  · exact .inr hp
  · exact absurd hr (hc a r)

/-- A step of the consumer that deletes no node leaves every allocated node where it was. -/
theorem Chained.accounted_step (h : Chained s c done pend) (hc : ∀ a r, s.cons ≠ .deleteTail a r)
    (pc : ConsPc T) (a : NodeId) (ha : s.mem a ≠ none) :
    a ∈ c ∨ (∃ p v, s.prod p = .exchange a v) ∨ ∃ r, pc = .deleteTail a r :=
  (h.accounted_of_ne hc ha).imp_right .inl

/-- `Dequeue` returns `false`: nothing changes but the history and, in the destructor, what comes
next. There the chain has no announced link, so that it has one node. -/
theorem Chained.loadNull (h : Chained s c done pend) {t : NodeId} {nd : Node T}
    (hc : s.cons = .loadNext t) (hm : s.mem t = some nd) (hn : nd.next = none) :
    Chained s.returnFalse c done pend := by
  obtain rfl := h.at_loadNext hc
  have hnull : s.nextOf s.tail = none := by simp [State.nextOf, hm, hn]
  have hvalues := h.values
  rw [hc] at hvalues
  refine { h with values := ?_, accounted := h.accounted_step (by simp [hc]) _, cons := ?_ }
  · rw [returned_returnFalse, hvalues]
    unfold State.returnFalse
    cases s.dtor <;> rfl
  · unfold ConsOk State.returnFalse
    cases hd : s.dtor with
    | false => simp
    | true =>
      -- No producer is left to have announced a link from the tail.
      rcases h.chain.stuck hnull with ⟨hc, heq⟩ | ⟨y, c', -, q, hq⟩
      · simp [hc, heq]
      · rw [h.quiet hd q] at hq
        cases hq

/-- `Dequeue` advances the tail over a stored link: the first exchange of the chain is done. -/
theorem Chained.store (h : Chained s c done pend) {t n : NodeId} {r : T}
    (hc : s.cons = .storeTail t n r) :
    ∃ c' done' pend', Chained { s with tail := n, cons := .deleteTail t r } c' done' pend' := by
  obtain ⟨rfl, hn, nx, hr⟩ := h.at_storeTail hc
  obtain ⟨c', rfl, htc, hchain, hann⟩ := h.chain.advance hn
  have hnodes := h.nodes
  -- The first pending exchange is that of the new tail, and its value is the one read.
  obtain ⟨c'', rfl⟩ : ∃ c'', c' = n :: c'' := by
    cases c' with
    | nil => simpa using hchain.head
    | cons z c'' => exact ⟨c'', by simpa using hchain.head⟩
  obtain ⟨e, pend', rfl⟩ : ∃ e pend', pend = e :: pend' := by
    cases pend with
    | nil => simp at hnodes
    | cons e pend' => exact ⟨e, pend', rfl⟩
  simp only [List.map_cons, List.tail_cons, List.cons.injEq] at hnodes
  obtain ⟨rfl, hnodes⟩ := hnodes
  have hval : e.value = r := by
    obtain ⟨nx', hnx'⟩ := h.data e (by simp)
    rw [hr] at hnx'
    simpa using (congrArg Node.data (Option.some.inj hnx')).symm
  have hvalues := h.values
  rw [hc] at hvalues
  refine ⟨e.node :: c'', done ++ [e], pend', ?_⟩
  refine { h with chain := hchain, live := ?_, owned := ?_, exchanged := ?_, values := ?_,
                  nodes := hnodes, data := ?_, announcer := ?_, accounted := ?_, cons := ?_ }
  · exact fun a ha => h.live a (List.mem_cons_of_mem _ ha)
  · exact fun p a v hp => ⟨fun ha => (h.owned p a v hp).1 (List.mem_cons_of_mem _ ha),
      (h.owned p a v hp).2⟩
  · simp [h.exchanged]
  · simpa [State.returned, ConsPc.inHand, hval] using hvalues
  · exact fun e' he' => h.data e' (List.mem_cons_of_mem _ he')
  · intro p a b hp
    obtain ⟨e', he', h1, h2⟩ := h.announcer p a b hp
    have hb : b ≠ e.node := (hchain.pending a b ⟨p, hp⟩).1.ne_head hchain.nodup hchain.head
    refine ⟨e', ?_, h1, h2⟩
    rcases List.mem_cons.mp he' with rfl | he'
    · exact absurd h2.symm hb
    · exact he'
  · intro a ha
    rcases h.accounted_of_ne (by simp [hc]) ha with hac | hp
    · rcases List.mem_cons.mp hac with rfl | hac
      · exact .inr (.inr ⟨r, rfl⟩)
      · exact .inl hac
    · exact .inr (.inl hp)
  · refine ⟨htc, h.live _ (by simp), fun p v hp => ?_⟩
    exact (h.owned p _ v hp).1 (by simp)

/-- `Dequeue` deletes the old tail, which is outside the chain. -/
theorem Chained.free (h : Chained s c done pend) {t : NodeId} {r : T}
    (hc : s.cons = .deleteTail t r) : Chained ((s.delete t).returnTrue r) c done pend := by
  obtain ⟨htc, -, hex⟩ := h.at_deleteTail hc
  have hvalues := h.values
  rw [hc] at hvalues
  -- The deleted node is neither in the chain nor any producer's, so all that is said is of others.
  have hmem : ∀ a, a ≠ t → ((s.delete t).returnTrue r).mem a = s.mem a := fun a ha => by
    simp [State.delete, State.returnTrue, ha]
  have hne : ∀ a ∈ c, a ≠ t := fun a ha heq => htc (heq ▸ ha)
  refine { h with chain := h.chain.congr ?_ fun _ _ => Iff.rfl, live := ?_, lt := ?_, owned := ?_,
                  values := ?_, data := ?_, accounted := ?_, cons := ?_ }
  · intro a ha
    rw [State.nextOf, hmem a (hne a ha)]
    rfl
  · intro a ha
    rw [hmem a (hne a ha)]
    exact h.live a ha
  · intro a ha
    by_cases hat : a = t
    · subst hat; simp [State.delete, State.returnTrue] at ha
    · exact h.lt a (hmem a hat ▸ ha)
  · intro p a v hp
    have hat : a ≠ t := fun heq => hex p v (heq ▸ hp)
    rw [hmem a hat]
    exact h.owned p a v hp
  -- The value goes from the consumer's hand to what was returned.
  · rw [returned_returnTrue, hvalues]
    unfold State.returnTrue State.delete
    cases s.dtor <;> simp [ConsPc.inHand, State.returned]
  · intro e he
    have hin : e.node ∈ c.tail := h.nodes ▸ List.mem_map_of_mem he
    rw [hmem _ (hne _ (List.mem_of_mem_tail hin))]
    exact h.data e he
  · intro a ha
    have hat : a ≠ t := by
      rintro rfl
      simp [State.delete, State.returnTrue] at ha
    rcases h.accounted a (hmem a hat ▸ ha) with hac | hp | ⟨r', hr⟩
    · exact .inl hac
    · exact .inr (.inl hp)
    · rw [hc] at hr
      cases hr
      exact absurd rfl hat
  · unfold ConsOk State.returnTrue State.delete
    cases hd : s.dtor <;> simp

/-- The destructor's last step destroys a queue whose chain has one node. -/
theorem Chained.front (h : Chained s c done pend) (hc : s.cons = .deleteFront) :
    Destroyed { s.delete s.head with cons := .destroyed } := by
  obtain ⟨hd, rfl⟩ := h.at_deleteFront hc
  have hvalues := h.values
  rw [hc] at hvalues
  have hpend : pend = [] := by simpa using h.nodes
  refine { cons := rfl, dtor := hd, quiet := h.quiet hd, empty := fun a => ?_, values := ?_ }
  · by_cases hah : a = s.head
    · simp [State.delete, hah]
    · have hnone : s.mem a = none := by
        by_contra hne
        rcases h.accounted a hne with hac | ⟨p, v, hp⟩ | ⟨r, hr⟩
        · exact hah (by simpa using hac)
        · rw [h.quiet hd p] at hp
          cases hp
        · rw [hc] at hr
          cases hr
      simpa [State.delete, hah] using hnone
  have hex := h.exchanged
  rw [hpend, List.append_nil] at hex
  simpa [State.delete, hex, State.returned, ConsPc.inHand] using hvalues

/-- Every effect on a living queue keeps the memory in shape or destroys the queue. -/
theorem Chained.step [DecidableEq P] {s' : State P T} (h : Chained s c done pend)
    (heff : Effect s a s') : Inv s' := by
  have hvalues := h.values
  cases heff with
  | enter p input hd hp => exact .inl ⟨_, _, _, h.enter hd hp⟩
  | exchange p node input hp => exact .inl ⟨_, _, _, h.exchange hp⟩
  | link p prevHead node nd hp hm => exact .inl ⟨_, _, _, h.link hp hm⟩
  | call hc =>
    rw [hc] at hvalues
    exact .inl ⟨_, _, _, { h with
      values := hvalues, accounted := h.accounted_step (by simp [hc]) _, cons := rfl }⟩
  | loadNull t nd hc hm hn => exact .inl ⟨_, _, _, h.loadNull hc hm hn⟩
  -- The consumer goes on with the tail, its link and its datum, which nobody changes any more.
  | loadNext t n nd hc hm hn =>
    obtain rfl := h.at_loadNext hc
    rw [hc] at hvalues
    have hnext : s.nextOf s.tail = some n := by simp [State.nextOf, hm, hn]
    exact .inl ⟨_, _, _, { h with
      values := hvalues, accounted := h.accounted_step (by simp [hc]) _, cons := ⟨rfl, hnext⟩ }⟩
  | read t n nd hc hm =>
    obtain ⟨rfl, hnext⟩ := h.at_readData hc
    rw [hc] at hvalues
    exact .inl ⟨_, _, _, { h with
      values := hvalues, accounted := h.accounted_step (by simp [hc]) _,
      cons := ⟨rfl, hnext, nd.next, hm⟩ }⟩
  | store t n r hc => exact .inl (h.store hc)
  | free t r hc => exact .inl ⟨_, _, _, h.free hc⟩
  | output output hc =>
    rw [hc] at hvalues
    exact .inl ⟨_, _, _, { h with
      values := hvalues, accounted := h.accounted_step (by simp [hc]) _, cons := rfl }⟩
  | front hc => exact .inr (h.front hc)
  | destroy hc hp =>
    rw [hc] at hvalues
    exact .inl ⟨_, _, _, { h with
      values := hvalues, accounted := h.accounted_step (by simp [hc]) _, cons := rfl,
      quiet := fun _ => hp }⟩

/-- A destroyed queue takes no more steps. -/
theorem Destroyed.not_effect [DecidableEq P] {s' : State P T} (h : Destroyed s)
    (heff : Effect s a s') : False := by
  have hc := h.cons
  have hd := h.dtor
  have hq := h.quiet
  cases heff <;> grind

/-- The memory of every reachable queue is in shape, or the queue is destroyed. -/
theorem inv_of_reachable [DecidableEq P] {uninit : T} (h : Reachable uninit s) : Inv s := by
  refine h.invariant Inv (.inl ⟨[0], [], [], ?_⟩) fun t _ u ht heff => ?_
  · have hnull : (State.init P uninit).nextOf 0 = none := by simp [State.nextOf, State.init]
    have hmem : ∀ a, (State.init P uninit).mem a ≠ none → a = 0 := by
      intro a ha
      by_contra hne
      exact ha (by simp [State.init, hne])
    exact
      { chain := BrokenChain.singleton hnull (by rintro a b ⟨p, hp⟩; cases hp)
        live := by simp [State.init]
        lt := fun a ha => by rw [hmem a ha]; exact Nat.one_pos
        owned := fun p a v hp => by cases hp
        owner := fun p q a v w hp => by cases hp
        exchanged := rfl
        values := rfl
        nodes := rfl
        data := by simp
        announcer := fun p a b hp => by cases hp
        accounted := fun a ha => .inl (by simp [hmem a ha])
        cons := rfl
        quiet := fun _ _ => rfl }
  · rcases ht with ⟨c, done, pend, ht⟩ | ht
    · exact ht.step heff
    · exact (ht.not_effect heff).elim

end CPStudy.MPSCQueue.NonIntrusive
