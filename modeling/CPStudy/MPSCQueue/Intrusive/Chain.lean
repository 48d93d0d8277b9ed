import Mathlib.Data.List.ReduceOption
import CPStudy.Lib.BrokenChain
import CPStudy.MPSCQueue.Intrusive.Model

/-!
# The chain of `MPSCQueueIntrusive`

`Chained s c` says what the links look like: the pointers `c` form a broken chain from `_tail` to
`_head` whose announced links are those of the `Enqueue` calls between their exchange and their
store, the consumer's own one among them. The elements of `c` are those that were exchanged and not
yet returned, in order; an element before its exchange is outside `c`; the consumer enqueues the
dummy only when `c` is without it. Every step keeps this.
-/

namespace CPStudy.MPSCQueue.Intrusive

open Function (update)
open Lib (Adj BrokenChain)

variable {P T : Type*}

/-- The elements in a list of pointers, without the dummy. -/
def elems (l : List (Ptr T)) : List (Ptr T) := (l.filterMap Ptr.elem?).map .elem

/-- An empty list has no elements. -/
@[simp]
theorem elems_nil : elems ([] : List (Ptr T)) = [] := rfl

/-- The dummy is left out. -/
@[simp]
theorem elems_cons_dummy (l : List (Ptr T)) : elems (.dummy :: l) = elems l := rfl

/-- An element stays. -/
@[simp]
theorem elems_cons_elem (x : T) (l : List (Ptr T)) : elems (.elem x :: l) = .elem x :: elems l :=
  rfl

/-- The elements of two lists, one after the other. -/
@[simp]
theorem elems_append (l l' : List (Ptr T)) : elems (l ++ l') = elems l ++ elems l' := by
  simp [elems]

/-- The dummy is no element. -/
theorem dummy_notMem_elems (l : List (Ptr T)) : Ptr.dummy ∉ elems l := by
  simp [elems]

/-- A pointer that is not the dummy points to an element. -/
theorem Ptr.exists_elem {t : Ptr T} (h : t ≠ .dummy) : ∃ x, t = .elem x := by
  cases t with
  | dummy => exact absurd rfl h
  | elem x => exact ⟨x, rfl⟩

/-- The input of an `Enqueue` before its exchange. -/
def EnqueuePc.input? : EnqueuePc T → Option (Ptr T)
  | .reset input => some input
  | .exchange input => some input
  | _ => none

/-- Some `Enqueue` is between its exchange and its store of the link from `a` to `b`. -/
def State.Announced (s : State P T) (a b : Ptr T) : Prop :=
  (∃ p, s.prod p = .link a b) ∨ ∃ t, s.cons = .enqueue t (.link a b)

/-- What the consumer knows at its program point. -/
def ConsOk (s : State P T) (c : List (Ptr T)) : Prop :=
  match s.cons with
  | .idle => s.dtor = false
  | .loadNext t => t = s.tail
  | .skipDummy n => s.tail = .dummy ∧ s.link .dummy = some n
  | .loadSkipped t => t = s.tail ∧ t ≠ .dummy
  | .storeTail t n => t = s.tail ∧ t ≠ .dummy ∧ s.link t = some n
  | .loadHead t => t = s.tail ∧ t ≠ .dummy
  | .enqueue t (.reset i) => t = s.tail ∧ t ≠ .dummy ∧ i = .dummy ∧ .dummy ∉ c
  | .enqueue t (.exchange i) =>
    t = s.tail ∧ t ≠ .dummy ∧ i = .dummy ∧ .dummy ∉ c ∧ s.link .dummy = none
  | .enqueue t (.link _ i) => t = s.tail ∧ t ≠ .dummy ∧ i = .dummy
  | .enqueue _ .idle => False
  | .reload t => t = s.tail ∧ t ≠ .dummy
  | .deleteOutput _ => s.dtor = true
  | .destroyed => s.dtor = true

/-- The shape of the links. -/
structure Chained (s : State P T) (c : List (Ptr T)) : Prop where
  /-- The pointers form a chain from the tail to the head. -/
  chain : BrokenChain s.link s.Announced s.tail s.head c
  /-- The elements of the chain belong to the queue. -/
  owned : ∀ x, .elem x ∈ c → s.owned x = true
  /-- The input of a producer before its exchange is an element of the queue outside the chain. -/
  apart : ∀ p i, (s.prod p).input? = some i → i ∉ c ∧ ∃ x, i = .elem x ∧ s.owned x = true
  /-- Two producers before their exchanges have different inputs. -/
  apart_inj : ∀ p q i, (s.prod p).input? = some i → (s.prod q).input? = some i → p = q
  /-- The link of an input is reset before the exchange. -/
  cleared : ∀ p i, s.prod p = .exchange i → s.link i = none
  /-- The producers announce elements. -/
  announced_ne : ∀ p a b, s.prod p = .link a b → b ≠ .dummy
  /-- Two producers announce different links. -/
  announced_inj : ∀ p q a b, s.prod p = .link a b → s.prod q = .link a b → p = q
  /-- The elements exchanged are the returned ones and those of the chain, in order. -/
  elements : s.elements = s.returned ++ elems c
  /-- What the consumer knows. -/
  cons : ConsOk s c
  /-- No producer's `Enqueue` runs beside the destructor. -/
  quiet : s.dtor = true → ∀ p, s.prod p = .idle

variable {s s' : State P T} {a : Action P T} {c : List (Ptr T)}

/-- The announced links are those of the program points. -/
theorem announced_congr (hp : ∀ p a b, s'.prod p = .link a b ↔ s.prod p = .link a b)
    (hc : ∀ t a b, s'.cons = .enqueue t (.link a b) ↔ s.cons = .enqueue t (.link a b))
    (a b : Ptr T) : s'.Announced a b ↔ s.Announced a b := by
  simp only [State.Announced, hp, hc]

/-- The consumer announces the dummy, a producer an element. -/
theorem Chained.own_ne (h : Chained s c) {p : P} {t a b a' b' : Ptr T}
    (hc : s.cons = .enqueue t (.link a b)) (hp : s.prod p = .link a' b') : b ≠ b' := by
  have hcons := h.cons
  simp only [ConsOk, hc] at hcons
  obtain ⟨-, -, rfl⟩ := hcons
  exact (h.announced_ne p a' b' hp).symm

/-- At its load of the next pointer the consumer holds the tail. -/
theorem Chained.at_loadNext (h : Chained s c) {t : Ptr T} (hc : s.cons = .loadNext t) :
    t = s.tail := by
  simpa [ConsOk, hc] using h.cons

/-- At its store of the new tail over the dummy the consumer holds the dummy's successor. -/
theorem Chained.at_skipDummy (h : Chained s c) {n : Ptr T} (hc : s.cons = .skipDummy n) :
    s.tail = .dummy ∧ s.link .dummy = some n := by
  simpa [ConsOk, hc] using h.cons

/-- After the dummy the consumer holds the tail, an element. -/
theorem Chained.at_loadSkipped (h : Chained s c) {t : Ptr T} (hc : s.cons = .loadSkipped t) :
    t = s.tail ∧ t ≠ .dummy := by
  simpa [ConsOk, hc] using h.cons

/-- At its store of the tail the consumer holds the tail, an element, and its successor. -/
theorem Chained.at_storeTail (h : Chained s c) {t n : Ptr T} (hc : s.cons = .storeTail t n) :
    t = s.tail ∧ t ≠ .dummy ∧ s.link t = some n := by
  simpa [ConsOk, hc] using h.cons

/-- At its load of the head the consumer holds the tail, an element. -/
theorem Chained.at_loadHead (h : Chained s c) {t : Ptr T} (hc : s.cons = .loadHead t) :
    t = s.tail ∧ t ≠ .dummy := by
  simpa [ConsOk, hc] using h.cons

/-- At its reset the consumer holds the tail, an element, and the dummy is outside the chain. -/
theorem Chained.at_ownReset (h : Chained s c) {t i : Ptr T}
    (hc : s.cons = .enqueue t (.reset i)) :
    t = s.tail ∧ t ≠ .dummy ∧ i = .dummy ∧ .dummy ∉ c := by
  simpa [ConsOk, hc] using h.cons

/-- At its exchange the consumer holds the tail, an element, and the dummy is outside the chain
and has no link. -/
theorem Chained.at_ownExchange (h : Chained s c) {t i : Ptr T}
    (hc : s.cons = .enqueue t (.exchange i)) :
    t = s.tail ∧ t ≠ .dummy ∧ i = .dummy ∧ .dummy ∉ c ∧ s.link .dummy = none := by
  simpa [ConsOk, hc] using h.cons

/-- At its store of the dummy's predecessor's link the consumer holds the tail, an element. -/
theorem Chained.at_ownLink (h : Chained s c) {t a i : Ptr T}
    (hc : s.cons = .enqueue t (.link a i)) : t = s.tail ∧ t ≠ .dummy ∧ i = .dummy := by
  simpa [ConsOk, hc] using h.cons

/-- At its last load the consumer holds the tail, an element. -/
theorem Chained.at_reload (h : Chained s c) {t : Ptr T} (hc : s.cons = .reload t) :
    t = s.tail ∧ t ≠ .dummy := by
  simpa [ConsOk, hc] using h.cons

/-- Only the destructor ends the queue. -/
theorem Chained.at_destroyed (h : Chained s c) (hc : s.cons = .destroyed) : s.dtor = true := by
  simpa [ConsOk, hc] using h.cons

section Producer

variable [DecidableEq P] [DecidableEq T]

/-- Calling `Enqueue` changes no link. -/
theorem Chained.enter (h : Chained s c) {p : P} {input : T} (hd : s.dtor = false)
    (ho : s.owned input = false) (hp : s.prod p = .idle) :
    Chained { s with
      prod := update s.prod p (.reset (.elem input))
      owned := update s.owned input true } c := by
  -- The element is not the queue's yet, so it is neither in the chain nor another input.
  have hmem : Ptr.elem input ∉ c := fun hm => by simp [h.owned input hm] at ho
  have hnew : ∀ q, (s.prod q).input? ≠ some (.elem input) := by
    intro q hq
    obtain ⟨-, x, hx, hox⟩ := h.apart q _ hq
    cases hx
    rw [ho] at hox
    cases hox
  refine { h with chain := h.chain.congr (fun _ _ => rfl) (announced_congr ?_ fun _ _ _ => Iff.rfl),
                  owned := ?_, apart := ?_, apart_inj := ?_, cleared := ?_, announced_ne := ?_,
                  announced_inj := ?_, quiet := ?_ }
  · grind
  · intro x hx
    have := h.owned x hx
    grind
  · intro q i hq
    by_cases hqp : q = p
    · subst hqp
      obtain rfl : Ptr.elem input = i := by simpa [EnqueuePc.input?] using hq
      exact ⟨hmem, input, rfl, by simp⟩
    · obtain ⟨hi, x, rfl, hx⟩ := h.apart q i (by simpa [hqp] using hq)
      exact ⟨hi, x, rfl, by grind⟩
  · intro q r i hq hr
    have := h.apart_inj q r i
    have := hnew q
    have := hnew r
    grind [EnqueuePc.input?]
  · intro q i hq
    exact h.cleared q i (by grind)
  · intro q a b hq
    exact h.announced_ne q a b (by grind)
  · intro q r a b hq hr
    exact h.announced_inj q r a b (by grind) (by grind)
  · intro hdt
    rw [hd] at hdt
    cases hdt

/-- Resetting the link of an element outside the chain changes no link of the chain. -/
theorem Chained.reset (h : Chained s c) {p : P} {input : Ptr T} (hp : s.prod p = .reset input) :
    Chained { s with
      link := update s.link input none
      prod := update s.prod p (.exchange input) } c := by
  have hin : (s.prod p).input? = some input := by rw [hp]; rfl
  -- The link that is reset belongs to no pointer of the chain.
  obtain ⟨hmem, x, rfl, hx⟩ := h.apart p input hin
  have hfirst := h.chain.first_mem
  refine { h with chain := h.chain.congr ?_ (announced_congr ?_ fun _ _ _ => Iff.rfl),
                  apart := ?_, apart_inj := ?_, cleared := ?_, announced_ne := ?_,
                  announced_inj := ?_, cons := ?_, quiet := ?_ }
  · intro a ha
    grind
  · grind
  · intro q i hq
    have := h.apart q i
    grind [EnqueuePc.input?]
  · intro q r i hq hr
    have := h.apart_inj q r i
    grind [EnqueuePc.input?]
  · intro q i hq
    have := h.cleared q i
    grind
  · intro q a b hq
    exact h.announced_ne q a b (by grind)
  · intro q r a b hq hr
    exact h.announced_inj q r a b (by grind) (by grind)
  · have hcons := h.cons
    unfold ConsOk at *
    dsimp only
    split <;> grind
  · intro hdt
    have := h.quiet hdt p
    rw [hp] at this
    cases this

omit [DecidableEq T] in
/-- The exchange of the head announces the producer's element after the old head. -/
theorem Chained.exchange (h : Chained s c) {p : P} {input : Ptr T}
    (hp : s.prod p = .exchange input) :
    Chained { s with
      head := input
      prod := update s.prod p (.link s.head input)
      exchanged := s.exchanged ++ [input] } (c ++ [input]) := by
  have hin : (s.prod p).input? = some input := by rw [hp]; rfl
  obtain ⟨hmem, x, rfl, hx⟩ := h.apart p input hin
  -- A link to the element would put it in the chain before its exchange.
  have hann : ∀ q a, s.prod q ≠ .link a (.elem x) := fun q a hq =>
    hmem (h.chain.pending a _ (.inl ⟨q, hq⟩)).1.mem_right
  refine { h with chain := ?_, owned := ?_, apart := ?_, apart_inj := ?_, cleared := ?_,
                  announced_ne := ?_, announced_inj := ?_, elements := ?_, cons := ?_,
                  quiet := ?_ }
  · refine h.chain.exchange hmem (h.cleared p _ hp) fun a b => ?_
    constructor
    · rintro (⟨q, hq⟩ | hq)
      · by_cases hqp : q = p
        · subst hqp
          exact .inr (by simpa [eq_comm] using hq)
        · exact .inl (.inl ⟨q, by simpa [hqp] using hq⟩)
      · exact .inl (.inr hq)
    · rintro ((⟨q, hq⟩ | hq) | ⟨rfl, rfl⟩)
      · exact .inl ⟨q, by grind⟩
      · exact .inr hq
      · exact .inl ⟨p, by simp⟩
  · intro y hy
    rcases List.mem_append.mp hy with hy | hy
    · exact h.owned y hy
    · obtain rfl : y = x := by simpa using hy
      exact hx
  · intro q i hq
    have := h.apart q i
    have := h.apart_inj q p i
    grind [EnqueuePc.input?]
  · intro q r i hq hr
    have := h.apart_inj q r i
    grind [EnqueuePc.input?]
  · intro q i hq
    exact h.cleared q i (by grind)
  · intro q a b hq
    have := h.announced_ne q a b
    grind
  · intro q r a b hq hr
    have := h.announced_inj q r a b
    have := hann q a
    have := hann r a
    grind
  · have helements := h.elements
    unfold State.elements at *
    rw [List.filterMap_append, List.map_append, helements, elems_append]
    simp [Ptr.elem?, State.returned]
  · have hcons := h.cons
    unfold ConsOk at *
    dsimp only
    split <;> grind
  · intro hdt
    have := h.quiet hdt p
    rw [hp] at this
    cases this

/-- The store of a producer's announced link. -/
theorem Chained.link (h : Chained s c) {p : P} {prevHead input : Ptr T}
    (hp : s.prod p = .link prevHead input) :
    Chained { s with
      link := update s.link prevHead (some input)
      prod := update s.prod p .idle } c := by
  have hann : s.Announced prevHead input := .inl ⟨p, hp⟩
  obtain ⟨hadj, hnull⟩ := h.chain.pending _ _ hann
  have hmem : prevHead ∈ c := hadj.mem_left
  refine { h with chain := ?_, apart := ?_, apart_inj := ?_, cleared := ?_, announced_ne := ?_,
                  announced_inj := ?_, cons := ?_, quiet := ?_ }
  · refine h.chain.link hann fun a b => ?_
    constructor
    · rintro (⟨q, hq⟩ | ⟨t, hc⟩)
      -- One producer alone announces this link, so its store ends the announcement.
      · have hqp : q ≠ p := by rintro rfl; simp at hq
        have hq' : s.prod q = .link a b := by simpa [hqp] using hq
        refine ⟨.inl ⟨q, hq'⟩, ?_⟩
        rintro ⟨rfl, rfl⟩
        exact hqp (h.announced_inj q p _ _ hq' hp)
      · exact ⟨.inr ⟨t, hc⟩, fun heq => h.own_ne hc hp heq.2⟩
    · rintro ⟨⟨q, hq⟩ | hc, hne⟩
      · have hqp : q ≠ p := by
          rintro rfl
          rw [hp] at hq
          cases hq
          exact hne ⟨rfl, rfl⟩
        exact .inl ⟨q, by simpa [hqp] using hq⟩
      · exact .inr hc
  · intro q i hq
    have := h.apart q i
    grind [EnqueuePc.input?]
  · intro q r i hq hr
    have := h.apart_inj q r i
    grind [EnqueuePc.input?]
  · intro q i hq
    have hq' : s.prod q = .exchange i := by grind
    have hi : i ≠ prevHead := by
      rintro rfl
      exact (h.apart q _ (by rw [hq']; rfl)).1 hmem
    have := h.cleared q i hq'
    grind
  · intro q a b hq
    exact h.announced_ne q a b (by grind)
  · intro q r a b hq hr
    exact h.announced_inj q r a b (by grind) (by grind)
  · have hcons := h.cons
    unfold ConsOk at *
    dsimp only
    split <;> grind
  · intro hdt q
    have := h.quiet hdt q
    grind

end Producer

section Consumer

/-- A history with one more `false` has the same returned elements. -/
theorem returned_returnFalse (s : State P T) : s.returnFalse.returned = s.returned := by
  simp [State.returned, State.returnFalse, List.reduceOption_append, List.reduceOption_singleton]

/-- The consumer's next program point is the only change, and no link is announced there. -/
theorem Chained.move (h : Chained s c) {pc : DequeuePc T}
    (hc : ∀ t a b, s.cons ≠ .enqueue t (.link a b)) (hpc : ∀ t a b, pc ≠ .enqueue t (.link a b))
    (hok : ConsOk { s with cons := pc } c) : Chained { s with cons := pc } c :=
  { h with
    chain := h.chain.congr (fun _ _ => rfl) (announced_congr (fun _ _ _ => Iff.rfl)
      fun t a b => ⟨fun heq => absurd heq (hpc t a b), fun heq => absurd heq (hc t a b)⟩)
    cons := hok }

/-- `Dequeue` returns `false`: nothing changes but the history and, in the destructor, what comes
next. -/
theorem Chained.returnFalse (h : Chained s c) (hc : ∀ t a b, s.cons ≠ .enqueue t (.link a b)) :
    Chained s.returnFalse c := by
  refine { h with chain := h.chain.congr (fun _ _ => rfl) (announced_congr (fun _ _ _ => Iff.rfl)
                    fun t a b => ⟨fun heq => ?_, fun heq => absurd heq (hc t a b)⟩),
                  elements := ?_, cons := ?_ }
  · simp only [State.returnFalse] at heq
    split at heq <;> cases heq
  · rw [returned_returnFalse]
    exact h.elements
  · unfold ConsOk State.returnFalse
    cases hd : s.dtor <;> simp

/-- `Dequeue` advances the tail over the dummy, which leaves the chain. -/
theorem Chained.skip (h : Chained s c) {n : Ptr T} (hc : s.cons = .skipDummy n) :
    ∃ c', Chained { s with tail := n, cons := .loadSkipped n } c' := by
  obtain ⟨ht, hn⟩ := h.at_skipDummy hc
  have helements := h.elements
  -- The dummy leaves the front of the chain, and it is nowhere else in it.
  obtain ⟨c', rfl, htc, hchain, -⟩ := h.chain.advance (ht ▸ hn)
  rw [ht] at htc helements
  refine ⟨c', ?_⟩
  refine { h with chain := hchain.congr (fun _ _ => rfl) (announced_congr
                    (fun _ _ _ => Iff.rfl) fun t a b => by simp [hc]),
                  owned := ?_, apart := ?_, elements := helements, cons := ?_ }
  · exact fun x hx => h.owned x (List.mem_cons_of_mem _ hx)
  · exact fun p i hp => ⟨fun hi => (h.apart p i hp).1 (List.mem_cons_of_mem _ hi),
      (h.apart p i hp).2⟩
  · refine ⟨rfl, ?_⟩
    rintro rfl
    exact htc hchain.first_mem

/-- `Dequeue` finds that the tail is the head, so that the chain is without the dummy. -/
theorem Chained.headEq [DecidableEq T] (h : Chained s c) (hc : s.cons = .loadHead s.head) :
    Chained { s with cons := .enqueue s.head (.reset .dummy) } c := by
  obtain ⟨ht, hne⟩ := h.at_loadHead hc
  -- A chain whose tail is its head has that one pointer.
  have hsingle : c = [s.head] := by
    have hchain := h.chain
    rw [← ht] at hchain
    exact hchain.eq_singleton
  refine h.move (by simp [hc]) (by simp) ⟨ht, hne, rfl, ?_⟩
  simpa [hsingle] using hne.symm

variable [DecidableEq T]

/-- `Dequeue` advances the tail over the element that it returns. -/
theorem Chained.store (h : Chained s c) {t n : Ptr T} (hc : s.cons = .storeTail t n) :
    ∃ c', c = t :: c' ∧ Chained (State.returnTrue { s with tail := n } t) c' := by
  obtain ⟨rfl, hne, hn⟩ := h.at_storeTail hc
  obtain ⟨x, hx⟩ := Ptr.exists_elem hne
  have helements := h.elements
  -- The element leaves the front of the chain and goes back to the caller.
  obtain ⟨c', rfl, htc, hchain, -⟩ := h.chain.advance hn
  rw [hx] at htc helements
  have howned : ∀ y, y ≠ x → release s.owned s.tail y = s.owned y := by
    intro y hy
    simp [hx, release, hy]
  refine ⟨c', rfl, ?_⟩
  refine { h with chain := hchain.congr (fun _ _ => rfl) (announced_congr
                    (fun _ _ _ => Iff.rfl) fun t a b => ?_),
                  owned := ?_, apart := ?_, elements := ?_, cons := ?_ }
  · unfold State.returnTrue
    cases s.dtor <;> simp [hc]
  · intro y hy
    have hyx : y ≠ x := fun heq => htc (heq ▸ hy)
    exact (howned y hyx).trans (h.owned y (List.mem_cons_of_mem _ hy))
  · intro p i hp
    obtain ⟨hi, y, rfl, hy⟩ := h.apart p i hp
    have hyx : y ≠ x := by
      rintro rfl
      exact hi (by simp [hx])
    exact ⟨fun hic => hi (List.mem_cons_of_mem _ hic), y, rfl, (howned y hyx).trans hy⟩
  · show s.elements = _
    rw [helements, hx]
    simp [State.returned, State.returnTrue, List.reduceOption_append,
      List.reduceOption_singleton]
  · unfold ConsOk State.returnTrue
    cases hd : s.dtor <;> simp

/-- The consumer resets the link of the dummy, which is outside the chain. -/
theorem Chained.ownReset (h : Chained s c) {t i : Ptr T}
    (hc : s.cons = .enqueue t (.reset i)) :
    Chained { s with link := update s.link i none, cons := .enqueue t (.exchange i) } c := by
  obtain ⟨rfl, hne, rfl, hmem⟩ := h.at_ownReset hc
  refine { h with chain := h.chain.congr ?_ (announced_congr (fun _ _ _ => Iff.rfl)
                    fun t a b => by simp [hc]),
                  cleared := ?_, cons := ⟨rfl, hne, rfl, hmem, by simp⟩ }
  · intro a ha
    have : a ≠ .dummy := by
      rintro rfl
      exact hmem ha
    exact Function.update_of_ne this _ _
  · intro p i hp
    have := h.cleared p i hp
    grind

omit [DecidableEq T] in
/-- The consumer's exchange of the head announces the dummy after the old head. -/
theorem Chained.ownExchange (h : Chained s c) {t i : Ptr T}
    (hc : s.cons = .enqueue t (.exchange i)) :
    Chained { s with
      head := i
      cons := .enqueue t (.link s.head i)
      exchanged := s.exchanged ++ [i] } (c ++ [i]) := by
  obtain ⟨rfl, hne, rfl, hmem, hnull⟩ := h.at_ownExchange hc
  refine { h with chain := ?_, owned := ?_, apart := ?_, elements := ?_,
                  cons := ⟨rfl, hne, rfl⟩ }
  · refine h.chain.exchange hmem hnull fun a b => ?_
    constructor
    · rintro (hp | ⟨t, ht⟩)
      · exact .inl (.inl hp)
      · cases ht
        exact .inr ⟨rfl, rfl⟩
    · rintro ((hp | ⟨t, ht⟩) | ⟨rfl, rfl⟩)
      · exact .inl hp
      · rw [hc] at ht
        cases ht
      · exact .inr ⟨s.tail, rfl⟩
  · intro x hx
    exact h.owned x (by simpa using hx)
  · intro p i hp
    obtain ⟨hi, x, rfl, hx⟩ := h.apart p i hp
    exact ⟨by simpa using hi, x, rfl, hx⟩
  · have helements := h.elements
    unfold State.elements at *
    rw [List.filterMap_append, List.map_append, helements]
    simp [Ptr.elem?, State.returned]

/-- The consumer's store of the announced link to the dummy. -/
theorem Chained.ownLink (h : Chained s c) {t prevHead input : Ptr T}
    (hc : s.cons = .enqueue t (.link prevHead input)) :
    Chained { s with
      link := update s.link prevHead (some input)
      cons := .reload t } c := by
  have hann : s.Announced prevHead input := .inr ⟨t, hc⟩
  have hmem : prevHead ∈ c := (h.chain.pending _ _ hann).1.mem_left
  obtain ⟨rfl, hne, rfl⟩ := h.at_ownLink hc
  refine { h with chain := ?_, cleared := ?_, cons := ⟨rfl, hne⟩ }
  · refine h.chain.link hann fun a b => ?_
    constructor
    · rintro (⟨p, hp⟩ | ⟨t, ht⟩)
      · exact ⟨.inl ⟨p, hp⟩, fun heq => h.announced_ne p a b hp heq.2⟩
      · cases ht
    · rintro ⟨hp | ⟨t, ht⟩, hne'⟩
      · exact .inl hp
      · rw [hc] at ht
        cases ht
        exact absurd ⟨rfl, rfl⟩ hne'
  · intro p i hp
    have hi : i ≠ prevHead := by
      rintro rfl
      exact (h.apart p _ (by rw [hp]; rfl)).1 hmem
    have := h.cleared p i hp
    grind

end Consumer

variable [DecidableEq P] [DecidableEq T]

/-- Every effect keeps the links in shape. -/
theorem Chained.step (h : Chained s c) (heff : Effect s a s') : ∃ c', Chained s' c' := by
  cases heff with
  | enter p input hd ho hp => exact ⟨_, h.enter hd ho hp⟩
  | reset p input hp => exact ⟨_, h.reset hp⟩
  | exchange p input hp => exact ⟨_, h.exchange hp⟩
  | link p prevHead input hp => exact ⟨_, h.link hp⟩
  | call hc => exact ⟨_, h.move (by simp [hc]) (by simp) rfl⟩
  | dummyNull hc hn => exact ⟨_, h.returnFalse (by simp [hc])⟩
  | dummyNext n hc hn =>
    exact ⟨_, h.move (by simp [hc]) (by simp) ⟨(h.at_loadNext hc).symm, hn⟩⟩
  | skip n hc => exact h.skip hc
  -- Whether the dummy was skipped before or not, the tail is an element now.
  | loadNull t hc hn =>
    have ht : t = s.tail ∧ t ≠ .dummy := by
      rcases hc with ⟨hc, hne⟩ | hc
      · exact ⟨h.at_loadNext hc, hne⟩
      · exact h.at_loadSkipped hc
    exact ⟨_, h.move (by rcases hc with ⟨hc, -⟩ | hc <;> simp [hc]) (by simp) ht⟩
  | loadNext t n hc hn =>
    have ht : t = s.tail ∧ t ≠ .dummy := by
      rcases hc with ⟨hc, hne⟩ | hc | hc
      · exact ⟨h.at_loadNext hc, hne⟩
      · exact h.at_loadSkipped hc
      · exact h.at_reload hc
    exact ⟨_, h.move (by rcases hc with ⟨hc, -⟩ | hc | hc <;> simp [hc]) (by simp)
      ⟨ht.1, ht.2, hn⟩⟩
  | store t n hc =>
    obtain ⟨c', -, h'⟩ := h.store hc
    exact ⟨c', h'⟩
  | headEq hc => exact ⟨_, h.headEq hc⟩
  | headNe t hc hne => exact ⟨_, h.returnFalse (by simp [hc])⟩
  | ownReset t i hc => exact ⟨_, h.ownReset hc⟩
  | ownExchange t i hc => exact ⟨_, h.ownExchange hc⟩
  | ownLink t prevHead i hc => exact ⟨_, h.ownLink hc⟩
  | reloadNull t hc hn => exact ⟨_, h.returnFalse (by simp [hc])⟩
  -- The destructor goes on with the next element, and starts with the tail.
  | output output hc =>
    have hmove : Chained { s with cons := .loadNext s.tail } c :=
      h.move (by simp [hc]) (by simp) rfl
    exact ⟨_, { hmove with }⟩
  | destroy hc hp =>
    have hmove : Chained { s with cons := .loadNext s.tail } c :=
      h.move (by simp [hc]) (by simp) rfl
    exact ⟨_, { hmove with quiet := fun _ => hp }⟩

/-- The links of every reachable queue are in shape. -/
theorem chained_of_reachable (h : Reachable s) : ∃ c, Chained s c := by
  refine h.invariant (fun s => ∃ c, Chained s c) (fun link => ⟨[.dummy], ?_⟩)
    fun t _ u ⟨c, ht⟩ heff => ht.step heff
  exact
    { chain := BrokenChain.singleton rfl (by rintro a b (⟨p, hp⟩ | ⟨t, ht⟩) <;> contradiction)
      owned := by simp
      apart := fun p i hp => by cases hp
      apart_inj := fun p q i hp => by cases hp
      cleared := fun p i hp => by cases hp
      announced_ne := fun p a b hp => by cases hp
      announced_inj := fun p q a b hp => by cases hp
      elements := rfl
      cons := rfl
      quiet := fun _ _ => rfl }

end CPStudy.MPSCQueue.Intrusive
