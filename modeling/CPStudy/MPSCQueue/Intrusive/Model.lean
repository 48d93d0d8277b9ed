import Mathlib.Data.Fintype.Basic
import Mathlib.Logic.Function.Basic
import CPStudy.Lib.Transition

/-!
# `MPSCQueueIntrusive`

The queue of `queue_design-master/MPSCQueue.h` that links the elements themselves, as a transition
system over a type `P` of producers, one consumer, and elements `T`. The consumer keeps the chain
from running empty by a dummy element of its own, which it enqueues as a producer does. A step is
one atomic operation of the source, in a sequentially consistent interleaving; the destructor is a
last activity of the consumer.

The elements belong to the callers: `owned` is the history of which are handed over, from the call
of `Enqueue` to the `Dequeue` that returns them. The code does not read it; that an element is not
enqueued again before it was returned is what the callers promise (`Allowed`).
-/

namespace CPStudy.MPSCQueue.Intrusive

open Function (update)

/-- A non-null `T*`: the address of `_dummy` or an element. -/
inductive Ptr (T : Type*)
  /-- `_dummyPtr`. -/
  | dummy
  /-- An element of the callers. -/
  | elem (x : T)
deriving DecidableEq

/-- The element that a pointer points to, if it is not the dummy. -/
def Ptr.elem? {T : Type*} : Ptr T → Option T
  | .dummy => none
  | .elem x => some x

/-- Where a thread stands in `Enqueue`. -/
inductive EnqueuePc (T : Type*)
  /-- Not in `Enqueue`. -/
  | idle
  /-- Before `(input->*IntrusiveLink).store(nullptr)`. -/
  | reset (input : Ptr T)
  /-- Before `_head.exchange(input)`. -/
  | exchange (input : Ptr T)
  /-- Before `(prevHead->*IntrusiveLink).store(input)`. -/
  | link (prevHead input : Ptr T)
deriving DecidableEq

/-- Where the consumer stands in `Dequeue` or in the destructor. -/
inductive DequeuePc (T : Type*)
  /-- In neither. -/
  | idle
  /-- `tail` is loaded, before the first load of its link. -/
  | loadNext (tail : Ptr T)
  /-- `tail` is the dummy, before `_tail.store(next)`. -/
  | skipDummy (next : Ptr T)
  /-- `tail` is the dummy's successor, before the load of its link. -/
  | loadSkipped (tail : Ptr T)
  /-- Before a `_tail.store(next)` after which `tail` is returned. -/
  | storeTail (tail next : Ptr T)
  /-- Before `_head.load()`. -/
  | loadHead (tail : Ptr T)
  /-- Inside `Enqueue(_dummyPtr)`. -/
  | enqueue (tail : Ptr T) (pc : EnqueuePc T)
  /-- Before the last load of the tail's link. -/
  | reload (tail : Ptr T)
  /-- In the destructor, before `delete output`. -/
  | deleteOutput (output : Ptr T)
  /-- After the destructor. -/
  | destroyed
deriving DecidableEq

/-- A state of the queue and of the threads that use it. -/
structure State (P T : Type*) where
  /-- The link of each element and of the dummy, with `none` for the null pointer. -/
  link : Ptr T → Option (Ptr T)
  /-- `_head`. -/
  head : Ptr T
  /-- `_tail`. -/
  tail : Ptr T
  /-- The producers. -/
  prod : P → EnqueuePc T
  /-- The consumer. -/
  cons : DequeuePc T
  /-- The destructor has begun. -/
  dtor : Bool
  /-- The elements handed to `Enqueue` and not yet returned by `Dequeue`. -/
  owned : T → Bool
  /-- The inputs of the exchanges of `_head` so far, in order. -/
  exchanged : List (Ptr T)
  /-- The results of the `Dequeue` calls so far, with `none` for `false`. -/
  outcomes : List (Option (Ptr T))
  /-- What `Dequeue` has returned to the consumer, outside the destructor. -/
  delivered : List (Ptr T)
  /-- What the destructor has called `delete` on. -/
  deleted : List (Ptr T)

variable {P T : Type*}

/-- What successful `Dequeue` calls have returned, in order. -/
def State.returned (s : State P T) : List (Ptr T) := s.outcomes.reduceOption

/-- The elements in the order of their exchanges. -/
def State.elements (s : State P T) : List (Ptr T) :=
  (s.exchanged.filterMap Ptr.elem?).map .elem

/-- The queue that the constructor makes: both ends at the dummy, whose link is null. The links of
the elements are whatever they are. -/
def State.init (P : Type*) {T : Type*} (link : T → Option (Ptr T)) : State P T where
  link := fun
    | .dummy => none
    | .elem x => link x
  head := .dummy
  tail := .dummy
  prod := fun _ => .idle
  cons := .idle
  dtor := false
  owned := fun _ => false
  exchanged := []
  outcomes := []
  delivered := []
  deleted := []

/-- What a thread does next. -/
inductive Action (P T : Type*)
  /-- The producer calls `Enqueue(input)`. -/
  | enqueue (p : P) (input : T)
  /-- The next step of the producer's `Enqueue`. -/
  | prod (p : P)
  /-- The consumer calls `Dequeue`. -/
  | dequeue
  /-- The next step of the consumer. -/
  | cons
  /-- The destructor begins. -/
  | destroy

variable [DecidableEq T]

/-- `return false`. The loop of the destructor ends with it. -/
def State.returnFalse (s : State P T) : State P T :=
  { s with
    outcomes := s.outcomes ++ [none]
    cons := if s.dtor then .destroyed else .idle }

/-- The caller of `Dequeue` owns the result. -/
def release (owned : T → Bool) : Ptr T → T → Bool
  | .dummy => owned
  | .elem x => update owned x false

/-- `return true` with the pointer in `result`. The loop of the destructor goes on to delete
it. -/
def State.returnTrue (s : State P T) (result : Ptr T) : State P T :=
  { s with
    outcomes := s.outcomes ++ [some result]
    owned := release s.owned result
    delivered := if s.dtor then s.delivered else s.delivered ++ [result]
    cons := if s.dtor then .deleteOutput result else .idle }

/-- A step of `Enqueue`, by a producer or by the consumer, and where it leads. -/
def stepEnqueue (s : State P T) : EnqueuePc T → Option (State P T × EnqueuePc T)
  | .idle => none
  | .reset input => some ({ s with link := update s.link input none }, .exchange input)
  | .exchange input =>
    some ({ s with head := input, exchanged := s.exchanged ++ [input] }, .link s.head input)
  | .link prevHead input =>
    some ({ s with link := update s.link prevHead (some input) }, .idle)

/-- A step of `Dequeue` or of the destructor. -/
def stepCons (s : State P T) : Option (State P T) :=
  match s.cons with
  | .idle => none
  | .loadNext tail =>
    match s.link tail with
    -- The empty queue and a link not stored yet look the same from the dummy.
    | none => if tail = .dummy then some s.returnFalse else some { s with cons := .loadHead tail }
    | some next =>
      if tail = .dummy then some { s with cons := .skipDummy next }
      else some { s with cons := .storeTail tail next }
  | .skipDummy next => some { s with tail := next, cons := .loadSkipped next }
  | .loadSkipped tail =>
    match s.link tail with
    | none => some { s with cons := .loadHead tail }
    | some next => some { s with cons := .storeTail tail next }
  | .storeTail tail next => some (State.returnTrue { s with tail := next } tail)
  | .loadHead tail =>
    -- The last element can go only with something behind it, so the dummy is enqueued.
    if tail = s.head then some { s with cons := .enqueue tail (.reset .dummy) }
    else some s.returnFalse
  | .enqueue tail pc =>
    match stepEnqueue s pc with
    | none => none
    | some (s', .idle) => some { s' with cons := .reload tail }
    | some (s', pc') => some { s' with cons := .enqueue tail pc' }
  | .reload tail =>
    match s.link tail with
    | none => some s.returnFalse
    | some next => some { s with cons := .storeTail tail next }
  | .deleteOutput output =>
    some { s with deleted := s.deleted ++ [output], cons := .loadNext s.tail }
  | .destroyed => none

variable [DecidableEq P]

/-- A step of the system. -/
def step (s : State P T) : Action P T → Option (State P T)
  | .enqueue p input =>
    match s.prod p with
    | .idle => some { s with
        prod := update s.prod p (.reset (.elem input))
        owned := update s.owned input true }
    | _ => none
  | .prod p =>
    (stepEnqueue s (s.prod p)).map fun (s', pc) => { s' with prod := update s.prod p pc }
  | .dequeue =>
    match s.cons with
    | .idle => some { s with cons := .loadNext s.tail }
    | _ => none
  | .cons => stepCons s
  | .destroy =>
    match s.cons with
    | .idle => some { s with cons := .loadNext s.tail, dtor := true }
    | _ => none

/-- What the users of the queue keep to: an element is not enqueued again until `Dequeue` has
returned it, the destructor runs when no `Enqueue` is in flight, and no `Enqueue` starts after it
has begun. -/
def Allowed (s : State P T) : Action P T → Prop
  | .enqueue _ input => s.dtor = false ∧ s.owned input = false
  | .destroy => ∀ p, s.prod p = .idle
  | _ => True

instance [Fintype P] (s : State P T) (a : Action P T) : Decidable (Allowed s a) :=
  match a with
  | .enqueue _ input => inferInstanceAs (Decidable (s.dtor = false ∧ s.owned input = false))
  | .destroy => inferInstanceAs (Decidable (∀ p, s.prod p = .idle))
  | .prod _ => inferInstanceAs (Decidable True)
  | .dequeue => inferInstanceAs (Decidable True)
  | .cons => inferInstanceAs (Decidable True)

/-- The elements whose link a step of `Enqueue` loads or stores. -/
def EnqueuePc.touches : EnqueuePc T → List (Ptr T)
  | .reset input => [input]
  | .link prevHead _ => [prevHead]
  | _ => []

/-- The elements whose link the next step of an action loads or stores. -/
def touches (s : State P T) : Action P T → List (Ptr T)
  | .prod p => (s.prod p).touches
  | .cons => match s.cons with
    | .loadNext tail => [tail]
    | .loadSkipped tail => [tail]
    | .enqueue _ pc => pc.touches
    | .reload tail => [tail]
    | _ => []
  | _ => []

/-- A state that some run of a queue reaches. -/
def Reachable (s : State P T) : Prop :=
  ∃ link, Lib.Reaches step Allowed (State.init P link) s

/-- A state that a list of allowed actions leads to is reachable. -/
theorem exists_reachable [Fintype P] (link : T → Option (Ptr T)) (as : List (Action P T))
    (p : State P T → Bool)
    (h : (Lib.replay step (fun s a => decide (Allowed s a)) (State.init P link) as).any p =
      true) :
    ∃ s, Reachable s ∧ p s = true := by
  obtain ⟨s, hs, hp⟩ := Lib.exists_reaches step (fun s a => decide (Allowed s a))
    (State.init P link) as p h
  exact ⟨s, ⟨link, hs.mono fun _ _ hok => of_decide_eq_true hok⟩, hp⟩

/-- The changes a step can make, with what the code has tested before each. -/
inductive Effect (s : State P T) : Action P T → State P T → Prop
  /-- `Enqueue` is called. -/
  | enter (p : P) (input : T) (hd : s.dtor = false) (ho : s.owned input = false)
      (hp : s.prod p = .idle) :
      Effect s (.enqueue p input) { s with
        prod := update s.prod p (.reset (.elem input))
        owned := update s.owned input true }
  /-- `Enqueue` resets the link of its element. -/
  | reset (p : P) (input : Ptr T) (hp : s.prod p = .reset input) :
      Effect s (.prod p) { s with
        link := update s.link input none
        prod := update s.prod p (.exchange input) }
  /-- `Enqueue` exchanges the head. -/
  | exchange (p : P) (input : Ptr T) (hp : s.prod p = .exchange input) :
      Effect s (.prod p) { s with
        head := input
        prod := update s.prod p (.link s.head input)
        exchanged := s.exchanged ++ [input] }
  /-- `Enqueue` stores the old head's link. -/
  | link (p : P) (prevHead input : Ptr T) (hp : s.prod p = .link prevHead input) :
      Effect s (.prod p) { s with
        link := update s.link prevHead (some input)
        prod := update s.prod p .idle }
  /-- `Dequeue` is called. -/
  | call (hc : s.cons = .idle) : Effect s .dequeue { s with cons := .loadNext s.tail }
  /-- `Dequeue` finds the dummy alone and returns `false`. -/
  | dummyNull (hc : s.cons = .loadNext .dummy) (hn : s.link .dummy = none) :
      Effect s .cons s.returnFalse
  /-- `Dequeue` finds an element after the dummy. -/
  | dummyNext (next : Ptr T) (hc : s.cons = .loadNext .dummy)
      (hn : s.link .dummy = some next) : Effect s .cons { s with cons := .skipDummy next }
  /-- `Dequeue` advances the tail over the dummy. -/
  | skip (next : Ptr T) (hc : s.cons = .skipDummy next) :
      Effect s .cons { s with tail := next, cons := .loadSkipped next }
  /-- `Dequeue` finds no link at an element. -/
  | loadNull (tail : Ptr T) (hc : s.cons = .loadNext tail ∧ tail ≠ .dummy ∨
      s.cons = .loadSkipped tail) (hn : s.link tail = none) :
      Effect s .cons { s with cons := .loadHead tail }
  /-- `Dequeue` finds the link of an element. -/
  | loadNext (tail next : Ptr T) (hc : s.cons = .loadNext tail ∧ tail ≠ .dummy ∨
      s.cons = .loadSkipped tail ∨ s.cons = .reload tail) (hn : s.link tail = some next) :
      Effect s .cons { s with cons := .storeTail tail next }
  /-- `Dequeue` advances the tail over an element and returns it. -/
  | store (tail next : Ptr T) (hc : s.cons = .storeTail tail next) :
      Effect s .cons (State.returnTrue { s with tail := next } tail)
  /-- `Dequeue` finds that the tail is the head and enqueues the dummy. -/
  | headEq (hc : s.cons = .loadHead s.head) :
      Effect s .cons { s with cons := .enqueue s.head (.reset .dummy) }
  /-- `Dequeue` finds that the tail is not the head and returns `false`. -/
  | headNe (tail : Ptr T) (hc : s.cons = .loadHead tail) (hne : tail ≠ s.head) :
      Effect s .cons s.returnFalse
  /-- The consumer's `Enqueue` resets the link of the dummy. -/
  | ownReset (tail input : Ptr T) (hc : s.cons = .enqueue tail (.reset input)) :
      Effect s .cons { s with
        link := update s.link input none
        cons := .enqueue tail (.exchange input) }
  /-- The consumer's `Enqueue` exchanges the head. -/
  | ownExchange (tail input : Ptr T) (hc : s.cons = .enqueue tail (.exchange input)) :
      Effect s .cons { s with
        head := input
        cons := .enqueue tail (.link s.head input)
        exchanged := s.exchanged ++ [input] }
  /-- The consumer's `Enqueue` stores the old head's link. -/
  | ownLink (tail prevHead input : Ptr T)
      (hc : s.cons = .enqueue tail (.link prevHead input)) :
      Effect s .cons { s with
        link := update s.link prevHead (some input)
        cons := .reload tail }
  /-- `Dequeue` still finds no link at the tail and returns `false`. -/
  | reloadNull (tail : Ptr T) (hc : s.cons = .reload tail) (hn : s.link tail = none) :
      Effect s .cons s.returnFalse
  /-- The destructor deletes the element that it has dequeued. -/
  | output (output : Ptr T) (hc : s.cons = .deleteOutput output) :
      Effect s .cons { s with deleted := s.deleted ++ [output], cons := .loadNext s.tail }
  /-- The destructor begins. -/
  | destroy (hc : s.cons = .idle) (hp : ∀ p, s.prod p = .idle) :
      Effect s .destroy { s with cons := .loadNext s.tail, dtor := true }

/-- Every allowed step has one of the effects. -/
theorem effect_of_step {s s' : State P T} {a : Action P T} (hok : Allowed s a)
    (h : step s a = some s') : Effect s a s' := by
  cases a with
  | enqueue p input =>
    simp only [step] at h
    split at h
    case h_1 hp => exact Option.some.inj h ▸ .enter p input hok.1 hok.2 hp
    case h_2 => cases h
  | prod p =>
    simp only [step, Option.map_eq_some_iff] at h
    obtain ⟨⟨t, pc⟩, ht, rfl⟩ := h
    cases hp : s.prod p with
    | idle => simp [hp, stepEnqueue] at ht
    | reset input =>
      rw [hp] at ht
      cases ht
      exact .reset p input hp
    | exchange input =>
      rw [hp] at ht
      cases ht
      exact .exchange p input hp
    | link prevHead input =>
      rw [hp] at ht
      cases ht
      exact .link p prevHead input hp
  | dequeue =>
    simp only [step] at h
    split at h
    case h_1 hc => exact Option.some.inj h ▸ .call hc
    case h_2 => cases h
  | cons =>
    simp only [step, stepCons] at h
    split at h
    -- `if (tail == &mDummy)`, after `mNext` of `tail` was loaded.
    case h_2 tail hc =>
      split at h
      case h_1 hn =>
        split at h
        case isTrue heq =>
          subst heq
          exact Option.some.inj h ▸ .dummyNull hc hn
        case isFalse hne => exact Option.some.inj h ▸ .loadNull tail (.inl ⟨hc, hne⟩) hn
      case h_2 next hn =>
        split at h
        case isTrue heq =>
          subst heq
          exact Option.some.inj h ▸ .dummyNext next hc hn
        case isFalse hne => exact Option.some.inj h ▸ .loadNext tail next (.inl ⟨hc, hne⟩) hn
    case h_3 next hc => exact Option.some.inj h ▸ .skip next hc
    -- The tail is an element now, or was one from the start.
    case h_4 tail hc =>
      split at h
      case h_1 hn => exact Option.some.inj h ▸ .loadNull tail (.inr hc) hn
      case h_2 next hn => exact Option.some.inj h ▸ .loadNext tail next (.inr (.inl hc)) hn
    case h_5 tail next hc => exact Option.some.inj h ▸ .store tail next hc
    case h_6 tail hc =>
      split at h
      case isTrue heq =>
        subst heq
        exact Option.some.inj h ▸ .headEq hc
      case isFalse hne => exact Option.some.inj h ▸ .headNe tail hc hne
    -- The consumer enqueues the dummy by the same three steps as a producer.
    case h_7 tail pc hc =>
      cases pc with
      | idle => cases h
      | reset input => exact Option.some.inj h ▸ .ownReset tail input hc
      | exchange input => exact Option.some.inj h ▸ .ownExchange tail input hc
      | link prevHead input => exact Option.some.inj h ▸ .ownLink tail prevHead input hc
    -- The second load of `mNext`, after which `Dequeue` gives up if it is still `nullptr`.
    case h_8 tail hc =>
      split at h
      case h_1 hn => exact Option.some.inj h ▸ .reloadNull tail hc hn
      case h_2 next hn => exact Option.some.inj h ▸ .loadNext tail next (.inr (.inr hc)) hn
    case h_9 output hc => exact Option.some.inj h ▸ .output output hc
    all_goals cases h
  | destroy =>
    simp only [step] at h
    split at h
    case h_1 hc => exact Option.some.inj h ▸ .destroy hc hok
    case h_2 => cases h

/-- What every effect preserves from the initial state holds in every reachable state. -/
theorem Reachable.invariant (I : State P T → Prop) {s : State P T} (hs : Reachable s)
    (h0 : ∀ link, I (State.init P link)) (hI : ∀ t a u, I t → Effect t a u → I u) : I s := by
  obtain ⟨link, hs⟩ := hs
  exact Lib.Reaches.invariant (h0 link)
    (fun _ _ _ ht hok hstep => hI _ _ _ ht (effect_of_step hok hstep)) hs

end CPStudy.MPSCQueue.Intrusive
