import Mathlib.Data.Fintype.Basic
import Mathlib.Logic.Function.Basic
import CPStudy.Lib.Transition

/-!
# `MPSCQueueNonIntrusive`

The queue of `queue_design-master/MPSCQueue.h` that wraps each value in a node of its own, as a
transition system over a type `P` of producers, one consumer, and values of a type `T`. A step is
one atomic operation of the source: the exchange of `_head`, the store or the load of a node's
`Next`, the store of `_tail`; the allocation of a node with the stores of its constructor, which
no other thread can see, is one step, and so is each `delete`. The interleaving is sequentially
consistent. The destructor is a last activity of the consumer.

A node is named by its allocation, a number that `new` never hands out again. The code compares no
node addresses, and a pointer to a deleted node does not become valid again when a later node gets
the same address.
-/

namespace CPStudy.MPSCQueue.NonIntrusive

open Function (update)

/-- A node, named by its allocation. -/
abbrev NodeId := ℕ

/-- `Node`. -/
structure Node (T : Type*) where
  /-- `Data`. -/
  data : T
  /-- `Next`, with `none` for the null pointer. -/
  next : Option NodeId

/-- Where a producer stands in `Enqueue`. -/
inductive ProdPc (T : Type*)
  /-- Not in `Enqueue`. -/
  | idle
  /-- Before `_head.exchange(node)`. -/
  | exchange (node : NodeId) (input : T)
  /-- Before `prevHead->Next.store(node)`. -/
  | link (prevHead node : NodeId)
deriving DecidableEq

/-- Where the consumer stands in `Dequeue` or in the destructor. -/
inductive ConsPc (T : Type*)
  /-- In neither. -/
  | idle
  /-- `tail` is loaded, before `tail->Next.load()`. -/
  | loadNext (tail : NodeId)
  /-- Before `next->Data` is read. -/
  | readData (tail next : NodeId)
  /-- Before `_tail.store(next)`. -/
  | storeTail (tail next : NodeId) (result : T)
  /-- Before `delete tail`. -/
  | deleteTail (tail : NodeId) (result : T)
  /-- In the destructor, before `delete output`. -/
  | deleteOutput (output : T)
  /-- In the destructor, before `delete front`. -/
  | deleteFront
  /-- After the destructor. -/
  | destroyed
deriving DecidableEq

/-- One exchange of `_head`: the producer, its node and the value in it. -/
structure Exchange (P T : Type*) where
  /-- The producer. -/
  producer : P
  /-- The node that became the head. -/
  node : NodeId
  /-- The value that the producer enqueues. -/
  value : T

/-- A state of the queue and of the threads that use it. -/
structure State (P T : Type*) where
  /-- The nodes that are allocated. -/
  mem : NodeId → Option (Node T)
  /-- The name of the next allocation. -/
  fresh : NodeId
  /-- `_head`. -/
  head : NodeId
  /-- `_tail`. -/
  tail : NodeId
  /-- The producers. -/
  prod : P → ProdPc T
  /-- The consumer. -/
  cons : ConsPc T
  /-- The destructor has begun. -/
  dtor : Bool
  /-- The values with which each producer has called `Enqueue`, in order. -/
  calls : P → List T
  /-- The exchanges of `_head` so far, in order. -/
  exchanged : List (Exchange P T)
  /-- The results of the `Dequeue` calls so far, with `none` for `false`. -/
  outcomes : List (Option T)
  /-- The values that `Dequeue` has returned to the consumer, outside the destructor. -/
  delivered : List T
  /-- The values on which the destructor has called `delete`. -/
  deleted : List T
  /-- The nodes deleted so far. -/
  freed : List NodeId

variable {P T : Type*}

/-- The values that successful `Dequeue` calls have returned, in order. -/
def State.returned (s : State P T) : List T := s.outcomes.reduceOption

/-- The queue that the constructor makes: both ends at one node without a successor, whose `Data`
is not initialised. -/
def State.init (P : Type*) (uninit : T) : State P T where
  mem := update (fun _ => none) 0 (some ⟨uninit, none⟩)
  fresh := 1
  head := 0
  tail := 0
  prod := fun _ => .idle
  cons := .idle
  dtor := false
  calls := fun _ => []
  exchanged := []
  outcomes := []
  delivered := []
  deleted := []
  freed := []

/-- `delete node`. -/
def State.delete (s : State P T) (node : NodeId) : State P T :=
  { s with mem := update s.mem node none, freed := s.freed ++ [node] }

/-- What a thread does next. -/
inductive Action (P T : Type*)
  /-- The producer calls `Enqueue(input)`, up to the exchange. -/
  | enqueue (p : P) (input : T)
  /-- The next step of the producer's `Enqueue`. -/
  | prod (p : P)
  /-- The consumer calls `Dequeue`. -/
  | dequeue
  /-- The next step of the consumer. -/
  | cons
  /-- The destructor begins. -/
  | destroy

/-- `return false`. The loop of the destructor ends with it. -/
def State.returnFalse (s : State P T) : State P T :=
  { s with
    outcomes := s.outcomes ++ [none]
    cons := if s.dtor then .deleteFront else .idle }

/-- `return true` with the value in `result`. The loop of the destructor goes on to delete it. -/
def State.returnTrue (s : State P T) (result : T) : State P T :=
  { s with
    outcomes := s.outcomes ++ [some result]
    delivered := if s.dtor then s.delivered else s.delivered ++ [result]
    cons := if s.dtor then .deleteOutput result else .idle }

variable [DecidableEq P]

/-- `Node* node = new Node(input)`. -/
def beginEnqueue (s : State P T) (p : P) (input : T) : Option (State P T) :=
  match s.prod p with
  | .idle => some { s with
      mem := update s.mem s.fresh (some ⟨input, none⟩)
      fresh := s.fresh + 1
      prod := update s.prod p (.exchange s.fresh input)
      calls := update s.calls p (s.calls p ++ [input]) }
  | _ => none

/-- A step of `Enqueue`: the exchange of `_head`, then the store of the old head's `Next`. An
access to a node that is not allocated has no defined result. -/
def stepProd (s : State P T) (p : P) : Option (State P T) :=
  match s.prod p with
  | .idle => none
  | .exchange node input => some { s with
      head := node
      prod := update s.prod p (.link s.head node)
      exchanged := s.exchanged ++ [⟨p, node, input⟩] }
  | .link prevHead node =>
    match s.mem prevHead with
    | none => none
    | some nd => some { s with
        mem := update s.mem prevHead (some { nd with next := some node })
        prod := update s.prod p .idle }

omit [DecidableEq P] in
/-- A step of `Dequeue` or of the destructor. An access to a node that is not allocated has no
defined result. -/
def stepCons (s : State P T) : Option (State P T) :=
  match s.cons with
  | .idle => none
  | .loadNext tail =>
    match s.mem tail with
    | none => none
    | some nd =>
      match nd.next with
      -- Also with values behind a link that its producer has not stored yet.
      | none => some s.returnFalse
      | some next => some { s with cons := .readData tail next }
  | .readData tail next =>
    match s.mem next with
    | none => none
    | some nd => some { s with cons := .storeTail tail next nd.data }
  | .storeTail tail next result => some { s with tail := next, cons := .deleteTail tail result }
  -- The old tail is deleted; the node of the value stays as the new one.
  | .deleteTail tail result => some ((s.delete tail).returnTrue result)
  | .deleteOutput output =>
    some { s with deleted := s.deleted ++ [output], cons := .loadNext s.tail }
  | .deleteFront => some { s.delete s.head with cons := .destroyed }
  | .destroyed => none

/-- A step of the system. -/
def step (s : State P T) : Action P T → Option (State P T)
  | .enqueue p input => beginEnqueue s p input
  | .prod p => stepProd s p
  | .dequeue =>
    match s.cons with
    | .idle => some { s with cons := .loadNext s.tail }
    | _ => none
  | .cons => stepCons s
  | .destroy =>
    match s.cons with
    | .idle => some { s with cons := .loadNext s.tail, dtor := true }
    | _ => none

/-- What the users of the queue keep to: the destructor runs when no `Enqueue` is in flight, and
no `Enqueue` starts after it has begun. -/
def Allowed (s : State P T) : Action P T → Prop
  | .enqueue _ _ => s.dtor = false
  | .destroy => ∀ p, s.prod p = .idle
  | _ => True

instance [Fintype P] [DecidableEq T] (s : State P T) (a : Action P T) : Decidable (Allowed s a) :=
  match a with
  | .enqueue _ _ => inferInstanceAs (Decidable (s.dtor = false))
  | .destroy => inferInstanceAs (Decidable (∀ p, s.prod p = .idle))
  | .prod _ => inferInstanceAs (Decidable True)
  | .dequeue => inferInstanceAs (Decidable True)
  | .cons => inferInstanceAs (Decidable True)

/-- The nodes that the next step of an action reads, writes or deletes. -/
def touches (s : State P T) : Action P T → List NodeId
  | .enqueue _ _ => [s.fresh]
  | .prod p => match s.prod p with
    | .link prevHead _ => [prevHead]
    | _ => []
  | .cons => match s.cons with
    | .loadNext tail => [tail]
    | .readData _ next => [next]
    | .deleteTail tail _ => [tail]
    | .deleteFront => [s.head]
    | _ => []
  | _ => []

/-- A state that some run of a queue reaches. -/
def Reachable (uninit : T) (s : State P T) : Prop :=
  Lib.Reaches step Allowed (State.init P uninit) s

/-- A state that a list of allowed actions leads to is reachable. -/
theorem exists_reachable [Fintype P] [DecidableEq T] (uninit : T) (as : List (Action P T))
    (p : State P T → Bool)
    (h : (Lib.replay step (fun s a => decide (Allowed s a)) (State.init P uninit) as).any p =
      true) :
    ∃ s, Reachable uninit s ∧ p s = true := by
  obtain ⟨s, hs, hp⟩ := Lib.exists_reaches step (fun s a => decide (Allowed s a))
    (State.init P uninit) as p h
  exact ⟨s, hs.mono fun _ _ hok => of_decide_eq_true hok, hp⟩

/-- The changes a step can make, with what the code has tested before each. -/
inductive Effect (s : State P T) : Action P T → State P T → Prop
  /-- `Enqueue` makes its node. -/
  | enter (p : P) (input : T) (hd : s.dtor = false) (hp : s.prod p = .idle) :
      Effect s (.enqueue p input) { s with
        mem := update s.mem s.fresh (some ⟨input, none⟩)
        fresh := s.fresh + 1
        prod := update s.prod p (.exchange s.fresh input)
        calls := update s.calls p (s.calls p ++ [input]) }
  /-- `Enqueue` exchanges the head. -/
  | exchange (p : P) (node : NodeId) (input : T) (hp : s.prod p = .exchange node input) :
      Effect s (.prod p) { s with
        head := node
        prod := update s.prod p (.link s.head node)
        exchanged := s.exchanged ++ [⟨p, node, input⟩] }
  /-- `Enqueue` stores the old head's link. -/
  | link (p : P) (prevHead node : NodeId) (nd : Node T) (hp : s.prod p = .link prevHead node)
      (hm : s.mem prevHead = some nd) :
      Effect s (.prod p) { s with
        mem := update s.mem prevHead (some { nd with next := some node })
        prod := update s.prod p .idle }
  /-- `Dequeue` is called. -/
  | call (hc : s.cons = .idle) : Effect s .dequeue { s with cons := .loadNext s.tail }
  /-- `Dequeue` finds no next node and returns `false`. -/
  | loadNull (tail : NodeId) (nd : Node T) (hc : s.cons = .loadNext tail)
      (hm : s.mem tail = some nd) (hn : nd.next = none) : Effect s .cons s.returnFalse
  /-- `Dequeue` finds a next node. -/
  | loadNext (tail next : NodeId) (nd : Node T) (hc : s.cons = .loadNext tail)
      (hm : s.mem tail = some nd) (hn : nd.next = some next) :
      Effect s .cons { s with cons := .readData tail next }
  /-- `Dequeue` reads the next node's value. -/
  | read (tail next : NodeId) (nd : Node T) (hc : s.cons = .readData tail next)
      (hm : s.mem next = some nd) : Effect s .cons { s with cons := .storeTail tail next nd.data }
  /-- `Dequeue` advances the tail. -/
  | store (tail next : NodeId) (result : T) (hc : s.cons = .storeTail tail next result) :
      Effect s .cons { s with tail := next, cons := .deleteTail tail result }
  /-- `Dequeue` deletes the old tail and returns `true`. -/
  | free (tail : NodeId) (result : T) (hc : s.cons = .deleteTail tail result) :
      Effect s .cons ((s.delete tail).returnTrue result)
  /-- The destructor deletes the value that it has dequeued. -/
  | output (output : T) (hc : s.cons = .deleteOutput output) :
      Effect s .cons { s with deleted := s.deleted ++ [output], cons := .loadNext s.tail }
  /-- The destructor deletes the last node. -/
  | front (hc : s.cons = .deleteFront) : Effect s .cons { s.delete s.head with cons := .destroyed }
  /-- The destructor begins. -/
  | destroy (hc : s.cons = .idle) (hp : ∀ p, s.prod p = .idle) :
      Effect s .destroy { s with cons := .loadNext s.tail, dtor := true }

/-- Every allowed step has one of the effects. -/
theorem effect_of_step {s s' : State P T} {a : Action P T} (hok : Allowed s a)
    (h : step s a = some s') : Effect s a s' := by
  cases a with
  | enqueue p input =>
    simp only [step, beginEnqueue] at h
    split at h
    case h_1 hp => exact Option.some.inj h ▸ .enter p input hok hp
    case h_2 => cases h
  | prod p =>
    simp only [step, stepProd] at h
    split at h
    case h_1 => cases h
    case h_2 node input hp => exact Option.some.inj h ▸ .exchange p node input hp
    case h_3 prevHead node hp =>
      split at h
      -- A step that reads a freed node is undefined, so the node is there.
      case h_1 => cases h
      case h_2 nd hm => exact Option.some.inj h ▸ .link p prevHead node nd hp hm
  | dequeue =>
    simp only [step] at h
    split at h
    case h_1 hc => exact Option.some.inj h ▸ .call hc
    case h_2 => cases h
  | cons =>
    simp only [step, stepCons] at h
    split at h
    case h_2 tail hc =>
      split at h
      case h_1 => cases h
      case h_2 nd hm =>
        split at h
        case h_1 hn => exact Option.some.inj h ▸ .loadNull tail nd hc hm hn
        case h_2 next hn => exact Option.some.inj h ▸ .loadNext tail next nd hc hm hn
    case h_3 tail next hc =>
      split at h
      case h_1 => cases h
      case h_2 nd hm => exact Option.some.inj h ▸ .read tail next nd hc hm
    case h_4 tail next result hc => exact Option.some.inj h ▸ .store tail next result hc
    case h_5 tail result hc => exact Option.some.inj h ▸ .free tail result hc
    case h_6 output hc => exact Option.some.inj h ▸ .output output hc
    case h_7 hc => exact Option.some.inj h ▸ .front hc
    all_goals cases h
  | destroy =>
    simp only [step] at h
    split at h
    case h_1 hc => exact Option.some.inj h ▸ .destroy hc hok
    case h_2 => cases h

/-- What every effect preserves from the initial state holds in every reachable state. -/
theorem Reachable.invariant (I : State P T → Prop) {uninit : T} {s : State P T}
    (hs : Reachable uninit s) (h0 : I (State.init P uninit))
    (hI : ∀ t a u, I t → Effect t a u → I u) : I s :=
  Lib.Reaches.invariant h0 (fun _ _ _ ht hok hstep => hI _ _ _ ht (effect_of_step hok hstep)) hs

end CPStudy.MPSCQueue.NonIntrusive
