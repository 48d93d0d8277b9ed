import CPStudy.LockedQueue.Model

/-!
# What holds in every run of the locked queue

The operations take effect one after the other when they unlock (`Lib.CriticalSection`), so that a
statement about every run is an induction over finished calls.

Without `readd` the queue is first in, first out for any number of consumers, and `next` with a
checker hands out only what the checker accepts (`locked_fifo`). With `readd` it is so for one
consumer that puts back only what it has taken last (`readd_fifo`). `peek` and `pop_front` are safe
for one consumer that has found the queue not empty before (`front_defined`).
-/

namespace CPStudy.LockedQueue

open Function (update)
open Lib (Code)
open Lib.CriticalSection (Calls)
open Lib

variable {ι T : Type*}

section Fifo

/-- The operation neither puts anything at the front nor changes an item. -/
def Op.Plain : Op T → Prop
  | .readd _ => False
  | .peekUnlock change => ∀ x, change x = x
  | _ => True

/-- First in, first out. -/
structure Fifo (s : Atomic.State ι (Queue T) (Op T) (Result T)) : Prop where
  /-- Only such operations are called. -/
  plain : ∀ t op, s.pending t = some op → op.Plain
  /-- What was added is what was taken and what is there. -/
  items : s.log.filterMap added = s.log.filterMap taken ++ s.obj.queue
  /-- A checker has accepted what it was to. -/
  checked : ∀ t check b x, (t, .nextCheck check, .item b (some x)) ∈ s.log → check x = b

/-- What a plain operation adds at the back and takes from the front. -/
theorem items_effect {q q' : Queue T} {op : Op T} {r : Result T} (t : ι) (hop : op.Plain)
    (h : effect op q = some (q', r)) :
    q.queue ++ (added (t, op, r)).toList = (taken (t, op, r)).toList ++ q'.queue := by
  obtain ⟨l, c⟩ := q
  cases op with
  | add item =>
    obtain ⟨rfl, rfl⟩ := Prod.mk.inj (Option.some.inj h)
    rfl
  | readd items => exact hop.elim
  | next =>
    cases l with
    | nil =>
      obtain ⟨rfl, rfl⟩ := Prod.mk.inj (Option.some.inj h)
      rfl
    | cons x l =>
      obtain ⟨rfl, rfl⟩ := Prod.mk.inj (Option.some.inj h)
      exact List.append_nil _
  | nextCheck check =>
    cases l with
    | nil =>
      obtain ⟨rfl, rfl⟩ := Prod.mk.inj (Option.some.inj h)
      rfl
    | cons x l =>
      obtain ⟨rfl, rfl⟩ := Prod.mk.inj (Option.some.inj h)
      cases hx : check x <;> simp [added, taken]
  | peek =>
    cases l with
    | nil => cases h
    | cons x l =>
      obtain ⟨rfl, rfl⟩ := Prod.mk.inj (Option.some.inj h)
      exact List.append_nil _
  | peekUnlock change =>
    cases l with
    | nil => cases h
    | cons x l =>
      obtain ⟨rfl, rfl⟩ := Prod.mk.inj (Option.some.inj h)
      -- The caller does not change the item that it peeks at.
      have hx : change x = x := hop x
      simp [added, taken, hx]
  | cancel =>
    obtain ⟨rfl, rfl⟩ := Prod.mk.inj (Option.some.inj h)
    exact List.append_nil _
  | cancelled =>
    obtain ⟨rfl, rfl⟩ := Prod.mk.inj (Option.some.inj h)
    exact List.append_nil _
  | popFront =>
    cases l with
    | nil => cases h
    | cons x l =>
      obtain ⟨rfl, rfl⟩ := Prod.mk.inj (Option.some.inj h)
      exact List.append_nil _
  | empty =>
    obtain ⟨rfl, rfl⟩ := Prod.mk.inj (Option.some.inj h)
    exact List.append_nil _

/-- What `next` with a checker returns about an item is what the checker says. -/
theorem check_effect {q q' : Queue T} {check : T → Bool} {b : Bool} {x : T}
    (h : effect (.nextCheck check) q = some (q', .item b (some x))) : check x = b := by
  obtain ⟨l, c⟩ := q
  cases l with
  | nil =>
    obtain ⟨-, hr⟩ := Prod.mk.inj (Option.some.inj h)
    cases hr
  | cons y l =>
    obtain ⟨-, hr⟩ := Prod.mk.inj (Option.some.inj h)
    cases hr
    rfl

/-- The state before the first call is first in, first out. -/
theorem Fifo.init : Fifo (Atomic.State.init Queue.init : Atomic.State ι _ (Op T) _) where
  plain := fun t op h => by cases h
  items := rfl
  checked := fun t check b x h => absurd h List.not_mem_nil

/-- What a list of calls says with one more call. -/
theorem filterMap_append_one (f : Entry ι T → Option T) (log : List (Entry ι T)) (e : Entry ι T) :
    (log ++ [e]).filterMap f = log.filterMap f ++ (f e).toList := by
  rw [List.filterMap_append, List.filterMap_cons]
  cases f e <;> rfl

variable [DecidableEq ι]

/-- A predicate on the pending calls after a call. -/
theorem of_update_some {p : ι → Option (Op T)} {Q : ι → Op T → Prop} {t u : ι} {op op' : Op T}
    (h : ∀ t op, p t = some op → Q t op) (hop : Q t op)
    (hu : update p t (some op) u = some op') : Q u op' := by
  by_cases hut : u = t
  · rw [hut, Function.update_self] at hu
    obtain rfl := Option.some.inj hu
    rwa [hut]
  · rw [Function.update_of_ne hut] at hu
    exact h u op' hu

/-- A predicate on the pending calls after one has returned. -/
theorem of_update_none {p : ι → Option (Op T)} {t u : ι} {op' : Op T}
    (hu : update p t none u = some op') : u ≠ t ∧ p u = some op' := by
  by_cases hut : u = t
  · rw [hut, Function.update_self] at hu
    cases hu
  · rw [Function.update_of_ne hut] at hu
    exact ⟨hut, hu⟩

/-- A call of a plain operation keeps it so. -/
theorem Fifo.call {s : Atomic.State ι (Queue T) (Op T) (Result T)} (h : Fifo s) {t : ι} {op : Op T}
    (hop : op.Plain) : Fifo { s with pending := update s.pending t (some op) } :=
  { h with plain := fun _ _ hu => of_update_some h.plain hop hu }

/-- An operation that takes effect keeps it so. -/
theorem Fifo.ret {s : Atomic.State ι (Queue T) (Op T) (Result T)} (h : Fifo s) {t : ι} {op : Op T}
    {q : Queue T} {r : Result T} (ht : s.pending t = some op)
    (hr : (code op).run s.obj = some (q, r)) :
    Fifo ⟨q, update s.pending t none, s.log ++ [(t, op, r)]⟩ := by
  rw [run_code] at hr
  have hitems := items_effect t (h.plain t op ht) hr
  constructor
  case plain => exact fun u op' hu => h.plain u op' (of_update_none hu).2
  case items =>
    rw [filterMap_append_one, filterMap_append_one, h.items, List.append_assoc, hitems,
      List.append_assoc]
  case checked =>
    intro u check b x hmem
    rcases List.mem_append.mp hmem with hold | hnew
    · exact h.checked u check b x hold
    · cases List.mem_singleton.mp hnew
      exact check_effect hr

/-- Without `readd`, in every interleaving of any number of threads: what was added is what was
taken and then what is there, and `next` with a checker takes an item exactly when the checker
accepts it. -/
theorem locked_fifo {s : State ι T}
    (h : Lib.Reaches (CriticalSection.step code) (Calls fun _ _ op => op.Plain)
      (CriticalSection.State.init Queue.init) s) :
    s.log.filterMap added = s.log.filterMap taken ++ s.settled.queue ∧
      (s.owner = none → s.obj = s.settled) ∧
      ∀ t check b x, (t, .nextCheck check, .item b (some x)) ∈ s.log → check x = b := by
  have hfifo : Fifo s.toAtomic :=
    Atomic.invariant (I := Fifo) Fifo.init (fun _ _ _ hs _ hop => hs.call hop)
      (fun _ _ _ _ _ hs ht hr => hs.ret ht hr) (CriticalSection.reaches_atomic h)
  exact ⟨hfifo.items, (CriticalSection.simulates h).free, hfifo.checked⟩

/-- Two threads add an item each, of which a checker accepts the first alone. -/
theorem locked_fifo_two : ∃ s : State (Fin 3) ℕ,
    s.log.filterMap taken = [1] ∧ s.settled.queue = [2] ∧
    s.log.filterMap added = s.log.filterMap taken ++ s.settled.queue := by
  obtain ⟨s, hs, hp⟩ := Lib.exists_reaches (CriticalSection.step code)
    (fun _ a => match a with
      | .call _ (.add _) => true
      | .call _ (.nextCheck _) => true
      | .call _ _ => false
      | _ => true)
    (CriticalSection.State.init Queue.init : State (Fin 3) ℕ)
    [.call 0 (.add 1), .call 1 (.add 2), .lock 0, .call 2 (.nextCheck (· == 1)), .run 0, .unlock 0,
      .lock 1, .run 1, .unlock 1, .lock 2, .run 2, .run 2, .run 2, .unlock 2,
      .call 2 (.nextCheck (· == 1)), .lock 2, .run 2, .run 2, .unlock 2]
    (fun s => decide (s.log.filterMap taken = [1] ∧ s.settled.queue = [2])) (by decide +kernel)
  obtain ⟨htaken, hqueue⟩ := of_decide_eq_true hp
  have hrun : Lib.Reaches (CriticalSection.step code) (Calls fun _ _ op => op.Plain)
      (CriticalSection.State.init Queue.init) s := hs.mono fun s a hok => by
    cases a with
    | call t op =>
      cases op with
      | add item => trivial
      | nextCheck check => trivial
      | _ => cases hok
    | _ => trivial
  exact ⟨s, htaken, hqueue, (locked_fifo hrun).1⟩

end Fifo

section Readd

/-- What one call of the only consumer does to the items that it has done with and those that it has
taken since. With `readd` it gives back what it is not done with. -/
def advance (c : List T × List T) (e : Entry ι T) : List T × List T :=
  match e.2.1 with
  | .readd items => (c.1 ++ c.2.take (c.2.length - items.length), [])
  | _ => (c.1, c.2 ++ (taken e).toList)

/-- The items that the consumer has done with, and those that it has taken since. -/
def progress (log : List (Entry ι T)) : List T × List T := log.foldl advance ([], [])

/-- After one more call. -/
theorem progress_append (log : List (Entry ι T)) (e : Entry ι T) :
    progress (log ++ [e]) = advance (progress log) e := by
  rw [progress, List.foldl_append]
  rfl

/-- The operation is for the consumer. -/
def Op.Consumes : Op T → Prop
  | .readd _ => True
  | .next => True
  | .nextCheck _ => True
  | .popFront => True
  | _ => False

/-- One consumer, which puts back what it has taken last. -/
def Returns (c : ι) (log : List (Entry ι T)) (t : ι) (op : Op T) : Prop :=
  (op.Consumes → t = c) ∧ (op.Plain ∨ ∃ items, op = .readd items ∧ items <:+ (progress log).2)

/-- What was added is what the consumer has done with, what it has taken since, and what is there.
-/
structure Returned (c : ι) (s : Atomic.State ι (Queue T) (Op T) (Result T)) : Prop where
  /-- The discipline is kept by the calls that are pending. -/
  pending : ∀ t op, s.pending t = some op → Returns c s.log t op
  /-- All items, in the order in which they were added. -/
  items : s.log.filterMap added = (progress s.log).1 ++ (progress s.log).2 ++ s.obj.queue

/-- Nothing is taken by an operation that is not for the consumer. -/
theorem taken_eq_none {q q' : Queue T} {op : Op T} {r : Result T} (t : ι) (hop : ¬ op.Consumes)
    (h : effect op q = some (q', r)) : taken (t, op, r) = none := by
  obtain ⟨l, c⟩ := q
  cases op with
  | add item =>
    obtain ⟨-, rfl⟩ := Prod.mk.inj (Option.some.inj h)
    rfl
  | readd items => exact absurd trivial hop
  | next => exact absurd trivial hop
  | nextCheck check => exact absurd trivial hop
  -- An item that is only looked at is not taken.
  | peek =>
    cases l with
    | nil => cases h
    | cons x l =>
      obtain ⟨-, rfl⟩ := Prod.mk.inj (Option.some.inj h)
      rfl
  | peekUnlock change =>
    cases l with
    | nil => cases h
    | cons x l =>
      obtain ⟨-, rfl⟩ := Prod.mk.inj (Option.some.inj h)
      rfl
  | cancel =>
    obtain ⟨-, rfl⟩ := Prod.mk.inj (Option.some.inj h)
    rfl
  | cancelled =>
    obtain ⟨-, rfl⟩ := Prod.mk.inj (Option.some.inj h)
    rfl
  | popFront => exact absurd trivial hop
  | empty =>
    obtain ⟨-, rfl⟩ := Prod.mk.inj (Option.some.inj h)
    rfl

/-- What the consumer has done with and taken after a plain operation. -/
theorem advance_of_plain (w : List T × List T) (t : ι) {op : Op T} (hop : op.Plain) (r : Result T) :
    advance w (t, op, r) = (w.1, w.2 ++ (taken (t, op, r)).toList) := by
  cases op with
  | readd items => exact hop.elim
  | _ => rfl

variable {c : ι} {s : Atomic.State ι (Queue T) (Op T) (Result T)} {t : ι} {op : Op T}

/-- Nothing has been added. -/
theorem Returned.init : Returned c (Atomic.State.init Queue.init : Atomic.State ι _ (Op T) _) where
  pending := fun t op h => by cases h
  items := rfl

/-- The items when a plain operation takes effect. -/
theorem Returned.items_plain (h : Returned c s) (hop : op.Plain) {q : Queue T} {r : Result T}
    (hr : effect op s.obj = some (q, r)) :
    (s.log ++ [(t, op, r)]).filterMap added = (progress (s.log ++ [(t, op, r)])).1 ++
      (progress (s.log ++ [(t, op, r)])).2 ++ q.queue := by
  have hitems := items_effect t hop hr
  rw [progress_append, advance_of_plain _ t hop, filterMap_append_one, h.items]
  dsimp only
  rw [List.append_assoc _ s.obj.queue, hitems]
  simp only [List.append_assoc]

/-- The items when the consumer puts some back. -/
theorem Returned.items_readd (h : Returned c s) {items : List T}
    (hsuffix : items <:+ (progress s.log).2) :
    (s.log ++ [(t, Op.readd items, Result.unit)]).filterMap added =
      (progress (s.log ++ [(t, Op.readd items, Result.unit)])).1 ++
        (progress (s.log ++ [(t, Op.readd items, Result.unit)])).2 ++ (items ++ s.obj.queue) := by
  obtain ⟨done, hdone⟩ := hsuffix
  have htake : (progress s.log).2.take ((progress s.log).2.length - items.length) = done := by
    rw [← hdone, List.length_append, Nat.add_sub_cancel, List.take_left]
  rw [progress_append, filterMap_append_one, h.items]
  dsimp only [advance, added, Option.toList]
  rw [htake, ← hdone]
  simp only [List.append_assoc, List.append_nil]

variable [DecidableEq ι]

/-- A call that the discipline allows. -/
theorem Returned.call (h : Returned c s) (hop : Returns c s.log t op) :
    Returned c { s with pending := update s.pending t (some op) } :=
  { h with pending := fun _ _ hu => of_update_some h.pending hop hu }

/-- An operation that takes effect keeps it so. -/
theorem Returned.ret (h : Returned c s) {q : Queue T} {r : Result T} (ht : s.pending t = some op)
    (hr : (code op).run s.obj = some (q, r)) :
    Returned c ⟨q, update s.pending t none, s.log ++ [(t, op, r)]⟩ := by
  rw [run_code] at hr
  obtain ⟨hone, hop⟩ := h.pending t op ht
  constructor
  case pending =>
    intro u op' hu
    obtain ⟨hne, hu⟩ := of_update_none hu
    obtain ⟨hone', hop'⟩ := h.pending u op' hu
    refine ⟨hone', hop'.imp_right ?_⟩
    rintro ⟨items, rfl, hsuffix⟩
    -- The other operation is not the consumer's, and takes nothing.
    have hnot : ¬ op.Consumes := fun hc => hne ((hone' trivial).trans (hone hc).symm)
    have hplain : op.Plain := hop.resolve_right fun ⟨_, heq, _⟩ => hnot (heq ▸ trivial)
    refine ⟨items, rfl, ?_⟩
    rw [progress_append, advance_of_plain _ t hplain, taken_eq_none t hnot hr]
    change items <:+ (progress s.log).2 ++ []
    rwa [List.append_nil]
  case items =>
    rcases hop with hplain | ⟨items, rfl, hsuffix⟩
    · exact h.items_plain hplain hr
    · obtain ⟨rfl, rfl⟩ := Prod.mk.inj (Option.some.inj hr)
      exact h.items_readd hsuffix

/-- With one consumer, which puts back in their order the last of the items that it has taken since
it did so before, and with any other threads: what was added is what the consumer has done with,
what it has taken since, and what is there. -/
theorem readd_fifo {s : State ι T} (h : Lib.Reaches (CriticalSection.step code) (Calls (Returns c))
      (CriticalSection.State.init Queue.init) s) :
    s.log.filterMap added = (progress s.log).1 ++ (progress s.log).2 ++ s.settled.queue := by
  have hreturned : Returned c s.toAtomic :=
    Atomic.invariant (I := Returned c) Returned.init (fun _ _ _ hs _ hop => hs.call hop)
      (fun _ _ _ _ _ hs ht hr => hs.ret ht hr) (CriticalSection.reaches_atomic h)
  exact hreturned.items

/-- The consumer takes two items, is done with one and puts the other back. -/
theorem readd_fifo_two : ∃ s : State (Fin 2) ℕ,
    progress s.log = ([1], []) ∧ s.settled.queue = [2, 3] ∧
    s.log.filterMap added = (progress s.log).1 ++ (progress s.log).2 ++ s.settled.queue := by
  obtain ⟨s, hs, hp⟩ := Lib.exists_reaches (CriticalSection.step code)
    (fun s a => match a with
      | .call _ (.add _) => true
      | .call t .next => t = 1
      | .call t (.readd items) => t = 1 && items.isSuffixOf (progress s.log).2
      | .call _ _ => false
      | _ => true)
    (CriticalSection.State.init Queue.init : State (Fin 2) ℕ)
    [.call 0 (.add 1), .lock 0, .run 0, .unlock 0, .call 0 (.add 2), .lock 0, .run 0, .unlock 0,
      .call 1 .next, .lock 1, .run 1, .run 1, .run 1, .unlock 1,
      .call 1 .next, .lock 1, .run 1, .run 1, .run 1, .unlock 1, .call 0 (.add 3), .lock 0, .run 0,
      .unlock 0, .call 1 (.readd [2]), .lock 1, .run 1, .unlock 1]
    (fun s => decide (progress s.log = ([1], []) ∧ s.settled.queue = [2, 3])) (by decide +kernel)
  obtain ⟨hprogress, hqueue⟩ := of_decide_eq_true hp
  have hrun : Lib.Reaches (CriticalSection.step code) (Calls (Returns 1))
      (CriticalSection.State.init Queue.init) s := hs.mono fun s a hok => by
    cases a with
    | call t op =>
      cases op with
      | add item => exact ⟨fun hf => hf.elim, .inl trivial⟩
      | next => exact ⟨fun _ => of_decide_eq_true hok, .inl trivial⟩
      | readd items =>
        obtain ⟨ht, hsuffix⟩ := Bool.and_eq_true_iff.mp hok
        exact ⟨fun _ => of_decide_eq_true ht,
          .inr ⟨items, rfl, List.isSuffixOf_iff_suffix.mp hsuffix⟩⟩
      | _ => cases hok
    | _ => trivial
  exact ⟨s, hprogress, hqueue, readd_fifo hrun⟩

end Readd

section Defined

/-- The operation takes an item. -/
def Op.Takes : Op T → Prop
  | .next => True
  | .nextCheck _ => True
  | .popFront => True
  | _ => False

/-- The operation is not defined on an empty queue. -/
def Op.Needs : Op T → Prop
  | .peek => True
  | .peekUnlock _ => True
  | .popFront => True
  | _ => False

/-- The result of the operation tells its caller that the queue is not empty. -/
def tells : Op T × Result T → Bool
  | (.empty, .bool b) => !b
  | (_, .ref _) => true
  | (.nextCheck _, .item false (some _)) => true
  | _ => false

/-- What an operation does to a queue that is not empty. -/
theorem ne_nil_of_effect {q q' : Queue T} {op : Op T} {r : Result T}
    (h : effect op q = some (q', r))
    (hop : (¬ op.Takes ∧ q.queue ≠ []) ∨ tells (op, r) = true) : q'.queue ≠ [] := by
  obtain ⟨l, c⟩ := q
  cases op with
  | add item =>
    obtain ⟨rfl, -⟩ := Prod.mk.inj (Option.some.inj h)
    simp
  | readd items =>
    obtain ⟨rfl, rfl⟩ := Prod.mk.inj (Option.some.inj h)
    simpa [tells, Op.Takes] using fun _ => hop
  | next =>
    cases l with
    | nil =>
      obtain ⟨rfl, rfl⟩ := Prod.mk.inj (Option.some.inj h)
      simp [tells, Op.Takes] at hop
    | cons x l =>
      obtain ⟨rfl, rfl⟩ := Prod.mk.inj (Option.some.inj h)
      simp [tells, Op.Takes] at hop
  -- Where the checker refuses the item it stays at the front, which tells the caller as much.
  | nextCheck check =>
    cases l with
    | nil =>
      obtain ⟨rfl, rfl⟩ := Prod.mk.inj (Option.some.inj h)
      simp [tells, Op.Takes] at hop
    | cons x l =>
      obtain ⟨rfl, rfl⟩ := Prod.mk.inj (Option.some.inj h)
      cases hx : check x <;> simp [tells, Op.Takes, hx] at hop ⊢
  | peek =>
    cases l with
    | nil => cases h
    | cons x l =>
      obtain ⟨rfl, -⟩ := Prod.mk.inj (Option.some.inj h)
      exact List.cons_ne_nil _ _
  | peekUnlock change =>
    cases l with
    | nil => cases h
    | cons x l =>
      obtain ⟨rfl, -⟩ := Prod.mk.inj (Option.some.inj h)
      exact List.cons_ne_nil _ _
  | cancel =>
    obtain ⟨rfl, rfl⟩ := Prod.mk.inj (Option.some.inj h)
    simpa [tells, Op.Takes] using hop
  | cancelled =>
    obtain ⟨rfl, rfl⟩ := Prod.mk.inj (Option.some.inj h)
    simpa [tells, Op.Takes] using hop
  | popFront =>
    cases l with
    | nil => cases h
    | cons x l =>
      obtain ⟨rfl, rfl⟩ := Prod.mk.inj (Option.some.inj h)
      simp [tells, Op.Takes] at hop
  | empty =>
    obtain ⟨rfl, rfl⟩ := Prod.mk.inj (Option.some.inj h)
    simpa [tells, Op.Takes] using hop

/-- An operation is undefined on an empty queue alone. -/
theorem effect_ne_none {q : Queue T} {op : Op T} (h : op.Needs → q.queue ≠ []) :
    effect op q ≠ none := by
  obtain ⟨l, c⟩ := q
  cases l with
  | nil =>
    have hop : ¬ op.Needs := fun hn => h hn rfl
    cases op with
    | peek => exact absurd trivial hop
    | peekUnlock change => exact absurd trivial hop
    | popFront => exact absurd trivial hop
    | _ => exact Option.some_ne_none _
  | cons x l => cases op <;> exact Option.some_ne_none _

variable [DecidableEq ι]

/-- The last call of the thread has told it that the queue is not empty. -/
def known (c : ι) (log : List (Entry ι T)) : Bool :=
  log.foldl (fun k e => if e.1 = c then tells e.2 else k) false

/-- One consumer, which looks before it accesses the front item. -/
def Careful (c : ι) (log : List (Entry ι T)) (t : ι) (op : Op T) : Prop :=
  (op.Takes → t = c) ∧ (op.Needs → t = c ∧ known c log = true)

/-- The consumer is right about the queue. -/
structure Known (c : ι) (s : Atomic.State ι (Queue T) (Op T) (Result T)) : Prop where
  /-- Nobody else takes an item. -/
  takes : ∀ t op, s.pending t = some op → op.Takes → t = c
  /-- Nobody else accesses the front item, and there is one when the consumer is about to. -/
  needs : ∀ t op, s.pending t = some op → op.Needs → t = c ∧ s.obj.queue ≠ []
  /-- There is one when it has been told so. -/
  known : known c s.log = true → s.obj.queue ≠ []

namespace Known

variable {c : ι} {s : Atomic.State ι (Queue T) (Op T) (Result T)} {t : ι} {op : Op T}

/-- Nothing has been called. -/
theorem init : Known c (Atomic.State.init Queue.init : Atomic.State ι _ (Op T) _) where
  takes := fun t op h => by cases h
  needs := fun t op h => by cases h
  known := fun h => by cases h

/-- A call that the discipline allows. -/
theorem call (h : Known c s) (hop : Careful c s.log t op) :
    Known c { s with pending := update s.pending t (some op) } where
  takes := fun _ _ hu => of_update_some (Q := fun u op => op.Takes → u = c) h.takes hop.1 hu
  needs := fun _ _ hu =>
    of_update_some (Q := fun u op => op.Needs → u = c ∧ s.obj.queue ≠ []) h.needs
      (fun hn => ⟨(hop.2 hn).1, h.known (hop.2 hn).2⟩) hu
  known := h.known

/-- An operation that takes effect keeps it so. -/
theorem ret (h : Known c s) {q : Queue T} {r : Result T} (ht : s.pending t = some op)
    (hr : (code op).run s.obj = some (q, r)) :
    Known c ⟨q, update s.pending t none, s.log ++ [(t, op, r)]⟩ := by
  rw [run_code] at hr
  constructor
  case takes => exact fun u op' hu => h.takes u op' (of_update_none hu).2
  case needs =>
    intro u op' hu hn
    obtain ⟨hne, hu⟩ := of_update_none hu
    obtain ⟨rfl, hq⟩ := h.needs u op' hu hn
    have hnot : ¬ op.Takes := fun htakes => hne (h.takes t op ht htakes).symm
    exact ⟨rfl, ne_nil_of_effect hr (.inl ⟨hnot, hq⟩)⟩
  case known =>
    intro hk
    rw [LockedQueue.known, List.foldl_append, List.foldl_cons, List.foldl_nil] at hk
    split at hk
    case isTrue => exact ne_nil_of_effect hr (.inr hk)
    case isFalse hne =>
      exact ne_nil_of_effect hr (.inl ⟨fun htakes => hne (h.takes t op ht htakes), h.known hk⟩)

end Known

/-- With one consumer, which calls `peek` and `pop_front` only when its last call has told it that
the queue is not empty, and with any other threads, nothing undefined is done. -/
theorem front_defined {c : ι} {s : State ι T}
    (h : Lib.Reaches (CriticalSection.step code) (Calls (Careful c))
      (CriticalSection.State.init Queue.init) s) : s.undefined = false := by
  refine CriticalSection.undefined_eq_false (fun u hu t op hp => ?_) h
  have hknown : Known c u :=
    Atomic.invariant (I := Known c) Known.init (fun _ _ _ hs _ hop => hs.call hop)
      (fun _ _ _ _ _ hs ht hr => hs.ret ht hr) hu
  rw [run_code]
  exact effect_ne_none fun hn => (hknown.needs t op hp hn).2

/-- The consumer pops an item after it has found the queue not empty. -/
theorem front_defined_two : ∃ s : State (Fin 2) ℕ,
    s.log.filterMap taken = [1] ∧ s.undefined = false := by
  obtain ⟨s, hs, hp⟩ := Lib.exists_reaches (CriticalSection.step code)
    (fun s a => match a with
      | .call _ (.add _) => true
      | .call _ .empty => true
      | .call t .popFront => t = 1 && known 1 s.log
      | .call _ _ => false
      | _ => true)
    (CriticalSection.State.init Queue.init : State (Fin 2) ℕ)
    [.call 0 (.add 1), .lock 0, .run 0, .unlock 0, .call 1 .empty, .lock 1, .run 1, .unlock 1,
      .call 1 .popFront, .lock 1, .run 1, .unlock 1]
    (fun s => decide (s.log.filterMap taken = [1])) (by decide +kernel)
  have hrun : Lib.Reaches (CriticalSection.step code) (Calls (Careful 1))
      (CriticalSection.State.init Queue.init) s := hs.mono fun s a hok => by
    cases a with
    | call t op =>
      cases op with
      | add item => exact ⟨fun hf => hf.elim, fun hf => hf.elim⟩
      | empty => exact ⟨fun hf => hf.elim, fun hf => hf.elim⟩
      | popFront =>
        obtain ⟨ht, hk⟩ := Bool.and_eq_true_iff.mp hok
        exact ⟨fun _ => of_decide_eq_true ht, fun _ => ⟨of_decide_eq_true ht, hk⟩⟩
      | _ => cases hok
    | _ => trivial
  exact ⟨s, of_decide_eq_true hp, front_defined hrun⟩

end Defined

end CPStudy.LockedQueue
