import CPStudy.Lib.Handle
import CPStudy.Lib.Transition

/-!
# The thread handle of `1_CPBase/thread/ThreadWrapper.hpp`

A `ThreadWrapper` owns a `std::thread`, which represents a started thread or none. Operations of
`std::thread` have preconditions: a handle that represents a thread must not be destroyed or
assigned over, for which the standard has `std::terminate`, and one that represents none must not be
joined or detached, for which it has an exception. Here either is a `Fault` that the run keeps.

The threads are numbered in the order in which they are started. Each of them ends, so that a `join`
returns. `Lib.Handles` says that each thread has one owner or was joined or detached once, and the
operations of the wrapper are those of handles: a construction makes one, a move passes it on, and
`join`, `detach` and the destructor give it up.
-/

namespace CPStudy.ThreadWrapper

open Function (update)
open Lib (Handles)

/-- What the standard does where an operation of `std::thread` must not be called. -/
inductive Fault
  /-- `std::terminate`. -/
  | terminate
  /-- The exception `std::system_error`. -/
  | systemError
deriving DecidableEq

/-- How a thread and its handle part. -/
inductive Ending
  /-- By `join`. -/
  | joined
  /-- By `detach`. -/
  | detached
deriving DecidableEq

/-- The threads of the program. -/
structure Threads where
  /-- How many were started. -/
  started : ℕ
  /-- Those that were joined and detached, in order. -/
  ended : List (ℕ × Ending)

/-- `std::thread`: the thread that it represents, if any. -/
abbrev StdThread := Option ℕ

namespace StdThread

/-- `std::thread(f, args...)`. -/
def start (ts : Threads) : StdThread × Threads :=
  (some ts.started, { ts with started := ts.started + 1 })

/-- `joinable()`. -/
def joinable (t : StdThread) : Bool := t.isSome

/-- The end of `join()` and of `detach()`, which need a thread. -/
def finish (e : Ending) (t : StdThread) (ts : Threads) : Except Fault (StdThread × Threads) :=
  match t with
  | none => .error .systemError
  | some k => .ok (none, { ts with ended := ts.ended ++ [(k, e)] })

/-- `join()`. -/
def join (t : StdThread) (ts : Threads) : Except Fault (StdThread × Threads) :=
  finish .joined t ts

/-- `detach()`. -/
def detach (t : StdThread) (ts : Threads) : Except Fault (StdThread × Threads) :=
  finish .detached t ts

/-- `operator=(std::thread&& other)`, with what is left in `other`. -/
def moveAssign (t other : StdThread) : Except Fault (StdThread × StdThread) :=
  if joinable t then .error .terminate else .ok (other, none)

/-- `~thread()`. -/
def destroy (t : StdThread) : Except Fault Unit :=
  if joinable t then .error .terminate else .ok ()

end StdThread

/-- The wrappers and the threads. -/
structure State (W : Type) where
  /-- `m_thread` of the wrappers that are alive. -/
  wrapper : W → Option StdThread
  /-- The threads. -/
  threads : Threads
  /-- What went wrong. -/
  fault : Option Fault

variable {W : Type}

/-- No wrapper and no thread. -/
def State.init (W : Type) : State W where
  wrapper := fun _ => none
  threads := { started := 0, ended := [] }
  fault := none

variable [DecidableEq W]

/-- `if (m_thread.joinable()) m_thread.join();`, of `join`, the destructor and the assignment. -/
def joinIfJoinable (t : StdThread) (ts : Threads) : Except Fault (StdThread × Threads) :=
  if t.joinable then t.join ts else .ok (t, ts)

/-- `ThreadWrapper(f, args...)`. -/
def construct (s : State W) (this : W) : State W :=
  let (t, ts) := StdThread.start s.threads
  { s with wrapper := update s.wrapper this (some t), threads := ts }

/-- `ThreadWrapper(ThreadWrapper&& other)`, where `u` is `other.m_thread`. -/
def moveConstruct (s : State W) (this other : W) (u : StdThread) : State W :=
  { s with wrapper := update (update s.wrapper this (some u)) other (some none) }

/-- `operator=(ThreadWrapper&& other)`, where `t` is `m_thread` and `u` is `other.m_thread`. -/
def moveAssign (s : State W) (this other : W) (t u : StdThread) : Except Fault (State W) :=
  if this ≠ other then do
    let (t, ts) ← joinIfJoinable t s.threads
    let (t, u) ← t.moveAssign u
    return { s with wrapper := update (update s.wrapper this (some t)) other (some u),
                    threads := ts }
  else return s

/-- `join()`. -/
def join (s : State W) (this : W) (t : StdThread) : Except Fault (State W) := do
  let (t, ts) ← joinIfJoinable t s.threads
  return { s with wrapper := update s.wrapper this (some t), threads := ts }

/-- `detach()`. -/
def detach (s : State W) (this : W) (t : StdThread) : Except Fault (State W) :=
  if t.joinable then do
    let (t, ts) ← t.detach s.threads
    return { s with wrapper := update s.wrapper this (some t), threads := ts }
  else return s

/-- `~ThreadWrapper()`, with the destruction of the member behind its body. -/
def destroy (s : State W) (this : W) (t : StdThread) : Except Fault (State W) := do
  let (t, ts) ← joinIfJoinable t s.threads
  t.destroy
  return { s with wrapper := update s.wrapper this none, threads := ts }

/-- What the program does next. -/
inductive Action (W : Type)
  /-- A wrapper is constructed and starts a thread. -/
  | construct (this : W)
  /-- A wrapper is constructed from another one. -/
  | moveConstruct (this other : W)
  /-- A wrapper is assigned another one, or itself. -/
  | moveAssign (this other : W)
  /-- `join`. -/
  | join (this : W)
  /-- `detach`. -/
  | detach (this : W)
  /-- A wrapper is destroyed. -/
  | destroy (this : W)

/-- The state after an operation, whose fault the run keeps. -/
def settle (s : State W) (r : Except Fault (State W)) : State W :=
  match r with
  | .ok s' => s'
  | .error e => { s with fault := some e }

/-- A step of the program. A wrapper is constructed where none is alive, and the other operations
are on wrappers that are. After a fault there is no step. -/
def step (s : State W) (a : Action W) : Option (State W) :=
  if s.fault.isSome then none
  else
    match a with
    | .construct this => if s.wrapper this = none then some (construct s this) else none
    | .moveConstruct this other =>
      if s.wrapper this = none then (s.wrapper other).map (moveConstruct s this other) else none
    | .moveAssign this other =>
      (s.wrapper this).bind fun t => (s.wrapper other).map fun u =>
        settle s (moveAssign s this other t u)
    | .join this => (s.wrapper this).map fun t => settle s (join s this t)
    | .detach this => (s.wrapper this).map fun t => settle s (detach s this t)
    | .destroy this => (s.wrapper this).map fun t => settle s (destroy s this t)

/-- A state that some run reaches. -/
def Reachable (s : State W) : Prop := Lib.Reaches step (fun _ _ => True) (State.init W) s

/-- The threads after a handle has parted from the thread it represents, if any. -/
def Threads.part (ts : Threads) (e : Ending) (t : StdThread) : Threads :=
  { ts with ended := ts.ended ++ t.toList.map fun k => (k, e) }

/-- The threads that have parted from their handles. -/
def Threads.gone (ts : Threads) : List ℕ := ts.ended.map Prod.fst

/-- One more has parted. -/
theorem gone_part (ts : Threads) (e : Ending) (t : StdThread) :
    (ts.part e t).gone = ts.gone ++ t.toList := by
  unfold Threads.part Threads.gone
  rw [List.map_append, List.map_map]
  congr 1
  exact List.map_id _

/-- The test before `join` leaves a handle that represents no thread. -/
theorem joinIfJoinable_eq (t : StdThread) (ts : Threads) :
    joinIfJoinable t ts = .ok (none, ts.part .joined t) := by
  cases t with
  | none => simp [joinIfJoinable, StdThread.joinable, Threads.part]
  | some k => rfl

variable {s s' : State W} {this other : W} {t u : StdThread}

/-- `join` has no fault. -/
theorem join_eq (s : State W) (this : W) (t : StdThread) :
    join s this t = .ok { s with
      wrapper := update s.wrapper this (some none), threads := s.threads.part .joined t } := by
  unfold join
  rw [joinIfJoinable_eq]
  rfl

/-- `detach` has no fault. -/
theorem detach_eq (ht : s.wrapper this = some t) :
    detach s this t = .ok { s with
      wrapper := update s.wrapper this (some none), threads := s.threads.part .detached t } := by
  cases t with
  | none =>
    have hsame : update s.wrapper this (some none) = s.wrapper := by
      rw [← ht, Function.update_eq_self]
    simp [detach, StdThread.joinable, Threads.part, hsame, pure, Except.pure]
  | some k => rfl

/-- The destructor has no fault: its body leaves nothing in the member. -/
theorem destroy_eq (s : State W) (this : W) (t : StdThread) :
    destroy s this t = .ok { s with
      wrapper := update s.wrapper this none, threads := s.threads.part .joined t } := by
  unfold destroy
  rw [joinIfJoinable_eq]
  rfl

/-- The assignment from another wrapper has no fault: `m_thread` is empty when it is assigned. -/
theorem moveAssign_eq (s : State W) (t u : StdThread) (hne : this ≠ other) :
    moveAssign s this other t u = .ok { s with
      wrapper := update (update s.wrapper this (some u)) other (some none)
      threads := s.threads.part .joined t } := by
  unfold moveAssign
  rw [if_pos hne, joinIfJoinable_eq]
  rfl

/-- What a step changes. -/
inductive Effect (s : State W) : State W → Prop
  /-- A thread is started in a new wrapper. -/
  | construct (this : W) (hthis : s.wrapper this = none) : Effect s { s with
      wrapper := update s.wrapper this (some (some s.threads.started))
      threads := { s.threads with started := s.threads.started + 1 } }
  /-- A new wrapper gets what another one owns. -/
  | moveConstruct (this other : W) (u : StdThread) (hthis : s.wrapper this = none)
      (hother : s.wrapper other = some u) :
      Effect s { s with wrapper := update (update s.wrapper this (some u)) other (some none) }
  /-- A wrapper is assigned itself. -/
  | selfAssign : Effect s s
  /-- A wrapper parts from its thread and gets what another one owns. -/
  | moveAssign (this other : W) (t u : StdThread) (hne : this ≠ other)
      (hthis : s.wrapper this = some t) (hother : s.wrapper other = some u) : Effect s { s with
      wrapper := update (update s.wrapper this (some u)) other (some none)
      threads := s.threads.part .joined t }
  /-- A wrapper parts from its thread, and is alive as before or destroyed. -/
  | part (this : W) (t : StdThread) (e : Ending) (after : Option StdThread)
      (hthis : s.wrapper this = some t) (hafter : after.join = none) : Effect s { s with
      wrapper := update s.wrapper this after, threads := s.threads.part e t }

/-- Every step has one of the effects. -/
theorem effect_of_step {a : Action W} (h : step s a = some s') : Effect s s' := by
  unfold step at h
  obtain ⟨-, h⟩ := Option.ite_none_left_eq_some.mp h
  cases a with
  | construct this =>
    obtain ⟨hthis, h⟩ := Option.ite_none_right_eq_some.mp h
    rw [← Option.some.inj h]
    exact .construct this hthis
  | moveConstruct this other =>
    obtain ⟨hthis, h⟩ := Option.ite_none_right_eq_some.mp h
    obtain ⟨u, hother, rfl⟩ := Option.map_eq_some_iff.mp h
    exact .moveConstruct this other u hthis hother
  | moveAssign this other =>
    obtain ⟨t, hthis, h⟩ := Option.bind_eq_some_iff.mp h
    obtain ⟨u, hother, rfl⟩ := Option.map_eq_some_iff.mp h
    rcases eq_or_ne this other with rfl | hne
    · -- The guard `this != &other` leaves everything as it is.
      unfold moveAssign
      rw [if_neg (not_not.mpr rfl)]
      exact .selfAssign
    · rw [moveAssign_eq s t u hne]
      exact .moveAssign this other t u hne hthis hother
  | join this =>
    obtain ⟨t, hthis, rfl⟩ := Option.map_eq_some_iff.mp h
    rw [join_eq]
    exact .part this t .joined (some none) hthis rfl
  | detach this =>
    obtain ⟨t, hthis, rfl⟩ := Option.map_eq_some_iff.mp h
    rw [detach_eq hthis]
    exact .part this t .detached (some none) hthis rfl
  | destroy this =>
    obtain ⟨t, hthis, rfl⟩ := Option.map_eq_some_iff.mp h
    rw [destroy_eq]
    exact .part this t .joined none hthis rfl

/-- The thread that a wrapper owns. -/
def owned (s : State W) : W → Option ℕ := Option.join ∘ s.wrapper

omit [DecidableEq W] in
/-- A wrapper that is alive owns what `m_thread` represents. -/
theorem owned_eq (h : s.wrapper this = some t) : owned s this = t := congrArg Option.join h

/-- No fault so far, and each thread has one owner or parted from its handle once. -/
def Inv (s : State W) : Prop :=
  s.fault = none ∧ Handles (owned s) s.threads.started s.threads.gone

/-- Every step keeps the invariant. -/
theorem Inv.effect (hs : Inv s) (h : Effect s s') : Inv s' := by
  obtain ⟨hfault, hh⟩ := hs
  refine ⟨by cases h <;> exact hfault, ?_⟩
  unfold owned at hh
  cases h with
  | construct this hthis =>
    have hnone : (Option.join ∘ s.wrapper) this = none := congrArg Option.join hthis
    unfold owned
    rw [Function.comp_update]
    exact hh.make hnone
  | moveConstruct this other u hthis hother =>
    have hne : other ≠ this := by
      rintro rfl
      rw [hthis] at hother
      cases hother
    have hnone : (Option.join ∘ s.wrapper) this = none := congrArg Option.join hthis
    have hpass := hh.pass hne hnone
    unfold owned
    rw [Function.comp_update, Function.comp_update]
    rw [Function.comp_apply, hother] at hpass
    exact hpass
  | selfAssign => exact hh
  | moveAssign this other t u hne hthis hother =>
    -- The wrapper first parts from its own thread.
    have hgive := hh.give this
    have hu : update (Option.join ∘ s.wrapper) this none other = u := by
      rw [Function.update_of_ne hne.symm]
      exact owned_eq hother
    have hpass := hgive.pass hne.symm (Function.update_self ..)
    rw [hu, Function.update_idem, Function.comp_apply, hthis] at hpass
    unfold owned
    rw [Function.comp_update, Function.comp_update, gone_part]
    exact hpass
  | part this t e after hthis hafter =>
    have hgive := hh.give this
    rw [Function.comp_apply, hthis] at hgive
    unfold owned
    rw [Function.comp_update, hafter, gone_part]
    exact hgive

/-- The invariant holds in every state of a run. -/
theorem Inv.reachable (hrun : Reachable s) : Inv s :=
  hrun.invariant ⟨rfl, Handles.init⟩ fun _ _ _ ht _ hstep => ht.effect (effect_of_step hstep)

/-- Without a fault so far the destructor, `join` and `detach` leave no thread in the wrapper: what
it owned is joined, or detached, at this moment. -/
theorem step_part (hfault : s.fault = none) (hthis : s.wrapper this = some t) :
    step s (.destroy this) = some { s with
      wrapper := update s.wrapper this none, threads := s.threads.part .joined t } ∧
    step s (.join this) = some { s with
      wrapper := update s.wrapper this (some none), threads := s.threads.part .joined t } ∧
    step s (.detach this) = some { s with
      wrapper := update s.wrapper this (some none), threads := s.threads.part .detached t } := by
  unfold step
  simp only [hfault, Option.isSome_none, Bool.false_eq_true, if_false, hthis, Option.map_some,
    destroy_eq, join_eq, detach_eq hthis]
  exact ⟨rfl, rfl, rfl⟩

/-- Nor does the assignment from another wrapper lose a thread: what the wrapper owned is joined,
and it gets what the other one owned. -/
theorem step_moveAssign (hfault : s.fault = none) (hne : this ≠ other)
    (hthis : s.wrapper this = some t) (hother : s.wrapper other = some u) :
    step s (.moveAssign this other) = some { s with
      wrapper := update (update s.wrapper this (some u)) other (some none)
      threads := s.threads.part .joined t } := by
  unfold step
  simp only [hfault, Option.isSome_none, Bool.false_eq_true, if_false, hthis, hother,
    Option.bind_some, Option.map_some, moveAssign_eq s t u hne]
  rfl

/-- In every state that a program reaches by constructing, moving, assigning, joining, detaching
and destroying wrappers in any order: no operation of `std::thread` was called where the standard
terminates the program or throws; a thread that a wrapper owns is owned by no other wrapper and was
neither joined nor detached; no thread was joined or detached twice; and each started thread that
no wrapper owns, which is every one when all wrappers are destroyed, was joined or detached exactly
once. Each live wrapper can be destroyed, joined and detached: the destructor ends its life, and
what it owned is joined by the destructor and by `join`, and detached by `detach`. It can be
assigned any other one: what it owned is joined, and it takes over what the other one owned. -/
theorem no_thread_lost (hrun : Reachable s) :
    s.fault = none ∧
    (∀ w k, s.wrapper w = some (some k) →
      k < s.threads.started ∧ k ∉ s.threads.ended.map Prod.fst ∧
        ∀ w', s.wrapper w' = some (some k) → w' = w) ∧
    (s.threads.ended.map Prod.fst).Nodup ∧
    (∀ k < s.threads.started, (∀ w, s.wrapper w ≠ some (some k)) →
      (s.threads.ended.map Prod.fst).count k = 1) ∧
    (∀ this t, s.wrapper this = some t →
      step s (.destroy this) = some { s with
        wrapper := update s.wrapper this none
        threads := { s.threads with
          ended := s.threads.ended ++ t.toList.map fun k => (k, .joined) } } ∧
      step s (.join this) = some { s with
        wrapper := update s.wrapper this (some none)
        threads := { s.threads with
          ended := s.threads.ended ++ t.toList.map fun k => (k, .joined) } } ∧
      step s (.detach this) = some { s with
        wrapper := update s.wrapper this (some none)
        threads := { s.threads with
          ended := s.threads.ended ++ t.toList.map fun k => (k, .detached) } }) ∧
    ∀ this other t u, this ≠ other → s.wrapper this = some t → s.wrapper other = some u →
      step s (.moveAssign this other) = some { s with
        wrapper := update (update s.wrapper this (some u)) other (some none)
        threads := { s.threads with
          ended := s.threads.ended ++ t.toList.map fun k => (k, .joined) } } := by
  obtain ⟨hfault, hh⟩ := Inv.reachable hrun
  -- Each part is what the invariant says of handles, with a wrapper's thread as its handle.
  refine ⟨hfault, fun w k hw => ⟨hh.lt (owned_eq hw), hh.notMem (owned_eq hw),
    fun w' hw' => hh.unique (owned_eq hw') (owned_eq hw)⟩, hh.nodup, fun k hk hnone => ?_,
    fun this t hthis => ?_, fun this other t u hne hthis hother => ?_⟩
  · refine hh.count_eq_one hk fun w hw => hnone w ?_
    exact Option.join_eq_some_iff.mp hw
  · exact step_part hfault hthis
  · exact step_moveAssign hfault hne hthis hother

/-- Two threads are started, the second wrapper is assigned over the first one and itself, and moved
to a third place; a third thread is started and detached, and only the third wrapper is left. -/
def reassignedRun : List (Action (Fin 3)) :=
  [.construct 0, .construct 1, .moveAssign 0 1, .moveAssign 0 0, .moveConstruct 2 0, .join 1,
    .destroy 1, .destroy 0, .construct 0, .detach 0, .destroy 0]

/-- When the wrapper that is left is destroyed, no wrapper is alive, the thread that it owned is
joined, and all three threads have parted from their handles, once each. -/
theorem no_thread_lost_reassigned : ∃ s s' : State (Fin 3),
    s.wrapper 2 = some (some 1) ∧ step s (.destroy 2) = some s' ∧
    (∀ w, s'.wrapper w = none) ∧ s'.fault = none ∧
    s'.threads.ended = [(0, .joined), (2, .detached), (1, .joined)] ∧
    ∀ k < 3, (s'.threads.ended.map Prod.fst).count k = 1 := by
  obtain ⟨s, hrun, hp⟩ := Lib.exists_reaches step (fun _ _ => true) (State.init (Fin 3))
    reassignedRun (fun s => decide (s.wrapper 0 = none ∧ s.wrapper 1 = none ∧
      s.wrapper 2 = some (some 1) ∧ s.threads.started = 3 ∧
      s.threads.ended = [(0, .joined), (2, .detached)])) (by decide)
  obtain ⟨h0, h1, h2, hstarted, hended⟩ := of_decide_eq_true hp
  have hreach : Reachable s := hrun.mono fun _ _ _ => trivial
  obtain ⟨-, -, -, -, hpart, -⟩ := no_thread_lost hreach
  -- The last wrapper is destroyed, and then every thread has ended once.
  have hdestroy := (hpart 2 (some 1) h2).1
  obtain ⟨hfault, -, -, hcount, -, -⟩ := no_thread_lost (hreach.tail trivial hdestroy)
  have hnone : ∀ w, update s.wrapper 2 none w = none := by
    intro w
    rcases eq_or_ne w 2 with rfl | hw
    · exact Function.update_self ..
    · rw [Function.update_of_ne hw]
      obtain rfl | rfl : w = 0 ∨ w = 1 := by omega
      · exact h0
      · exact h1
  refine ⟨s, _, h2, hdestroy, hnone, hfault, ?_, fun k hk => hcount k (by rw [hstarted]; exact hk)
    fun w hw => ?_⟩
  · simp [hended]
  · have hw' : update s.wrapper 2 none w = some (some k) := hw
    rw [hnone w] at hw'
    cases hw'

end CPStudy.ThreadWrapper
