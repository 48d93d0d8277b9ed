import CPStudy.Lib.Transition
import CPStudy.Lib.WeakMemory

/-!
# `relaxed_test.cc`

Two threads store the numbers from `0` on in `x`, the second one negated, with relaxed order, and
`main` loads `x` when it has joined both. The stores of one thread are in the order of the thread
among the messages of `x`, so that the load returns what one of the threads stored last and nothing
older, although no access but a relaxed one is made.
-/

namespace CPStudy.AtomicAndLock.RelaxedTest

open Function (update)
open Lib (WeakMemory Message View)

/-- The threads. -/
inductive Thread
  /-- `thread_func1`. -/
  | func1
  /-- `thread_func2`. -/
  | func2
deriving DecidableEq

instance : Fintype Thread where
  elems := {.func1, .func2}
  complete := fun t => by cases t <;> decide

/-- What a thread stores when its `i` is the number. -/
def Thread.stores : Thread → ℕ → ℤ
  | .func1, i => i
  | .func2, i => -i

/-- A state of the program. -/
structure State where
  /-- The memory with `x`. -/
  mem : WeakMemory Unit Empty ℤ
  /-- What the threads have seen. -/
  view : Thread → View Unit Empty
  /-- `i` of each thread. -/
  i : Thread → ℕ

/-- The threads are started. -/
def State.init : State where
  mem := WeakMemory.init (fun _ => 0) Empty.elim
  view := fun _ => (fun _ => 0, fun _ => 0)
  i := fun _ => 0

/-- A thread stores what is next if `i < n`; the store takes the time. -/
def step (n : ℕ) (s : State) : Thread × ℕ → Option State
  | (t, time) =>
    if s.i t < n then
      (s.mem.store .relaxed (s.view t) () (t.stores (s.i t)) time).map fun r =>
        { mem := r.1, view := update s.view t r.2, i := update s.i t (s.i t + 1) }
    else none

/-- The states that the program can come to, with so many iterations of the loops. -/
def Reachable (n : ℕ) (s : State) : Prop := Lib.Reaches (step n) (fun _ _ => True) State.init s

/-- The stores of one thread are in its order. -/
structure Coherent (n : ℕ) (s : State) : Prop where
  /-- A message is the first one, or a thread has stored it, and has stored later ones behind it. -/
  own : ∀ m ∈ s.mem.msgs (), m.time = 0 ∨ ∃ t j, m.val = t.stores j ∧ m.time ≤ (s.view t).1 () ∧
    (j + 1 = s.i t ∨ m.time < (s.view t).1 ())
  /-- What a thread has seen is a message. -/
  seen : ∀ t, ∃ m ∈ s.mem.msgs (), m.time = (s.view t).1 ()
  /-- It is not the first one when the thread has stored something. -/
  pos : ∀ t, 0 < s.i t → 0 < (s.view t).1 ()
  /-- The loop is not run more often than that. -/
  bound : ∀ t, s.i t ≤ n

namespace Coherent

variable {n : ℕ} {s s' : State}

/-- The threads are started. -/
theorem init : Coherent n State.init where
  own := by
    intro m hm
    obtain rfl := List.mem_singleton.mp hm
    exact .inl rfl
  seen := fun t => ⟨_, List.mem_singleton_self _, rfl⟩
  pos := fun t h => h
  bound := fun t => Nat.zero_le _

/-- Every step keeps it. -/
theorem step (h : Coherent n s) {a : Thread × ℕ} (hs : RelaxedTest.step n s a = some s') :
    Coherent n s' := by
  obtain ⟨t, time⟩ := a
  obtain ⟨hi, hs⟩ := Option.ite_none_right_eq_some.mp hs
  obtain ⟨⟨M, w⟩, hst, rfl⟩ := Option.map_eq_some_iff.mp hs
  have hw : w.1 () = time := WeakMemory.time_of_store hst
  obtain ⟨hlt, -, -, -, -, m₀, htime, hval, -, rfl⟩ := WeakMemory.store_eq_some hst
  constructor
  case own =>
    intro m hm
    dsimp only
    -- The new message is the last one of its thread; the older ones of that thread are before it.
    rcases WeakMemory.mem_push.mp hm with ⟨-, rfl⟩ | hm
    · refine .inr ⟨t, s.i t, hval, ?_, .inl ?_⟩
      · rw [Function.update_self, hw, htime]
      · rw [Function.update_self]
    · rcases h.own m hm with hzero | ⟨u, j, hv, hle, hlast⟩
      · exact .inl hzero
      refine .inr ⟨u, j, hv, ?_⟩
      by_cases hu : u = t
      · subst hu
        rw [Function.update_self, Function.update_self, hw]
        have hbelow : m.time < time := hle.trans_lt hlt
        exact ⟨hbelow.le, .inr hbelow⟩
      · rw [Function.update_of_ne hu, Function.update_of_ne hu]
        exact ⟨hle, hlast⟩
  case seen =>
    intro u
    dsimp only
    by_cases hu : u = t
    · subst hu
      rw [Function.update_self, hw]
      exact ⟨m₀, WeakMemory.mem_push.mpr (.inl ⟨rfl, rfl⟩), htime⟩
    · rw [Function.update_of_ne hu]
      obtain ⟨m, hm, hseen⟩ := h.seen u
      exact ⟨m, WeakMemory.mem_push.mpr (.inr hm), hseen⟩
  case pos =>
    intro u hpos
    dsimp only at hpos ⊢
    by_cases hu : u = t
    · subst hu
      rw [Function.update_self, hw]
      omega
    · rw [Function.update_of_ne hu] at hpos ⊢
      exact h.pos u hpos
  case bound =>
    intro u
    dsimp only
    by_cases hu : u = t
    · subst hu
      rw [Function.update_self]
      exact hi
    · rw [Function.update_of_ne hu]
      exact h.bound u

end Coherent

/-- When both threads are at their ends, `main` can load `x`, and it loads what one of the threads
has stored last. -/
theorem final_value {n : ℕ} {s : State} (hn : 0 < n) (h : Reachable n s)
    (hend : ∀ t, ¬ s.i t < n) :
    (∃ k r, s.mem.load .relaxed (View.joined s.view) () k = some r) ∧
      ∀ k r, s.mem.load .relaxed (View.joined s.view) () k = some r →
        r.1 = n - 1 ∨ r.1 = -(n - 1) := by
  have hc : Coherent n s :=
    Lib.Reaches.invariant Coherent.init (fun _ _ _ h _ hstep => h.step hstep) h
  have hi : ∀ t, s.i t = n := by
    intro t
    have hbound := hc.bound t
    have hnot := hend t
    omega
  have hne : Nonempty Thread := ⟨.func1⟩
  constructor
  -- The joined view is that of the thread that has seen most, and what it has seen is there.
  · obtain ⟨t, ht⟩ := View.exists_joined s.view ()
    obtain ⟨m, hm, hseen⟩ := hc.seen t
    obtain ⟨k, hk⟩ := List.getElem?_of_mem hm
    have hload := WeakMemory.load_eq_of_getElem (o := .relaxed) hk (ht.trans hseen.symm).le
      fun hf => by cases hf
    exact ⟨k, _, hload⟩
  · rintro k ⟨v, w⟩ hl
    obtain ⟨m, hm, hle, -, rfl, -⟩ := WeakMemory.load_eq_some hl
    have hview : ∀ t, (s.view t).1 () ≤ m.time := fun t =>
      ((View.le_joined s.view t).1 ()).trans hle
    -- `main` reads nothing before any thread's last store, so a thread's own message is its last.
    rcases hc.own m hm with hzero | ⟨t, j, hv, -, hlast⟩
    · have hpos := hc.pos .func1 (by rw [hi]; exact hn)
      have hseen := hview .func1
      omega
    · have hj : (j : ℤ) = n - 1 := by
        have hseen := hview t
        have hit := hi t
        omega
      rw [hv, ← hj]
      cases t with
      | func1 => exact .inl rfl
      | func2 => exact .inr rfl

/-- Two iterations each, in which the second thread stores between the stores of the first. -/
theorem final_value_two : ∃ s : State, (∀ t, ¬ s.i t < 2) ∧
    ∀ k r, s.mem.load .relaxed (View.joined s.view) () k = some r → r.1 = 1 ∨ r.1 = -1 := by
  obtain ⟨s, hs, hp⟩ := Lib.exists_reaches (step 2) (fun _ _ => true) State.init
    [(.func1, 1), (.func2, 3), (.func1, 9), (.func2, 7)]
    (fun s => decide (∀ t, ¬ s.i t < 2)) (by decide +kernel)
  have hend := of_decide_eq_true hp
  have hreach : Reachable 2 s := hs.mono fun _ _ _ => trivial
  obtain ⟨-, hfinal⟩ := final_value (by decide) hreach hend
  exact ⟨s, hend, hfinal⟩

end CPStudy.AtomicAndLock.RelaxedTest
