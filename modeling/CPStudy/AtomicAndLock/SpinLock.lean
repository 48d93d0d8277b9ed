import CPStudy.Lib.Transition
import CPStudy.Lib.WeakMemory

/-!
# The spin lock of `spinlock.h`

The lock is an `atomic_int`: `spinlock_lock` exchanges `1` for it with acquire until it reads `0`,
and loads it relaxed in between until it is not `1`; `spinlock_trylock` does each once;
`spinlock_unlock` stores `0` with release. The threads of a type `ι` use it over a weak memory, to
guard cells that are not atomic, and may use other atomic locations as they like.

A message `0` of the lock that nothing stands directly behind is free to be exchanged (`Free`), and
no exchange but the next can read it. There is at most one, and none while a thread is inside; what
it hands on is all that was done inside before (`Excl`). So no two threads are inside, and their
accesses to the cells are all ordered (`spinlock_spec`).
-/

namespace CPStudy.AtomicAndLock.SpinLock

open Function (update)
open Lib (MemoryOrder WeakMemory Message View)

/-- Where a thread stands. -/
inductive Pc
  /-- Outside. -/
  | idle
  /-- In `spinlock_lock`, before `atomic_test_and_set_`. -/
  | exchange
  /-- In `spinlock_lock`, before `atomic_load_relaxed_`. -/
  | spin
  /-- In `spinlock_trylock`, before `atomic_load_relaxed_`. -/
  | tryLoad
  /-- In `spinlock_trylock`, before `atomic_test_and_set_`. -/
  | tryExchange
  /-- With the lock. -/
  | inside
deriving DecidableEq

/-- A state of the lock and of the threads that use it. -/
structure State (ι A C : Type*) where
  /-- The memory. -/
  mem : WeakMemory A C ℤ
  /-- The threads. -/
  pc : ι → Pc
  /-- What they have seen. -/
  view : ι → View A C
  /-- What they have read from a cell last. -/
  reg : ι → ℤ
  /-- Somebody with the lock made an access to a cell that is not ordered after all others. -/
  race : Bool

variable {ι A C : Type*}

/-- After `spinlock_init`. -/
def State.init [DecidableEq A] (lock : A) (atoms : A → ℤ) (cells : C → ℤ) : State ι A C where
  mem := WeakMemory.init (update atoms lock 0) cells
  pc := fun _ => .idle
  view := fun _ => (fun _ => 0, fun _ => 0)
  reg := fun _ => 0
  race := false

/-- What happens next. -/
inductive Action (ι A C : Type*)
  /-- The thread calls `spinlock_lock`. -/
  | lock (t : ι)
  /-- The thread calls `spinlock_trylock`. -/
  | trylock (t : ι)
  /-- The thread goes on; its access to the lock reads the message at the index. -/
  | run (t : ι) (i : ℕ)
  /-- The thread with the lock calls `spinlock_unlock`; its store takes the time. -/
  | unlock (t : ι) (time : ℕ)
  /-- The thread with the lock reads a cell. -/
  | read (t : ι) (c : C)
  /-- The thread with the lock writes a cell. -/
  | write (t : ι) (c : C) (v : ℤ)
  /-- The thread loads another atomic location. -/
  | load (t : ι) (o : MemoryOrder) (a : A) (i : ℕ)
  /-- The thread stores to another atomic location. -/
  | store (t : ι) (o : MemoryOrder) (a : A) (v : ℤ) (time : ℕ)

section Step

variable [DecidableEq ι] [DecidableEq A] [DecidableEq C]

/-- `atomic_test_and_set_(&lock->lock)`, and where the thread goes on if it reads `0` and if not. -/
def testAndSet (lock : A) (s : State ι A C) (t : ι) (i : ℕ) (zero other : Pc) :
    Option (State ι A C) :=
  (s.mem.rmw .acquire (s.view t) lock (fun _ => 1) i).map fun r : ℤ × _ × _ =>
    { s with
      mem := r.2.1
      view := update s.view t r.2.2
      pc := update s.pc t (if r.1 = 0 then zero else other) }

/-- `atomic_load_relaxed_(&lock->lock)`, and where the thread goes on if it reads `0` and if not. -/
def loadRelaxed (lock : A) (s : State ι A C) (t : ι) (i : ℕ) (zero other : Pc) :
    Option (State ι A C) :=
  (s.mem.load .relaxed (s.view t) lock i).map fun r : ℤ × _ =>
    { s with
      view := update s.view t r.2
      pc := update s.pc t (if r.1 = 0 then zero else other) }

/-- A step. -/
def step (lock : A) (s : State ι A C) : Action ι A C → Option (State ι A C)
  | .lock t => if s.pc t = .idle then some { s with pc := update s.pc t .exchange } else none
  | .trylock t => if s.pc t = .idle then some { s with pc := update s.pc t .tryLoad } else none
  | .run t i =>
    match s.pc t with
    | .exchange => testAndSet lock s t i .inside .spin
    | .spin => loadRelaxed lock s t i .exchange .spin
    | .tryLoad => loadRelaxed lock s t i .tryExchange .idle
    | .tryExchange => testAndSet lock s t i .inside .idle
    | .idle => none
    | .inside => none
  | .unlock t time =>
    if s.pc t = .inside then
      (s.mem.store .release (s.view t) lock 0 time).map fun r =>
        { s with mem := r.1, view := update s.view t r.2, pc := update s.pc t .idle }
    else none
  | .read t c =>
    if s.pc t = .inside then
      match s.mem.read (s.view t) c with
      | some r =>
        some { s with mem := r.2.1, view := update s.view t r.2.2, reg := update s.reg t r.1 }
      | none => some { s with race := true }
    else none
  | .write t c v =>
    if s.pc t = .inside then
      match s.mem.write (s.view t) c v with
      | some r => some { s with mem := r.1, view := update s.view t r.2 }
      | none => some { s with race := true }
    else none
  | .load t o a i =>
    if a = lock then none
    else (s.mem.load o (s.view t) a i).map fun r => { s with view := update s.view t r.2 }
  | .store t o a v time =>
    if a = lock then none
    else (s.mem.store o (s.view t) a v time).map fun r =>
      { s with mem := r.1, view := update s.view t r.2 }

/-- The states that the lock can come to. -/
def Reachable (lock : A) (s : State ι A C) : Prop :=
  ∃ atoms cells, Lib.Reaches (step lock) (fun _ _ => True) (State.init lock atoms cells) s

end Step

section Frame

variable [DecidableEq ι] [DecidableEq A] [DecidableEq C] {lock : A} {s s' : State ι A C} {t : ι}

/-- In `spinlock_lock`. -/
def Pc.Locking (p : Pc) : Prop := p = .exchange ∨ p = .spin

/-- What a thread leaves that goes on in `spinlock_lock`: the cells, and where the others stand. -/
theorem run_eq_some {i : ℕ} (ht : (s.pc t).Locking) (hs : step lock s (.run t i) = some s') :
    ∃ M w p, s' = { s with mem := M, view := update s.view t w, pc := update s.pc t p } ∧
      M.cells = s.mem.cells ∧ M.accs = s.mem.accs ∧ s.view t ≤ w ∧ (p.Locking ∨ p = .inside) := by
  -- At the exchange a value other than `0` sends it to the inner loop, and there `0` sends it back.
  rcases ht with ht | ht
  · rw [step, ht] at hs
    obtain ⟨⟨v, M, w⟩, hr, rfl⟩ := Option.map_eq_some_iff.mp hs
    obtain ⟨m, -, -, -, -, -, hseen, -, m₀, -, -, -, -, rfl⟩ := WeakMemory.rmw_eq_some hr
    refine ⟨_, _, _, rfl, rfl, rfl, (WeakMemory.le_seen _ _ _ _).trans hseen, ?_⟩
    dsimp only
    split
    case isTrue => exact .inr rfl
    case isFalse => exact .inl (.inr rfl)
  · rw [step, ht] at hs
    obtain ⟨⟨v, w⟩, hl, rfl⟩ := Option.map_eq_some_iff.mp hs
    refine ⟨_, _, _, rfl, rfl, rfl, WeakMemory.le_of_load hl, .inl ?_⟩
    dsimp only
    split
    case isTrue => exact .inl rfl
    case isFalse => exact .inr rfl

/-- What `spinlock_unlock` leaves. -/
theorem unlock_eq_some {time : ℕ} (hs : step lock s (.unlock t time) = some s') :
    ∃ M w, s' = { s with mem := M, view := update s.view t w, pc := update s.pc t .idle } ∧
      M.cells = s.mem.cells ∧ M.accs = s.mem.accs ∧ s.view t ≤ w := by
  obtain ⟨-, hs⟩ := Option.ite_none_right_eq_some.mp hs
  obtain ⟨⟨M, w⟩, hst, rfl⟩ := Option.map_eq_some_iff.mp hs
  obtain ⟨-, -, -, hgrow, -, m₀, -, -, -, rfl⟩ := WeakMemory.store_eq_some hst
  exact ⟨_, _, rfl, rfl, rfl, hgrow⟩

end Frame

/-- A message of the lock that an exchange may read and that lets it in. -/
def Free (lock : A) (M : WeakMemory A C ℤ) (m : Message A C ℤ) : Prop :=
  m ∈ M.msgs lock ∧ m.val = 0 ∧ ∀ m' ∈ M.msgs lock, m'.time ≠ m.time + 1

/-- One at a time, with all that was done before. -/
structure Excl (lock : A) (s : State ι A C) : Prop where
  /-- No two threads are inside. -/
  unique : ∀ t u, s.pc t = .inside → s.pc u = .inside → t = u
  /-- While one is, no message is free. -/
  taken : ∀ t, s.pc t = .inside → ∀ m, ¬ Free lock s.mem m
  /-- No two messages are free. -/
  one : ∀ m m', Free lock s.mem m → Free lock s.mem m' → m = m'
  /-- Who is inside has seen every access to a cell. -/
  seen : ∀ t, s.pc t = .inside → ∀ c, s.mem.accs c ≤ (s.view t).2 c
  /-- The free message says so too. -/
  handed : ∀ m, Free lock s.mem m → ∀ c, s.mem.accs c ≤ m.view.2 c
  /-- All accesses to the cells were ordered. -/
  race : s.race = false

namespace Excl

variable {lock : A} {s s' : State ι A C} {t : ι} {w : View A C}

section

variable [DecidableEq ι]

/-- A thread that is not inside goes on, or one that is sees more, and no message becomes free. -/
theorem move (h : Excl lock s) {p : Pc} {M : WeakMemory A C ℤ} (hp : p = .inside → s.pc t = .inside)
    (hw : s.view t ≤ w) (haccs : M.accs = s.mem.accs)
    (hfree : ∀ m, Free lock M m → Free lock s.mem m) :
    Excl lock { s with mem := M, view := update s.view t w, pc := update s.pc t p } := by
  -- So whoever is inside afterwards was inside before, and has not seen less.
  have hinside : ∀ u, update s.pc t p u = .inside → s.pc u = .inside := by
    intro u hu
    by_cases hut : u = t
    · rw [hut, Function.update_self] at hu
      rw [hut]
      exact hp hu
    · rwa [Function.update_of_ne hut] at hu
  have hview : ∀ u, s.view u ≤ update s.view t w u := by
    intro u
    by_cases hut : u = t
    · rw [hut, Function.update_self]
      exact hw
    · rw [Function.update_of_ne hut]
  constructor
  case unique => exact fun u v hu hv => h.unique u v (hinside u hu) (hinside v hv)
  case taken => exact fun u hu m hm => h.taken u (hinside u hu) m (hfree m hm)
  case one => exact fun m m' hm hm' => h.one m m' (hfree m hm) (hfree m' hm')
  case seen =>
    intro u hu c
    change M.accs c ≤ _
    rw [haccs]
    exact (h.seen u (hinside u hu) c).trans ((hview u).2 c)
  case handed =>
    intro m hm c
    change M.accs c ≤ _
    rw [haccs]
    exact h.handed m (hfree m hm) c
  case race => exact h.race

/-- A call. -/
theorem call (h : Excl lock s) {p : Pc} (hp : p ≠ .inside) :
    Excl lock { s with pc := update s.pc t p } := by
  have hmove := h.move (t := t) (p := p) (M := s.mem) (fun hf => absurd hf hp) le_rfl rfl
    fun m hm => hm
  rwa [Function.update_eq_self] at hmove

/-- Another atomic location does not matter. -/
theorem elsewhere (h : Excl lock s) {M : WeakMemory A C ℤ} (hw : s.view t ≤ w)
    (haccs : M.accs = s.mem.accs) (hfree : ∀ m, Free lock M m → Free lock s.mem m) :
    Excl lock { s with mem := M, view := update s.view t w } := by
  have hmove := h.move (t := t) (p := s.pc t) (fun hf => hf) hw haccs hfree
  rwa [Function.update_eq_self] at hmove

/-- An access to a cell by the thread inside. -/
theorem access [DecidableEq C] (h : Excl lock s) (ht : s.pc t = .inside) (c : C) (f : C → ℤ)
    (reg : ι → ℤ) :
    Excl lock { s with
      mem := { s.mem with cells := f, accs := update s.mem.accs c (s.mem.accs c + 1) }
      view := update s.view t ((s.view t).1, update (s.view t).2 c ((s.view t).2 c + 1))
      reg := reg } := by
  refine { h with seen := ?_, handed := fun m hm => absurd hm (h.taken t ht m) }
  intro u hu d
  -- Nobody else is inside, and who did the access has seen it.
  obtain rfl : u = t := h.unique u t hu ht
  have hle := h.seen u ht d
  change update s.mem.accs c _ d ≤ (update s.view u _ u).2 d
  rw [Function.update_self]
  by_cases hd : d = c
  · subst hd
    rw [Function.update_self]
    dsimp only
    rw [Function.update_self]
    omega
  · dsimp only
    rw [Function.update_of_ne hd, Function.update_of_ne hd]
    exact hle

end

variable [DecidableEq A]

/-- After `spinlock_init` the first message alone is free. -/
theorem init (atoms : A → ℤ) (cells : C → ℤ) :
    Excl lock (State.init lock atoms cells : State ι A C) where
  unique := fun t u h => by cases h
  taken := fun t h => by cases h
  one := by
    intro m m' hm hm'
    rw [List.mem_singleton.mp hm.1, List.mem_singleton.mp hm'.1]
  seen := fun t h => by cases h
  handed := fun m _ c => Nat.zero_le _
  race := rfl

/-- No message becomes free by adding another one that is not `0`. -/
theorem free_of_push {M : WeakMemory A C ℤ} {o : MemoryOrder} {a : A} {m₀ m : Message A C ℤ}
    (hm₀ : a = lock → m₀.val ≠ 0) (h : Free lock (M.push o a m₀) m) : Free lock M m := by
  obtain ⟨hm, hv, hnext⟩ := h
  rcases WeakMemory.mem_push.mp hm with ⟨ha, rfl⟩ | hm
  · exact absurd hv (hm₀ ha.symm)
  · exact ⟨hm, hv, fun m' hm' => hnext m' (WeakMemory.mem_push.mpr (.inr hm'))⟩

variable [DecidableEq ι]

/-- Who exchanges `1` for `0` is the only one inside and has seen all that was done before. -/
theorem enter (h : Excl lock s) {M : WeakMemory A C ℤ} {i : ℕ}
    (hr : s.mem.rmw .acquire (s.view t) lock (fun _ => 1) i = some (0, M, w)) :
    Excl lock { s with mem := M, view := update s.view t w, pc := update s.pc t .inside } := by
  obtain ⟨m, hm, -, -, hnext, hval, hseen, -, m₀, htime, hone, -, -, rfl⟩ :=
    WeakMemory.rmw_eq_some hr
  have hfree : Free lock s.mem m := ⟨hm, hval.symm, hnext⟩
  have hself : ∀ u, update s.pc t .inside u = .inside → u = t := by
    intro u hu
    by_contra hut
    rw [Function.update_of_ne hut] at hu
    exact h.taken u hu m hfree
  -- The exchange stands directly behind the only message that was free.
  have hnone : ∀ m', ¬ Free lock (s.mem.push .acquire lock m₀) m' := by
    intro m' hm'
    have hne : m₀.val ≠ 0 := by
      rw [hone]
      decide
    obtain rfl : m' = m := h.one m' m (free_of_push (fun _ => hne) hm') hfree
    exact hm'.2.2 m₀ (WeakMemory.mem_push.mpr (.inl ⟨rfl, rfl⟩)) htime
  constructor
  case unique => exact fun u v hu hv => (hself u hu).trans (hself v hv).symm
  case taken => exact fun u hu m' => hnone m'
  case one => exact fun m' _ hm' => absurd hm' (hnone m')
  case seen =>
    intro u hu c
    obtain rfl := hself u hu
    change s.mem.accs c ≤ (update s.view u w u).2 c
    rw [Function.update_self]
    have hview : m.view ≤ w := (WeakMemory.view_le_seen rfl _ _ _).trans hseen
    exact (h.handed m hfree c).trans (hview.2 c)
  case handed => exact fun m' hm' => absurd hm' (hnone m')
  case race => exact h.race

/-- `atomic_test_and_set_`, with a thread that goes inside where it reads `0`. -/
theorem testAndSet (h : Excl lock s) {i : ℕ} {p : Pc} (hp : p ≠ .inside)
    (hs : SpinLock.testAndSet lock s t i .inside p = some s') : Excl lock s' := by
  obtain ⟨⟨v, M, w⟩, hr, rfl⟩ := Option.map_eq_some_iff.mp hs
  dsimp only
  split
  case isTrue hv =>
    subst hv
    exact h.enter hr
  case isFalse =>
    -- It has put `1` behind another `1`: this makes no message free.
    obtain ⟨m, -, -, -, -, -, hseen, -, m₀, -, hone, -, -, rfl⟩ := WeakMemory.rmw_eq_some hr
    have hne : m₀.val ≠ 0 := by
      rw [hone]
      decide
    exact h.move (fun hf => absurd hf hp) ((WeakMemory.le_seen _ _ _ _).trans hseen) rfl
      fun m => free_of_push fun _ => hne

/-- `atomic_load_relaxed_`. -/
theorem loadRelaxed (h : Excl lock s) {i : ℕ} {zero other : Pc} (hz : zero ≠ .inside)
    (ho : other ≠ .inside) (hs : SpinLock.loadRelaxed lock s t i zero other = some s') :
    Excl lock s' := by
  obtain ⟨⟨v, w⟩, hl, rfl⟩ := Option.map_eq_some_iff.mp hs
  refine h.move (fun hf => ?_) (WeakMemory.le_of_load hl) rfl fun m hm => hm
  dsimp only at hf
  split at hf
  case isTrue => exact absurd hf hz
  case isFalse => exact absurd hf ho

/-- The store of `spinlock_unlock` is the message that is free then. -/
theorem unlock (h : Excl lock s) (ht : s.pc t = .inside) {M : WeakMemory A C ℤ} {time : ℕ}
    (hs : s.mem.store .release (s.view t) lock 0 time = some (M, w)) :
    Excl lock { s with mem := M, view := update s.view t w, pc := update s.pc t .idle } := by
  obtain ⟨-, -, -, hgrow, -, m₀, -, -, hview, rfl⟩ := WeakMemory.store_eq_some hs
  have hnone : ∀ u, update s.pc t .idle u ≠ .inside := by
    intro u hu
    by_cases hut : u = t
    · rw [hut, Function.update_self] at hu
      cases hu
    · rw [Function.update_of_ne hut] at hu
      exact hut (h.unique u t hu ht)
  -- No message was free while `t` was inside, so the new one is the only one now.
  have hfree : ∀ m, Free lock (s.mem.push .release lock m₀) m → m = m₀ := by
    intro m hm
    rcases WeakMemory.mem_push.mp hm.1 with ⟨-, hm₀⟩ | hold
    · exact hm₀
    · have hwas : Free lock s.mem m :=
        ⟨hold, hm.2.1, fun m' hm' => hm.2.2 m' (WeakMemory.mem_push.mpr (.inr hm'))⟩
      exact absurd hwas (h.taken t ht m)
  constructor
  case unique => exact fun u _ hu => absurd hu (hnone u)
  case taken => exact fun u hu => absurd hu (hnone u)
  case one => exact fun m m' hm hm' => (hfree m hm).trans (hfree m' hm').symm
  case seen => exact fun u hu => absurd hu (hnone u)
  case handed =>
    intro m hm c
    rw [hfree m hm, hview rfl]
    exact (h.seen t ht c).trans (hgrow.2 c)
  case race => exact h.race

variable [DecidableEq C] {a : Action ι A C}

/-- The step of a thread in `spinlock_lock` or `spinlock_trylock`. -/
theorem run (h : Excl lock s) {i : ℕ} (hs : SpinLock.step lock s (.run t i) = some s') :
    Excl lock s' := by
  cases hpc : s.pc t with
  | exchange =>
    rw [SpinLock.step, hpc] at hs
    exact h.testAndSet (by decide) hs
  | spin =>
    rw [SpinLock.step, hpc] at hs
    exact h.loadRelaxed (by decide) (by decide) hs
  | tryLoad =>
    rw [SpinLock.step, hpc] at hs
    exact h.loadRelaxed (by decide) (by decide) hs
  | tryExchange =>
    rw [SpinLock.step, hpc] at hs
    exact h.testAndSet (by decide) hs
  | idle =>
    rw [SpinLock.step, hpc] at hs
    cases hs
  | inside =>
    rw [SpinLock.step, hpc] at hs
    cases hs

/-- A read by the thread inside is defined and returns what is in the cell. -/
theorem read_eq_some (h : Excl lock s) {c : C} (hs : SpinLock.step lock s (.read t c) = some s') :
    s.pc t = .inside ∧ s' = { s with
      mem := { s.mem with accs := update s.mem.accs c (s.mem.accs c + 1) }
      view := update s.view t ((s.view t).1, update (s.view t).2 c ((s.view t).2 c + 1))
      reg := update s.reg t (s.mem.cells c) } := by
  obtain ⟨ht, hs⟩ := Option.ite_none_right_eq_some.mp hs
  rw [WeakMemory.read, if_pos (h.seen t ht c)] at hs
  exact ⟨ht, (Option.some.inj hs).symm⟩

/-- A write by the thread inside is defined. -/
theorem write_eq_some (h : Excl lock s) {c : C} {v : ℤ}
    (hs : SpinLock.step lock s (.write t c v) = some s') :
    s.pc t = .inside ∧ s' = { s with
      mem := { s.mem with
        cells := update s.mem.cells c v
        accs := update s.mem.accs c (s.mem.accs c + 1) }
      view := update s.view t ((s.view t).1, update (s.view t).2 c ((s.view t).2 c + 1)) } := by
  obtain ⟨ht, hs⟩ := Option.ite_none_right_eq_some.mp hs
  rw [WeakMemory.write, if_pos (h.seen t ht c)] at hs
  exact ⟨ht, (Option.some.inj hs).symm⟩

/-- Every step keeps it. -/
theorem step (h : Excl lock s) (hs : SpinLock.step lock s a = some s') : Excl lock s' := by
  cases a with
  | lock t =>
    obtain ⟨-, hs⟩ := Option.ite_none_right_eq_some.mp hs
    obtain rfl := Option.some.inj hs
    exact h.call (by decide)
  | trylock t =>
    obtain ⟨-, hs⟩ := Option.ite_none_right_eq_some.mp hs
    obtain rfl := Option.some.inj hs
    exact h.call (by decide)
  | run t i => exact h.run hs
  | unlock t time =>
    obtain ⟨ht, hs⟩ := Option.ite_none_right_eq_some.mp hs
    obtain ⟨⟨M, w⟩, hst, rfl⟩ := Option.map_eq_some_iff.mp hs
    exact h.unlock ht hst
  | read t c =>
    obtain ⟨ht, rfl⟩ := h.read_eq_some hs
    exact h.access ht c s.mem.cells _
  | write t c v =>
    obtain ⟨ht, rfl⟩ := h.write_eq_some hs
    exact h.access ht c _ s.reg
  | load t o b i =>
    obtain ⟨-, hs⟩ := Option.ite_none_left_eq_some.mp hs
    obtain ⟨⟨v, w⟩, hl, rfl⟩ := Option.map_eq_some_iff.mp hs
    exact h.elsewhere (WeakMemory.le_of_load hl) rfl fun m hm => hm
  | store t o b v time =>
    obtain ⟨hb, hs⟩ := Option.ite_none_left_eq_some.mp hs
    obtain ⟨⟨M, w⟩, hst, rfl⟩ := Option.map_eq_some_iff.mp hs
    obtain ⟨-, -, -, hgrow, -, m₀, -, -, -, rfl⟩ := WeakMemory.store_eq_some hst
    exact h.elsewhere hgrow rfl fun m => free_of_push fun heq => absurd heq hb

end Excl

/-- Over a weak memory no two threads are inside, and the accesses to the cells by the threads
inside are all ordered, each after every one before it: there is no data race. -/
theorem spinlock_spec [DecidableEq ι] [DecidableEq A] [DecidableEq C] {lock : A} {s : State ι A C}
    (h : Reachable lock s) :
    (∀ t u, s.pc t = .inside → s.pc u = .inside → t = u) ∧ s.race = false := by
  obtain ⟨atoms, cells, hrun⟩ := h
  have hexcl : Excl lock s :=
    hrun.invariant (Excl.init atoms cells) fun _ _ _ hs _ hstep => hs.step hstep
  exact ⟨hexcl.unique, hexcl.race⟩

/-- One thread is inside after another one was, and has read what that one wrote. -/
theorem spinlock_spec_two : ∃ s : State (Fin 2) Unit Unit, s.pc 1 = .inside ∧ s.reg 1 = 7 ∧
    (∀ t u, s.pc t = .inside → s.pc u = .inside → t = u) ∧ s.race = false := by
  obtain ⟨s, hs, hp⟩ := Lib.exists_reaches (step ()) (fun _ _ => true)
    (State.init () (fun _ => 0) (fun _ => 0) : State (Fin 2) Unit Unit)
    [.lock 0, .run 0 0, .write 0 () 7, .lock 1, .run 1 0, .unlock 0 5, .run 1 0, .run 1 0,
      .read 1 ()]
    (fun s => decide (s.pc 1 = .inside ∧ s.reg 1 = 7)) (by decide +kernel)
  obtain ⟨hpc, hreg⟩ := of_decide_eq_true hp
  have hreach : Reachable () s := ⟨_, _, hs.mono fun _ _ _ => trivial⟩
  exact ⟨s, hpc, hreg, spinlock_spec hreach⟩

end CPStudy.AtomicAndLock.SpinLock
