import Mathlib.Data.BitVec
import CPStudy.Lib.Count
import CPStudy.AtomicAndLock.SpinLock

/-!
# `autoinc.cc`

`main` sets `count` to `0`, starts threads that call `incrby` with a number, joins them and compares
`count` with the sum. `incrby` increments `count` so many times: as a cell inside the spin lock
(`Locked`), or as an atomic with `fetch_add` (`Atomic`). The threads are those of a type `ι`, and a
round of the loop of `main` is a run.

In `Locked` the number of increments is the cell as long as it is read and written inside, which
`SpinLock.Excl` says. In `Atomic` the messages stand one behind the other without a gap, so that
the last one alone can be exchanged, and its value is the number of increments, whatever the order
of the access is. `main` has seen all that the threads have when it has joined them.
-/

namespace CPStudy.AtomicAndLock.Autoinc

open Function (update)
open Lib (MemoryOrder WeakMemory Message View sumOf sumOf_update)

variable {ι : Type*}

namespace Locked

/-- Where a thread stands in `incrby`. -/
inductive Phase
  /-- Before `i < num`. -/
  | test
  /-- In `spinlock_lock`. -/
  | lock
  /-- Before `++count` reads. -/
  | read
  /-- Before `++count` writes. -/
  | write
  /-- Before `spinlock_unlock`. -/
  | unlock
deriving DecidableEq

/-- Where it stands when `spinlock_lock` may have returned. -/
def Phase.ofLock (p : SpinLock.Pc) : Phase := if p = .inside then .read else .lock

/-- A thread. -/
structure Thread where
  /-- Where it stands. -/
  phase : Phase
  /-- `i`. -/
  i : ℕ

/-- How often it has incremented `count`. -/
def Thread.incs (th : Thread) : ℕ := th.i + if th.phase = .unlock then 1 else 0

/-- How often it has passed the test. -/
def Thread.passed (th : Thread) : ℕ := th.i + if th.phase = .test then 0 else 1

/-- A state of the program: `count` is the cell. -/
structure State (ι : Type*) where
  /-- The lock, `count`, and the threads as users of the lock. -/
  sys : SpinLock.State ι Unit Unit
  /-- The threads. -/
  threads : ι → Thread

/-- The threads are started. -/
def State.init : State ι where
  sys := SpinLock.State.init () (fun _ => 0) (fun _ => 0)
  threads := fun _ => ⟨.test, 0⟩

section Step

variable [DecidableEq ι]

/-- A thread does something with the lock or with `count`, and goes on. -/
def State.go (s : State ι) (t : ι) (a : SpinLock.Action ι Unit Unit)
    (next : SpinLock.State ι Unit Unit → Thread) : Option (State ι) :=
  (SpinLock.step () s.sys a).map fun l => { sys := l, threads := update s.threads t (next l) }

/-- A step of a thread in `incrby`. Its access to the lock reads the message at the index `k`, or
takes the time `k`. -/
def step (num : ι → ℕ) (s : State ι) : ι × ℕ → Option (State ι)
  | (t, k) =>
    let i := (s.threads t).i
    match (s.threads t).phase with
    | .test => if i < num t then s.go t (.lock t) fun _ => ⟨.lock, i⟩ else none
    | .lock => s.go t (.run t k) fun l => ⟨.ofLock (l.pc t), i⟩
    | .read => s.go t (.read t ()) fun _ => ⟨.write, i⟩
    | .write => s.go t (.write t () (s.sys.reg t + 1)) fun _ => ⟨.unlock, i⟩
    | .unlock => s.go t (.unlock t k) fun _ => ⟨.test, i + 1⟩

/-- The states that the program can come to. -/
def Reachable (num : ι → ℕ) (s : State ι) : Prop :=
  Lib.Reaches (step num) (fun _ _ => True) State.init s

end Step

/-- Where the thread stands in the lock. -/
def Phase.At : Phase → SpinLock.Pc → Prop
  | .test, p => p = .idle
  | .lock, p => p.Locking
  | .read, p => p = .inside
  | .write, p => p = .inside
  | .unlock, p => p = .inside

/-- No increment is lost. -/
structure Counted [Fintype ι] (num : ι → ℕ) (s : State ι) : Prop where
  /-- The lock works. -/
  excl : SpinLock.Excl () s.sys
  /-- It is used around `++count`. -/
  inLock : ∀ t, (s.threads t).phase.At (s.sys.pc t)
  /-- `count` is the number of increments. -/
  count : s.sys.mem.cells () = sumOf Thread.incs s.threads
  /-- What is written next is one more than that. -/
  reg : ∀ t, (s.threads t).phase = .write → s.sys.reg t = s.sys.mem.cells ()
  /-- Nobody passes the test more often than that. -/
  bound : ∀ t, (s.threads t).passed ≤ num t
  /-- Whoever joins the threads has seen every access to `count`. -/
  seen : s.sys.mem.accs () ≤ (View.joined s.sys.view).2 ()

namespace Counted

variable [Fintype ι] {num : ι → ℕ} {s s' : State ι} {t : ι} {th : Thread}
  {l : SpinLock.State ι Unit Unit}

/-- The threads are started. -/
theorem init : Counted num (State.init : State ι) where
  excl := SpinLock.Excl.init _ _
  inLock := fun _ => rfl
  count := by
    have hzero : sumOf Thread.incs (fun _ : ι => ⟨.test, 0⟩) = 0 :=
      Finset.sum_eq_zero fun _ _ => rfl
    change (0 : ℤ) = (sumOf Thread.incs (fun _ : ι => ⟨.test, 0⟩) : ℕ)
    rw [hzero]
    rfl
  reg := fun t h => by cases h
  bound := fun t => Nat.zero_le _
  seen := Nat.zero_le _

/-- A thread that is not before the write inside the lock with another one. -/
theorem ne_write (h : Counted num s) (ht : s.sys.pc t = .inside) {u : ι} (hu : u ≠ t) :
    (s.threads u).phase ≠ .write := by
  intro hw
  have hat := h.inLock u
  rw [hw] at hat
  exact hu (h.excl.unique u t hat ht)

/-- The threads have incremented `count` no more often than they were told to. -/
theorem incs_le (h : Counted num s) : sumOf Thread.incs s.threads ≤ ∑ t, num t := by
  refine Finset.sum_le_sum fun t _ => le_trans ?_ (h.bound t)
  unfold Thread.incs Thread.passed
  cases (s.threads t).phase <;> simp

variable [DecidableEq ι]

/-- A thread goes on from `s.threads t` to `th` while the lock goes on from `s.sys` to `l`. -/
theorem next (h : Counted num s) (hexcl : SpinLock.Excl () l)
    (hpc : ∀ u, u ≠ t → l.pc u = s.sys.pc u) (hat : th.phase.At (l.pc t))
    (hcells : l.mem.cells () + (s.threads t).incs = s.sys.mem.cells () + th.incs)
    (hreg : th.phase = .write → l.reg t = l.mem.cells ())
    (hothers : ∀ u, u ≠ t → (s.threads u).phase = .write → l.reg u = l.mem.cells ())
    (hbound : th.passed ≤ num t)
    (hseen : l.mem.accs () ≤ (View.joined l.view).2 ()) :
    Counted num { sys := l, threads := update s.threads t th } := by
  constructor
  case excl => exact hexcl
  case inLock =>
    intro u
    dsimp only
    by_cases hu : u = t
    · subst hu
      rw [Function.update_self]
      exact hat
    · rw [Function.update_of_ne hu, hpc u hu]
      exact h.inLock u
  -- The increments change by what this thread has added to its own.
  case count =>
    have hsum := sumOf_update s.threads Thread.incs t th
    have hcount := h.count
    dsimp only
    omega
  case reg =>
    intro u hw
    dsimp only at hw ⊢
    by_cases hu : u = t
    · subst hu
      rw [Function.update_self] at hw
      exact hreg hw
    · rw [Function.update_of_ne hu] at hw
      exact hothers u hu hw
  case bound =>
    intro u
    dsimp only
    by_cases hu : u = t
    · subst hu
      rw [Function.update_self]
      exact hbound
    · rw [Function.update_of_ne hu]
      exact h.bound u
  case seen => exact hseen

/-- What is joined grows when one thread sees more. -/
theorem joined_le {w : View Unit Unit} (hw : s.sys.view t ≤ w) :
    View.joined s.sys.view ≤ View.joined (update s.sys.view t w) := by
  refine View.joined_mono fun u => ?_
  by_cases hu : u = t
  · subst hu
    rw [Function.update_self]
    exact hw
  · rw [Function.update_of_ne hu]

/-- An access to `count` by the thread inside is seen by who joins it. -/
theorem access_seen (h : Counted num s) (ht : s.sys.pc t = .inside) :
    s.sys.mem.accs () + 1 ≤ (View.joined (update s.sys.view t ((s.sys.view t).1,
      update (s.sys.view t).2 () ((s.sys.view t).2 () + 1)))).2 () := by
  have hle := (View.le_joined (update s.sys.view t ((s.sys.view t).1,
    update (s.sys.view t).2 () ((s.sys.view t).2 () + 1))) t).2 ()
  have hseen := h.excl.seen t ht ()
  rw [Function.update_self] at hle
  dsimp only at hle
  rw [Function.update_self] at hle
  omega

/-- `i < num` holds, and `spinlock_lock` is called. -/
theorem test (h : Counted num s) {i : ℕ} (ht : s.threads t = ⟨.test, i⟩) (hi : i < num t)
    (hs : s.go t (.lock t) (fun _ => ⟨.lock, i⟩) = some s') : Counted num s' := by
  obtain ⟨l, hl, rfl⟩ := Option.map_eq_some_iff.mp hs
  have hexcl := h.excl.step hl
  obtain ⟨-, hl⟩ := Option.ite_none_right_eq_some.mp hl
  obtain rfl := Option.some.inj hl
  refine h.next hexcl (fun u hu => Function.update_of_ne hu _ _) (.inl ?_) ?_
    (fun hw => by cases hw) (fun u _ hw => h.reg u hw) hi h.seen
  · exact Function.update_self _ _ _
  · rw [ht]
    rfl

/-- In `spinlock_lock`. -/
theorem lock (h : Counted num s) {i k : ℕ} (ht : s.threads t = ⟨.lock, i⟩)
    (hs : s.go t (.run t k) (fun l => ⟨.ofLock (l.pc t), i⟩) = some s') :
    Counted num s' := by
  obtain ⟨l, hl, rfl⟩ := Option.map_eq_some_iff.mp hs
  have hexcl := h.excl.step hl
  have hat := h.inLock t
  have hbound := h.bound t
  rw [ht] at hat hbound
  obtain ⟨M, w, p, rfl, hcells, haccs, hgrow, hp⟩ := SpinLock.run_eq_some hat hl
  have hself : update s.sys.pc t p t = p := Function.update_self _ _ _
  dsimp only
  rw [hself]
  have hseen : M.accs () ≤ (View.joined (update s.sys.view t w)).2 () := by
    rw [haccs]
    exact h.seen.trans ((joined_le hgrow).2 ())
  have hothers : ∀ u, u ≠ t → (s.threads u).phase = .write → s.sys.reg u = M.cells () := by
    intro u _ hw
    rw [hcells]
    exact h.reg u hw
  have hincs : ∀ q : Phase, q ≠ .unlock →
      M.cells () + (s.threads t).incs = s.sys.mem.cells () + (Thread.incs ⟨q, i⟩ : ℕ) := by
    intro q hq
    rw [hcells, ht]
    dsimp only [Thread.incs]
    rw [if_neg hq, if_neg (by decide)]
  -- The lock call goes on, or the thread is inside and about to read `count`.
  unfold Phase.ofLock
  split
  case isTrue hin =>
    refine h.next hexcl (fun u hu => Function.update_of_ne hu _ _) ?_ (hincs .read (by decide))
      (fun hw => by cases hw) hothers hbound hseen
    exact hself.trans hin
  case isFalse hin =>
    refine h.next hexcl (fun u hu => Function.update_of_ne hu _ _) ?_ (hincs .lock (by decide))
      (fun hw => by cases hw) hothers hbound hseen
    change (update s.sys.pc t p t).Locking
    rw [hself]
    exact hp.resolve_right hin

/-- `++count` reads. -/
theorem read (h : Counted num s) {i : ℕ} (ht : s.threads t = ⟨.read, i⟩)
    (hs : s.go t (.read t ()) (fun _ => ⟨.write, i⟩) = some s') : Counted num s' := by
  obtain ⟨l, hl, rfl⟩ := Option.map_eq_some_iff.mp hs
  have hexcl := h.excl.step hl
  obtain ⟨hin, rfl⟩ := h.excl.read_eq_some hl
  have hbound := h.bound t
  rw [ht] at hbound
  refine h.next hexcl (fun u _ => rfl) hin ?_ (fun _ => Function.update_self _ _ _) ?_ hbound ?_
  · rw [ht]
    rfl
  · exact fun u hu hw => absurd hw (h.ne_write hin hu)
  · exact h.access_seen hin

/-- `++count` writes. -/
theorem write (h : Counted num s) {i : ℕ} (ht : s.threads t = ⟨.write, i⟩)
    (hs : s.go t (.write t () (s.sys.reg t + 1)) (fun _ => ⟨.unlock, i⟩) = some s') :
    Counted num s' := by
  obtain ⟨l, hl, rfl⟩ := Option.map_eq_some_iff.mp hs
  have hexcl := h.excl.step hl
  obtain ⟨hin, rfl⟩ := h.excl.write_eq_some hl
  have hbound := h.bound t
  rw [ht] at hbound
  have hreg : s.sys.reg t = s.sys.mem.cells () := h.reg t (by rw [ht])
  refine h.next hexcl (fun u _ => rfl) hin ?_ (fun hw => by cases hw) ?_ hbound ?_
  -- The register holds the value of `count` from before, which nobody else has changed.
  · dsimp only
    rw [Function.update_self, hreg, ht]
    dsimp only [Thread.incs]
    rw [if_neg (by decide), if_pos rfl]
    omega
  · exact fun u hu hw => absurd hw (h.ne_write hin hu)
  · exact h.access_seen hin

/-- `spinlock_unlock`. -/
theorem unlock (h : Counted num s) {i k : ℕ} (ht : s.threads t = ⟨.unlock, i⟩)
    (hs : s.go t (.unlock t k) (fun _ => ⟨.test, i + 1⟩) = some s') : Counted num s' := by
  obtain ⟨l, hl, rfl⟩ := Option.map_eq_some_iff.mp hs
  have hexcl := h.excl.step hl
  have hbound := h.bound t
  rw [ht] at hbound
  obtain ⟨M, w, rfl, hcells, haccs, hgrow⟩ := SpinLock.unlock_eq_some hl
  refine h.next hexcl (fun u hu => Function.update_of_ne hu _ _) ?_ ?_ (fun hw => by cases hw) ?_
    hbound ?_
  · exact Function.update_self _ _ _
  · dsimp only
    rw [hcells, ht]
    rfl
  · intro u _ hw
    dsimp only
    rw [hcells]
    exact h.reg u hw
  · dsimp only
    rw [haccs]
    exact h.seen.trans ((joined_le hgrow).2 ())

/-- Every step keeps it. -/
theorem step (h : Counted num s) {a : ι × ℕ} (hs : Locked.step num s a = some s') :
    Counted num s' := by
  obtain ⟨t, k⟩ := a
  obtain ⟨p, i, ht⟩ : ∃ p i, s.threads t = ⟨p, i⟩ := ⟨_, _, rfl⟩
  rw [Locked.step, ht] at hs
  cases p with
  | test =>
    obtain ⟨hi, hs⟩ := Option.ite_none_right_eq_some.mp hs
    exact h.test ht hi hs
  | lock => exact h.lock ht hs
  | read => exact h.read ht hs
  | write => exact h.write ht hs
  | unlock => exact h.unlock ht hs

end Counted

/-- With the spin lock the accesses to `count` are no data race, it never is beyond the sum of the
numbers, and `main` reads the sum when it has joined all threads. -/
theorem spinlock_total [Fintype ι] [DecidableEq ι] {num : ι → ℕ} {s : State ι}
    (h : Reachable num s) :
    s.sys.race = false ∧ 0 ≤ s.sys.mem.cells () ∧ s.sys.mem.cells () ≤ (∑ t, num t : ℕ) ∧
      ((∀ t, (s.threads t).phase = .test ∧ ¬ (s.threads t).i < num t) →
        ∃ r, s.sys.mem.read (View.joined s.sys.view) () = some r ∧ r.1 = (∑ t, num t : ℕ)) := by
  have hc : Counted num s :=
    Lib.Reaches.invariant Counted.init (fun _ _ _ h _ hstep => h.step hstep) h
  have hcount := hc.count
  have hle := hc.incs_le
  refine ⟨hc.excl.race, by omega, by omega, fun hend => ?_⟩
  -- At its end each thread has passed the test as often as it has incremented `count`.
  have hsum : sumOf Thread.incs s.threads = ∑ t, num t := by
    refine Finset.sum_congr rfl fun t _ => ?_
    obtain ⟨hphase, hi⟩ := hend t
    have hbound := hc.bound t
    unfold Thread.passed at hbound
    unfold Thread.incs
    rw [hphase] at hbound ⊢
    rw [if_neg (by decide)]
    rw [if_pos rfl] at hbound
    omega
  rw [hsum] at hcount
  rw [WeakMemory.read, if_pos hc.seen]
  exact ⟨_, rfl, hcount⟩

/-- Two threads, one of which spins while the other increments. -/
theorem spinlock_total_two : ∃ s : State (Fin 2),
    (∀ t, (s.threads t).phase = .test ∧ ¬ (s.threads t).i < 1) ∧
    ∃ r, s.sys.mem.read (View.joined s.sys.view) () = some r ∧ r.1 = (∑ _t : Fin 2, 1 : ℕ) := by
  obtain ⟨s, hs, hp⟩ := Lib.exists_reaches (step fun _ => 1) (fun _ _ => true)
    (State.init : State (Fin 2))
    [(0, 0), (1, 0), (0, 0), (1, 0), (1, 0), (0, 0), (0, 0), (0, 5), (1, 0), (1, 0), (1, 0), (1, 0),
      (1, 9)]
    (fun s => decide (∀ t, (s.threads t).phase = .test ∧ ¬ (s.threads t).i < 1)) (by decide +kernel)
  have hend := of_decide_eq_true hp
  have hreach : Reachable (fun _ => 1) s := hs.mono fun _ _ _ => trivial
  obtain ⟨-, -, -, htotal⟩ := spinlock_total hreach
  exact ⟨s, hend, htotal hend⟩

end Locked

namespace Atomic

/-- A state of the program. -/
structure State (ι : Type*) where
  /-- `count`. -/
  mem : WeakMemory Unit Empty (BitVec 32)
  /-- What the threads have seen. -/
  view : ι → View Unit Empty
  /-- `i` of each thread. -/
  i : ι → ℕ

/-- The threads are started. -/
def State.init : State ι where
  mem := WeakMemory.init (fun _ => 0) Empty.elim
  view := fun _ => (fun _ => 0, fun _ => 0)
  i := fun _ => 0

section Step

variable [DecidableEq ι]

/-- A thread does `count.fetch_add(1)` in an order if `i < num`, and reads the message at the index
`k`. -/
def step (o : MemoryOrder) (num : ι → ℕ) (s : State ι) : ι × ℕ → Option (State ι)
  | (t, k) =>
    if s.i t < num t then
      (s.mem.rmw o (s.view t) () (· + 1) k).map fun r =>
        { mem := r.2.1, view := update s.view t r.2.2, i := update s.i t (s.i t + 1) }
    else none

/-- The states that the program can come to. -/
def Reachable (o : MemoryOrder) (num : ι → ℕ) (s : State ι) : Prop :=
  Lib.Reaches (step o num) (fun _ _ => True) State.init s

end Step

/-- The view of a thread that has seen so many increments. -/
def upTo (n : ℕ) : View Unit Empty := (fun _ => n, fun _ => 0)

/-- The messages of `count` are its values after no increment, one, two and so on. -/
structure Chained [Fintype ι] (num : ι → ℕ) (s : State ι) : Prop where
  /-- The value is the number of increments before. -/
  val : ∀ m ∈ s.mem.msgs (), m.val = BitVec.ofNat 32 m.time
  /-- There are no more than the increments that were made. -/
  le : ∀ m ∈ s.mem.msgs (), m.time ≤ sumOf id s.i
  /-- None is left out. -/
  all : ∀ n, n ≤ sumOf id s.i → ∃ m ∈ s.mem.msgs (), m.time = n
  /-- The last sequentially consistent one is one of them. -/
  sc : s.mem.sc () ≤ sumOf id s.i
  /-- Whoever joins the threads has seen the last. -/
  seen : sumOf id s.i ≤ (View.joined s.view).1 ()
  /-- Nobody has seen more. -/
  view : ∀ t, s.view t ≤ upTo (sumOf id s.i)
  /-- Nothing more is handed on. -/
  handed : ∀ m ∈ s.mem.msgs (), m.view ≤ upTo (sumOf id s.i)
  /-- Nobody increments it more often than that. -/
  bound : ∀ t, s.i t ≤ num t

namespace Chained

variable [Fintype ι] {o : MemoryOrder} {num : ι → ℕ} {s s' : State ι}

/-- The threads are started. -/
theorem init : Chained num (State.init : State ι) := by
  have hzero : sumOf id (fun _ : ι => 0) = 0 := Finset.sum_eq_zero fun _ _ => rfl
  constructor
  case val =>
    intro m hm
    obtain rfl := List.mem_singleton.mp hm
    rfl
  case le =>
    intro m hm
    obtain rfl := List.mem_singleton.mp hm
    exact Nat.zero_le _
  case all =>
    intro n hn
    change n ≤ sumOf id (fun _ : ι => 0) at hn
    rw [hzero] at hn
    obtain rfl := Nat.le_zero.mp hn
    exact ⟨_, List.mem_singleton_self _, rfl⟩
  case sc => exact Nat.zero_le _
  case seen =>
    change sumOf id (fun _ : ι => 0) ≤ _
    rw [hzero]
    exact Nat.zero_le _
  case view => exact fun _ => ⟨fun _ => Nat.zero_le _, fun _ => Nat.zero_le _⟩
  case handed =>
    intro m hm
    obtain rfl := List.mem_singleton.mp hm
    exact ⟨fun _ => Nat.zero_le _, fun _ => Nat.zero_le _⟩
  case bound => exact fun _ => Nat.zero_le _

/-- The last message is there. -/
theorem exists_last (h : Chained num s) :
    ∃ m ∈ s.mem.msgs (), m.time = sumOf id s.i := h.all _ le_rfl

/-- No message but the last can be exchanged. -/
theorem time_eq (h : Chained num s) {m : Message Unit Empty (BitVec 32)}
    (hm : m ∈ s.mem.msgs ()) (hnext : ∀ m' ∈ s.mem.msgs (), m'.time ≠ m.time + 1) :
    m.time = sumOf id s.i := by
  have hle := h.le m hm
  by_contra hne
  obtain ⟨m', hm', htime⟩ := h.all (m.time + 1) (by omega)
  exact hnext m' hm' htime

variable [DecidableEq ι]

/-- Every step keeps it. -/
theorem step (h : Chained num s) {a : ι × ℕ} (hs : Atomic.step o num s a = some s') :
    Chained num s' := by
  obtain ⟨t, k⟩ := a
  obtain ⟨hi, hs⟩ := Option.ite_none_right_eq_some.mp hs
  obtain ⟨⟨v, M, w⟩, hr, rfl⟩ := Option.map_eq_some_iff.mp hs
  have hsum : sumOf id (update s.i t (s.i t + 1)) = sumOf id s.i + 1 := by
    have hupdate := sumOf_update s.i id t (s.i t + 1)
    simp only [id_eq] at hupdate
    omega
  have hup : upTo (sumOf id s.i) ≤ upTo (sumOf id s.i + 1) :=
    ⟨fun _ => Nat.le_succ _, fun _ => le_rfl⟩
  obtain ⟨hw, hhanded⟩ := WeakMemory.rmw_le (x := upTo (sumOf id s.i + 1)) hr
    ((h.view t).trans hup) fun m hm => ⟨(h.handed m hm).trans hup, Nat.lt_succ_of_le (h.le m hm)⟩
  obtain ⟨m, hm, -, -, hnext, -, -, hself, m₀, htime, hval, -, -, rfl⟩ := WeakMemory.rmw_eq_some hr
  -- No message stands behind the one that is read, so that it is the last of the chain.
  have hlast := h.time_eq hm hnext
  rw [hlast] at htime hself
  have hmsgs : ∀ m', m' ∈ (s.mem.push o () m₀).msgs () ↔ m' = m₀ ∨ m' ∈ s.mem.msgs () := by
    intro m'
    rw [WeakMemory.mem_push]
    simp only [true_and]
  constructor
  case val =>
    intro m' hm'
    rcases (hmsgs m').mp hm' with rfl | hm'
    -- The new message is one more than the last one, modulo `2 ^ 32`.
    · rw [hval, htime, h.val m hm, hlast, BitVec.ofNat_add]
      rfl
    · exact h.val m' hm'
  case le =>
    intro m' hm'
    dsimp only
    rw [hsum]
    rcases (hmsgs m').mp hm' with rfl | hm'
    · exact htime.le
    · exact (h.le m' hm').trans (Nat.le_succ _)
  case all =>
    intro n hn
    dsimp only at hn
    rw [hsum] at hn
    -- The new message is that of the new number of increments.
    rcases Nat.le_or_eq_of_le_succ hn with hn | hn
    · obtain ⟨m', hm', hn⟩ := h.all n hn
      exact ⟨m', (hmsgs m').mpr (.inr hm'), hn⟩
    · exact ⟨m₀, (hmsgs m₀).mpr (.inl rfl), htime.trans hn.symm⟩
  case sc =>
    have hsc := h.sc
    dsimp only [WeakMemory.push]
    rw [hsum]
    -- Whether the read-modify-write is sequentially consistent itself.
    split
    · rw [Function.update_self, htime]
    · omega
  case seen =>
    -- The thread has seen its own message, which is the last one now.
    have hle := (View.le_joined (update s.view t w) t).1 ()
    rw [Function.update_self] at hle
    dsimp only
    rw [hsum]
    exact hself.trans hle
  case view =>
    intro u
    dsimp only
    rw [hsum]
    by_cases hu : u = t
    · subst hu
      rwa [Function.update_self]
    · rw [Function.update_of_ne hu]
      exact (h.view u).trans hup
  case handed =>
    intro m' hm'
    dsimp only
    rw [hsum]
    exact hhanded m' hm'
  case bound =>
    intro u
    dsimp only
    by_cases hu : u = t
    · subst hu
      rw [Function.update_self]
      exact hi
    · rw [Function.update_of_ne hu]
      exact h.bound u

/-- A thread that is not at its end can go on. -/
theorem exists_step (h : Chained num s) {t : ι} (hi : s.i t < num t) :
    ∃ k, (Atomic.step o num s (t, k)).isSome = true := by
  obtain ⟨m, hm, htime⟩ := h.exists_last
  obtain ⟨k, hk⟩ := List.getElem?_of_mem hm
  have hsc := h.sc
  have hview := (h.view t).1 ()
  have hnext : ∀ m' ∈ s.mem.msgs (), m'.time ≠ m.time + 1 := by
    intro m' hm'
    have hle := h.le m' hm'
    omega
  refine ⟨k, ?_⟩
  rw [Atomic.step, if_pos hi, Option.isSome_map, WeakMemory.rmw, hk]
  dsimp only
  rw [if_pos ⟨htime ▸ hview, fun _ => htime ▸ hsc, hnext⟩]
  rfl

end Chained

/-- Whatever the orders of `fetch_add` and of the load are, the threads are at their ends when none
can go on, and `main` loads the sum of the numbers then when it has joined them. -/
theorem fetch_add_total [Fintype ι] [DecidableEq ι] {o o' : MemoryOrder} {num : ι → ℕ}
    {s : State ι} (h : Reachable o num s) (hrest : ∀ a, step o num s a = none) :
    (∀ t, s.i t = num t) ∧
      (∃ k r, s.mem.load o' (View.joined s.view) () k = some r) ∧
      ∀ k r, s.mem.load o' (View.joined s.view) () k = some r →
        r.1 = BitVec.ofNat 32 (∑ t, num t) := by
  have hc : Chained num s :=
    Lib.Reaches.invariant Chained.init (fun _ _ _ h _ hstep => h.step hstep) h
  have hend : ∀ t, s.i t = num t := by
    intro t
    refine le_antisymm (hc.bound t) (Nat.not_lt.mp fun hi => ?_)
    obtain ⟨k, hk⟩ := hc.exists_step (o := o) hi
    rw [hrest (t, k)] at hk
    cases hk
  have hsum : sumOf id s.i = ∑ t, num t := Finset.sum_congr rfl fun t _ => hend t
  have hjoined : (View.joined s.view).1 () ≤ sumOf id s.i :=
    (Finset.sup_le fun t _ => hc.view t : View.joined s.view ≤ upTo (sumOf id s.i)).1 ()
  refine ⟨hend, ?_, ?_⟩
  · obtain ⟨m, hm, htime⟩ := hc.exists_last
    obtain ⟨k, hk⟩ := List.getElem?_of_mem hm
    rw [← htime] at hjoined
    have hload := WeakMemory.load_eq_of_getElem (o := o') hk hjoined fun _ => htime ▸ hc.sc
    exact ⟨k, _, hload⟩
  · rintro k ⟨v, w⟩ hl
    obtain ⟨m, hm, hle, -, rfl, -⟩ := WeakMemory.load_eq_some hl
    -- The joined view leaves no message to read but the last one.
    have htime : m.time = sumOf id s.i := le_antisymm (hc.le m hm) (hc.seen.trans hle)
    rw [hc.val m hm, htime, hsum]

/-- Two threads that increment `count` twice and once. -/
theorem fetch_add_total_two : ∃ s : State (Fin 2),
    (∀ a, step .seq_cst (fun t => 2 - t.val) s a = none) ∧
    ∀ k r, s.mem.load .seq_cst (View.joined s.view) () k = some r → r.1 = 3 := by
  obtain ⟨s, hs, hp⟩ := Lib.exists_reaches (step .seq_cst fun t => 2 - t.val) (fun _ _ => true)
    (State.init : State (Fin 2)) [(0, 0), (1, 0), (0, 0)]
    (fun s => decide (∀ t, ¬ s.i t < 2 - t.val)) (by decide +kernel)
  have hend := of_decide_eq_true hp
  have hrest : ∀ a, step .seq_cst (fun t => 2 - t.val) s a = none := fun a => if_neg (hend a.1)
  have hreach : Reachable .seq_cst (fun t => 2 - t.val) s := hs.mono fun _ _ _ => trivial
  obtain ⟨-, -, htotal⟩ := fetch_add_total hreach hrest
  exact ⟨s, hrest, htotal⟩

end Atomic

end CPStudy.AtomicAndLock.Autoinc
