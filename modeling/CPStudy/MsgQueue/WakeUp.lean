import CPStudy.MsgQueue.Fifo

/-!
# No wake-up of the message queue is lost

A consumer sleeps on `get_cond` because there was nothing to take, a producer on `put_cond` because
the queue was full. As soon as that changes, somebody is on the way to wake the sleeper, and so it
is with `nonblock`: `Wakes` is kept by every step. `msgqueue_put` unlocks `put_mutex` before it
signals, and one signal is enough: whoever sleeps on `get_cond` holds `get_mutex`, so that there is
at most one.
-/

namespace CPStudy.MsgQueue

open Function (update)

variable {ι : Type*} {q : Config} {s s' : State ι} {a : Action ι} {t u : ι} {p p' : Pc}

namespace Pc

/-- The thread has linked a message in and has not signalled yet. -/
def hasPut : Pc → Bool
  | .putUnlock => true
  | .putSignal => true
  | _ => false

/-- The thread has set `nonblock` and has not signalled yet. -/
def willSignal : Pc → Bool
  | .nbLock => true
  | .nbSignal => true
  | _ => false

/-- The thread has set `nonblock` and has not broadcast yet. -/
def willBroadcast : Pc → Bool
  | .nbLock => true
  | .nbSignal => true
  | .nbBroadcast => true
  | _ => false

/-- A thread that goes on is awake and still has to make the notifications that it had to make. -/
def Keeps (p p' : Pc) : Prop :=
  p'.asleepGet = false ∧ p'.asleepPut = false ∧ (p.hasPut = true → p'.hasPut = true) ∧
    (p.willSignal = true → p'.willSignal = true) ∧
    (p.willBroadcast = true → p'.willBroadcast = true)

/-- The thread is on its way to wake nobody. -/
def quiet (p : Pc) : Bool := !p.hasPut && !p.willBroadcast

/-- Where a thread stands that has put a message and not signalled. -/
theorem hasPut_iff : p.hasPut = true ↔ p = .putUnlock ∨ p = .putSignal := by
  cases p <;> simp [hasPut]

/-- Where a thread stands that has set `nonblock` and not signalled. -/
theorem willSignal_iff : p.willSignal = true ↔ p = .nbLock ∨ p = .nbSignal := by
  cases p <;> simp [willSignal]

/-- Where a thread stands that has set `nonblock` and not broadcast. -/
theorem willBroadcast_iff :
    p.willBroadcast = true ↔ p = .nbLock ∨ p = .nbSignal ∨ p = .nbBroadcast := by
  cases p <;> simp [willBroadcast]

/-- Who sleeps on `get_cond` holds `get_mutex`. -/
theorem holdsGet_of_asleepGet (h : p.asleepGet = true) : p.holdsGet = true := by
  cases p <;> trivial

/-- It has the cell in front of the consumers' list. -/
theorem exists_local_head (h : p.asleepGet = true) : ∃ o, p.local_head = some o := by
  cases p with
  | swapWait o notified => exact ⟨o, rfl⟩
  | _ => cases h

/-- Who sleeps on `put_cond` does not hold `get_mutex`. -/
theorem holdsGet_of_asleepPut (h : p.asleepPut = true) : p.holdsGet = false := by
  cases p <;> trivial

/-- A thread that wakes nobody does not signal. -/
theorem willSignal_of_quiet (h : p.quiet = true) : p.willSignal = false := by
  cases p <;> trivial

end Pc

/-- A queue that is full stays full with one message more. -/
theorem Config.full_succ {n : ℕ} (h : q.full n = true) : q.full (n + 1) = true := by
  unfold Config.full at h ⊢
  split at h
  case isTrue => cases h
  case isFalse hmax =>
    rw [if_neg hmax]
    have hlt : q.msg_max - 1 < n := of_decide_eq_true h
    exact decide_eq_true (by omega)

/-- An empty queue is not full. -/
theorem Config.full_zero (q : Config) : q.full 0 = false := by
  unfold Config.full
  split
  case isTrue => rfl
  case isFalse => exact decide_eq_false (Nat.not_lt_zero _)

/-- `pthread_cond_broadcast(&queue->put_cond)` notifies the producers that wait and nobody else. -/
theorem wakeAllPut_cases (pc : ι → Pc) (t : ι) :
    (∃ msg b, pc t = .putWait msg b ∧ wakeAllPut pc t = .putWait msg true) ∨
      ((∀ msg b, pc t ≠ .putWait msg b) ∧ wakeAllPut pc t = pc t) := by
  unfold wakeAllPut
  cases pc t with
  | putWait msg b => exact .inl ⟨msg, b, rfl, rfl⟩
  | _ =>
    right
    constructor
    · intro msg b heq
      cases heq
    · rfl

/-- After a broadcast no producer sleeps. -/
theorem asleepPut_wakeAllPut (pc : ι → Pc) (t : ι) : (wakeAllPut pc t).asleepPut = false := by
  rcases wakeAllPut_cases pc t with ⟨msg, b, -, heq⟩ | ⟨hne, heq⟩
  · rw [heq]
    rfl
  · rw [heq]
    cases hpc : pc t with
    | putWait msg b => exact absurd hpc (hne msg b)
    | _ => rfl

/-- What is not true of a producer that waits is true after a broadcast where it was before. -/
theorem role_wakeAllPut {b : Pc → Bool} (hb : ∀ msg n, b (.putWait msg n) = false) (pc : ι → Pc)
    (t : ι) : b (wakeAllPut pc t) = b (pc t) := by
  rcases wakeAllPut_cases pc t with ⟨msg, n, hpc, heq⟩ | ⟨-, heq⟩
  · rw [heq, hpc, hb, hb]
  · rw [heq]

/-- Who sleeps has reason to, or somebody is on the way to wake it. -/
structure Wakes (q : Config) (s : State ι) : Prop where
  /-- There is nothing to take, or somebody has put a message and will signal. -/
  get_cnt : ∀ t, (s.pc t).asleepGet = true → s.msg_cnt ≠ 0 → ∃ u, (s.pc u).hasPut = true
  /-- The queue blocks, or somebody has set `nonblock` and will signal. -/
  get_nonblock : ∀ t, (s.pc t).asleepGet = true → s.nonblock = true →
    ∃ u, (s.pc u).willSignal = true
  /-- The queue is full. -/
  put_full : ∀ t, (s.pc t).asleepPut = true → q.full s.msg_cnt = true
  /-- The queue blocks, or somebody has set `nonblock` and will broadcast. -/
  put_nonblock : ∀ t, (s.pc t).asleepPut = true → s.nonblock = true →
    ∃ u, (s.pc u).willBroadcast = true

namespace Wakes

/-- Nobody sleeps in the new queue. -/
theorem init (mem : ℤ → ℤ) : Wakes q (State.init ι q mem) where
  get_cnt := fun t h => by cases h
  get_nonblock := fun t h => by cases h
  put_full := fun t h => by cases h
  put_nonblock := fun t h => by cases h

/-- Only the program points and the two numbers count. -/
theorem congr (h : Wakes q s) (hpc : s'.pc = s.pc) (hcnt : s'.msg_cnt = s.msg_cnt)
    (hnb : s'.nonblock = s.nonblock ∨ s'.nonblock = false) : Wakes q s' := by
  have hset : s'.nonblock = true → s.nonblock = true := by
    intro hs
    rcases hnb with heq | hfalse
    · rw [← heq, hs]
    · rw [hfalse] at hs
      cases hs
  constructor
  case get_cnt => rw [hpc, hcnt]; exact h.get_cnt
  case get_nonblock =>
    rw [hpc]
    exact fun t ht hs => h.get_nonblock t ht (hset hs)
  case put_full => rw [hpc, hcnt]; exact h.put_full
  case put_nonblock =>
    rw [hpc]
    exact fun t ht hs => h.put_nonblock t ht (hset hs)

/-- After a signal nobody sleeps on `get_cond`. -/
theorem signalled (h : Wakes q s) (hcnt : s'.msg_cnt = s.msg_cnt) (hnb : s'.nonblock = s.nonblock)
    (hnone : ∀ u, (s'.pc u).asleepGet = false)
    (hput : ∀ u, (s'.pc u).asleepPut = true → (s.pc u).asleepPut = true)
    (hb : (∃ u, (s.pc u).willBroadcast = true) → ∃ u, (s'.pc u).willBroadcast = true) :
    Wakes q s' := by
  constructor
  case get_cnt =>
    intro u hu
    rw [hnone u] at hu
    cases hu
  case get_nonblock =>
    intro u hu
    rw [hnone u] at hu
    cases hu
  case put_full =>
    rw [hcnt]
    exact fun u hu => h.put_full u (hput u hu)
  case put_nonblock =>
    rw [hnb]
    exact fun u hu hset => hb (h.put_nonblock u (hput u hu) hset)

variable [DecidableEq ι]

/-- What the points of the other threads say holds after a thread went on as well, if that thread
plays no part in it or still plays it. -/
theorem exists_update {b : Pc → Bool} {f : ι → Pc} (h : ∃ u, b (f u) = true)
    (hrole : b (f t) = true → b p' = true) : ∃ u, b (update f t p' u) = true := by
  obtain ⟨u, hu⟩ := h
  by_cases hut : u = t
  · refine ⟨t, ?_⟩
    rw [Function.update_self]
    rw [hut] at hu
    exact hrole hu
  · refine ⟨u, ?_⟩
    rwa [Function.update_of_ne hut]

/-- A thread that is awake after its step is not the one that sleeps. -/
theorem of_update {b : Pc → Bool} {f : ι → Pc} (hp : b p' = false)
    (hu : b (update f t p' u) = true) : b (f u) = true := by
  by_cases hut : u = t
  · rw [hut, Function.update_self, hp] at hu
    cases hu
  · rwa [Function.update_of_ne hut] at hu

/-- A thread goes on, stays awake and leaves nobody waiting for its notification. -/
theorem move (h : Wakes q s) (hpc_t : s.pc t = p) (hpc : s'.pc = update s.pc t p')
    (hcnt : s'.msg_cnt = s.msg_cnt) (hnb : s'.nonblock = s.nonblock) (hkeep : p.Keeps p') :
    Wakes q s' := by
  subst hpc_t
  obtain ⟨hget, hput, hp, hs, hb⟩ := hkeep
  constructor
  case get_cnt =>
    rw [hpc, hcnt]
    exact fun u hu hne => exists_update (h.get_cnt u (of_update hget hu) hne) hp
  case get_nonblock =>
    rw [hpc, hnb]
    exact fun u hu hset => exists_update (h.get_nonblock u (of_update hget hu) hset) hs
  case put_full =>
    rw [hpc, hcnt]
    exact fun u hu => h.put_full u (of_update hput hu)
  case put_nonblock =>
    rw [hpc, hnb]
    exact fun u hu hset => exists_update (h.put_nonblock u (of_update hput hu) hset) hb

/-- A thread that wakes nobody goes on and stays awake. -/
theorem goOn (h : Wakes q s) (hpc : s.pc t = p) (hpc' : s'.pc = update s.pc t p')
    (hcnt : s'.msg_cnt = s.msg_cnt) (hnb : s'.nonblock = s.nonblock) (hquiet : p.quiet = true)
    (hawake : p'.asleepGet = false ∧ p'.asleepPut = false) : Wakes q s' := by
  have hput : p.hasPut = false := by cases p <;> trivial
  have hsig : p.willSignal = false := Pc.willSignal_of_quiet hquiet
  have hbro : p.willBroadcast = false := by cases p <;> trivial
  refine h.move hpc hpc' hcnt hnb ⟨hawake.1, hawake.2, ?_, ?_, ?_⟩
  · rw [hput]
    exact fun hf => absurd hf Bool.false_ne_true
  · rw [hsig]
    exact fun hf => absurd hf Bool.false_ne_true
  · rw [hbro]
    exact fun hf => absurd hf Bool.false_ne_true

/-- A consumer is woken, the only one that sleeps. -/
theorem signal (h : Wakes q s) (hk : Locked s) {w : ι} {o : ℤ} (hpc : s.pc t = p)
    (hs : Signals p p') (hw : s.pc w = .swapWait o false) :
    Wakes q ((s.goto w (.swapWait o true)).goto t p') := by
  have hasleep : (s.pc w).holdsGet = true := by rw [hw]; rfl
  have hawake : p'.asleepGet = false ∧ p'.asleepPut = false := by
    cases hs <;> exact ⟨rfl, rfl⟩
  have hbro : p.willBroadcast = true → p'.willBroadcast = true := by cases hs <;> trivial
  refine h.signalled rfl rfl ?_ ?_ ?_
  · intro u
    -- The woken one was the only one asleep: who sleeps there has `get_mutex`.
    by_contra hu
    have hu₁ : ((s.goto w (.swapWait o true)).pc u).asleepGet = true :=
      of_update hawake.1 ((Bool.not_eq_false _).mp hu)
    have hu₂ : (s.pc u).asleepGet = true := of_update rfl hu₁
    obtain rfl : u = w := hk.get_unique (Pc.holdsGet_of_asleepGet hu₂) hasleep
    change (update s.pc u (.swapWait o true) u).asleepGet = true at hu₁
    rw [Function.update_self] at hu₁
    cases hu₁
  · exact fun u hu => of_update rfl (of_update hawake.2 hu)
  · intro hex
    -- Who signals does not sleep, so that whoever was to broadcast still is.
    have hne : t ≠ w := by
      rintro rfl
      rw [hw] at hpc
      subst hpc
      cases hs
    have hmid : ∃ u, ((s.goto w (.swapWait o true)).pc u).willBroadcast = true := by
      refine exists_update hex fun hw' => ?_
      rw [hw] at hw'
      cases hw'
    refine exists_update hmid fun ht => ?_
    change (update s.pc w (.swapWait o true) t).willBroadcast = true at ht
    rw [Function.update_of_ne hne, hpc] at ht
    exact hbro ht

/-- Nobody sleeps on `get_cond` to be woken. -/
theorem lost (h : Wakes q s) (hpc : s.pc t = p) (hs : Signals p p')
    (hw : ∀ w, (s.pc w).asleepGet = false) : Wakes q (s.goto t p') := by
  have hawake : p'.asleepGet = false ∧ p'.asleepPut = false := by
    cases hs <;> exact ⟨rfl, rfl⟩
  refine h.signalled rfl rfl ?_ (fun u hu => of_update hawake.2 hu) ?_
  · intro u
    by_contra hu
    have hu' := of_update hawake.1 ((Bool.not_eq_false _).mp hu)
    rw [hw u] at hu'
    cases hu'
  · intro hex
    refine exists_update hex fun ht => ?_
    rw [hpc] at ht
    cases hs <;> trivial

/-- A producer falls asleep. -/
theorem sleepPut (h : Wakes q s) {msg : ℤ} (hpc : s.pc t = .putCheck msg)
    (hfull : q.full s.msg_cnt = true) (hnb : s.nonblock = false) :
    Wakes q ({ s with put_mutex := none }.goto t (.putWait msg false)) := by
  constructor
  case get_cnt =>
    intro u hu hne
    refine exists_update (h.get_cnt u (of_update rfl hu) hne) fun ht => ?_
    rw [hpc] at ht
    cases ht
  case get_nonblock => exact fun _ _ hset => absurd (hnb.symm.trans hset) Bool.false_ne_true
  case put_full => exact fun _ _ => hfull
  case put_nonblock => exact fun _ _ hset => absurd (hnb.symm.trans hset) Bool.false_ne_true

/-- A consumer falls asleep. -/
theorem sleepGet (h : Wakes q s) {o : ℤ} (hcnt : s.msg_cnt = 0) (hnb : s.nonblock = false) :
    Wakes q ({ s with put_mutex := none }.goto t (.swapWait o false)) where
  get_cnt := fun _ _ hne => absurd hcnt hne
  get_nonblock := fun _ _ hset => absurd (hnb.symm.trans hset) Bool.false_ne_true
  put_full := fun u hu => h.put_full u (of_update rfl hu)
  put_nonblock := fun _ _ hset => absurd (hnb.symm.trans hset) Bool.false_ne_true

/-- A message is linked in, and its producer will signal. -/
theorem link (h : Wakes q s) {msg : ℤ} (hpc : s.pc t = .putLink msg) :
    Wakes q ({ s with
      mem := update s.mem s.put_tail (q.link msg)
      put_tail := q.link msg
      msg_cnt := s.msg_cnt + 1
      puts := s.puts ++ [msg] }.goto t .putUnlock) := by
  have hrole : ∀ b : Pc → Bool, b (.putLink msg) = false → b (s.pc t) = true →
      b .putUnlock = true := by
    intro b hb ht
    rw [hpc, hb] at ht
    cases ht
  constructor
  case get_cnt =>
    intro u hu hne
    refine ⟨t, ?_⟩
    change (update s.pc t .putUnlock t).hasPut = true
    rw [Function.update_self]
    rfl
  case get_nonblock =>
    exact fun u hu hset => exists_update (h.get_nonblock u (of_update rfl hu) hset) (hrole _ rfl)
  case put_full => exact fun u hu => Config.full_succ (h.put_full u (of_update rfl hu))
  case put_nonblock =>
    exact fun u hu hset => exists_update (h.put_nonblock u (of_update rfl hu) hset) (hrole _ rfl)

/-- `nonblock` is set by a thread that will signal and broadcast. -/
theorem setNonblock (h : Wakes q s) (hpc : s.pc t = .idle) :
    Wakes q ({ s with nonblock := true }.goto t .nbLock) := by
  have hself : ∀ b : Pc → Bool, b .nbLock = true → ∃ u, b (update s.pc t .nbLock u) = true := by
    intro b hb
    refine ⟨t, ?_⟩
    rwa [Function.update_self]
  constructor
  case get_cnt =>
    intro u hu hne
    refine exists_update (h.get_cnt u (of_update rfl hu) hne) fun ht => ?_
    rw [hpc] at ht
    cases ht
  case get_nonblock => exact fun _ _ _ => hself _ rfl
  case put_full => exact fun u hu => h.put_full u (of_update rfl hu)
  case put_nonblock => exact fun _ _ _ => hself _ rfl

/-- The lists are swapped: no other consumer sleeps, and no producer where the queue was full. -/
theorem swapLists (h : Wakes q s) (hk : Locked s) {o : ℤ} (hpc : s.pc t = .swapLists o) :
    Wakes q ({ s with
      pc := if q.full s.msg_cnt then wakeAllPut s.pc else s.pc
      put_head := o
      put_tail := o
      msg_cnt := 0 }.goto t (.swapUnlock s.msg_cnt)) := by
  -- The consumer that swaps has `get_mutex`, so no other one can sleep.
  have hget : ∀ u, (update (if q.full s.msg_cnt then wakeAllPut s.pc else s.pc) t
      (.swapUnlock s.msg_cnt) u).asleepGet = false := by
    intro u
    by_cases hut : u = t
    · rw [hut, Function.update_self]
      rfl
    · rw [Function.update_of_ne hut]
      have hawake : (s.pc u).asleepGet = false := by
        by_contra hu
        have hholds := Pc.holdsGet_of_asleepGet ((Bool.not_eq_false _).mp hu)
        exact hut (hk.get_unique hholds (by rw [hpc]; rfl))
      split
      case isTrue => rwa [role_wakeAllPut (b := Pc.asleepGet) (fun _ _ => rfl)]
      case isFalse => exact hawake
  -- A producer sleeps only while the queue is full, and then all of them are woken.
  have hput : ∀ u, (update (if q.full s.msg_cnt then wakeAllPut s.pc else s.pc) t
      (.swapUnlock s.msg_cnt) u).asleepPut = false := by
    intro u
    by_cases hut : u = t
    · rw [hut, Function.update_self]
      rfl
    · rw [Function.update_of_ne hut]
      split
      case isTrue => exact asleepPut_wakeAllPut s.pc u
      case isFalse hroom =>
        by_contra hu
        exact hroom (h.put_full u ((Bool.not_eq_false _).mp hu))
  constructor
  case get_cnt => exact fun u hu => absurd ((hget u).symm.trans hu) Bool.false_ne_true
  case get_nonblock => exact fun u hu => absurd ((hget u).symm.trans hu) Bool.false_ne_true
  case put_full => exact fun u hu => absurd ((hput u).symm.trans hu) Bool.false_ne_true
  case put_nonblock => exact fun u hu => absurd ((hput u).symm.trans hu) Bool.false_ne_true

/-- Everybody who sleeps on `put_cond` is woken. -/
theorem broadcast (h : Wakes q s) (hpc : s.pc t = .nbBroadcast) :
    Wakes q ({ s with pc := wakeAllPut s.pc }.goto t .nbUnlock) := by
  have hasleep : ∀ u, (update (wakeAllPut s.pc) t .nbUnlock u).asleepGet = true →
      (s.pc u).asleepGet = true := by
    intro u hu
    have hu' := of_update (b := Pc.asleepGet) rfl hu
    rwa [role_wakeAllPut (b := Pc.asleepGet) (fun _ _ => rfl)] at hu'
  have hput : ∀ u, (update (wakeAllPut s.pc) t .nbUnlock u).asleepPut = false := by
    intro u
    by_contra hu
    have hu' := of_update (b := Pc.asleepPut) rfl ((Bool.not_eq_false _).mp hu)
    rw [asleepPut_wakeAllPut] at hu'
    cases hu'
  -- The roles of the others are what they were.
  have hrole : ∀ b : Pc → Bool, (∀ msg n, b (.putWait msg n) = false) → b .nbBroadcast = false →
      (∃ u, b (s.pc u) = true) → ∃ u, b (update (wakeAllPut s.pc) t .nbUnlock u) = true := by
    intro b hwait hb hex
    have hmid : ∃ u, b (wakeAllPut s.pc u) = true := by
      obtain ⟨u, hu⟩ := hex
      exact ⟨u, by rw [role_wakeAllPut hwait, hu]⟩
    refine exists_update hmid fun ht => ?_
    rw [role_wakeAllPut hwait, hpc, hb] at ht
    cases ht
  constructor
  case get_cnt =>
    exact fun u hu hne => hrole _ (fun _ _ => rfl) rfl (h.get_cnt u (hasleep u hu) hne)
  case get_nonblock =>
    exact fun u hu hset => hrole _ (fun _ _ => rfl) rfl (h.get_nonblock u (hasleep u hu) hset)
  case put_full => exact fun u hu => absurd ((hput u).symm.trans hu) Bool.false_ne_true
  case put_nonblock => exact fun u hu => absurd ((hput u).symm.trans hu) Bool.false_ne_true

/-- `put_mutex` is locked. -/
theorem lock (h : Wakes q s) (hpc : s.pc t = p) (hl : Locks p p') :
    Wakes q ({ s with put_mutex := some t }.goto t p') := by
  refine h.move hpc rfl rfl rfl ?_
  cases hl <;> refine ⟨rfl, rfl, ?_, ?_, ?_⟩ <;> intro hrole <;> trivial

/-- `put_mutex` is unlocked. -/
theorem unlock (h : Wakes q s) (hpc : s.pc t = p) (hl : Unlocks p p') :
    Wakes q ({ s with put_mutex := none }.goto t p') := by
  refine h.move hpc rfl rfl rfl ?_
  cases hl <;> refine ⟨rfl, rfl, ?_, ?_, ?_⟩ <;> intro hrole <;> trivial

/-- Every step leaves somebody on the way to wake who has no reason to sleep. -/
theorem step (h : Wakes q s) (hk : Locked s) (he : Effect q s a s') : Wakes q s' := by
  cases he with
  | put hpc => exact h.goOn hpc rfl rfl rfl rfl ⟨rfl, rfl⟩
  | get hpc => exact h.goOn hpc rfl rfl rfl rfl ⟨rfl, rfl⟩
  | setNonblock hpc => exact h.setNonblock hpc
  | setBlock => exact h.congr rfl rfl (.inr rfl)
  | init hpc => exact h.goOn hpc rfl rfl rfl rfl ⟨rfl, rfl⟩
  | lock hpc hl => exact h.lock hpc hl
  | unlock hpc hl => exact h.unlock hpc hl
  | sleepPut hpc hfull hnb => exact h.sleepPut hpc hfull hnb
  | passPut hpc => exact h.goOn hpc rfl rfl rfl rfl ⟨rfl, rfl⟩
  | link hpc => exact h.link hpc
  | signal hpc hs hw => exact h.signal hk hpc hs hw
  | lost hpc hs hw => exact h.lost hpc hs hw
  | lockGet hpc => exact h.goOn hpc rfl rfl rfl rfl ⟨rfl, rfl⟩
  | found hpc => exact h.goOn hpc rfl rfl rfl rfl ⟨rfl, rfl⟩
  | notFound hpc => exact h.goOn hpc rfl rfl rfl rfl ⟨rfl, rfl⟩
  | swapHead hpc => exact h.goOn hpc rfl rfl rfl rfl ⟨rfl, rfl⟩
  | sleepGet hpc hcnt hnb => exact h.sleepGet hcnt hnb
  | passGet hpc => exact h.goOn hpc rfl rfl rfl rfl ⟨rfl, rfl⟩
  | swapLists hpc => exact h.swapLists hk hpc
  | readMsg hpc => exact h.goOn hpc rfl rfl rfl rfl ⟨rfl, rfl⟩
  | readNext hpc => exact h.goOn hpc rfl rfl rfl rfl ⟨rfl, rfl⟩
  | take hpc => exact h.goOn hpc rfl rfl rfl rfl ⟨rfl, rfl⟩
  | unlockGet hpc => exact h.goOn hpc rfl rfl rfl rfl ⟨rfl, rfl⟩
  | broadcast hpc => exact h.broadcast hpc
  | spuriousPut hpc => exact h.goOn hpc rfl rfl rfl rfl ⟨rfl, rfl⟩
  | spuriousGet hpc => exact h.goOn hpc rfl rfl rfl rfl ⟨rfl, rfl⟩
  | write => exact h.congr rfl rfl (.inl rfl)

end Wakes

variable [DecidableEq ι] [Fintype ι]

/-- Whoever sleeps has reason to in every state that the queue can come to. -/
theorem wakes_of_reachable (h : Reachable q s) : Wakes q s := by
  have hq := h
  obtain ⟨hne, h1, h2, mem, hrun⟩ := hq
  refine Lib.Reaches.invariant_of (J := Locked) (I := Wakes q) ?_ (Wakes.init mem) ?_ hrun
  · exact fun s hs => locked_of_reachable ⟨hne, h1, h2, mem, hs⟩
  · exact fun s a s' hk hs hok hstep => hs.step hk (effect_of_step hok hstep)

/-- No wake-up is lost. A consumer that sleeps while there is a message in the producers' list, or
while `nonblock` is set, will be woken by a thread that has not made its signal yet, and no other
consumer sleeps; a producer sleeps only while the queue is full, and where `nonblock` is set it
will be woken. -/
theorem sleepers_woken (h : Reachable q s) :
    (∀ t, (s.pc t).asleepGet = true →
      (s.msg_cnt ≠ 0 → ∃ u, s.pc u = .putUnlock ∨ s.pc u = .putSignal) ∧
        (s.nonblock = true → ∃ u, s.pc u = .nbLock ∨ s.pc u = .nbSignal) ∧
        ∀ u, (s.pc u).asleepGet = true → u = t) ∧
      ∀ t, (s.pc t).asleepPut = true → q.full s.msg_cnt = true ∧
        (s.nonblock = true →
          ∃ u, s.pc u = .nbLock ∨ s.pc u = .nbSignal ∨ s.pc u = .nbBroadcast) := by
  have hw := wakes_of_reachable h
  have hk := locked_of_reachable h
  constructor
  · intro t ht
    refine ⟨fun hne => ?_, fun hset => ?_, fun u hu => ?_⟩
    · obtain ⟨u, hu⟩ := hw.get_cnt t ht hne
      exact ⟨u, Pc.hasPut_iff.mp hu⟩
    · obtain ⟨u, hu⟩ := hw.get_nonblock t ht hset
      exact ⟨u, Pc.willSignal_iff.mp hu⟩
    · exact hk.get_unique (Pc.holdsGet_of_asleepGet hu) (Pc.holdsGet_of_asleepGet ht)
  · intro t ht
    refine ⟨hw.put_full t ht, fun hset => ?_⟩
    obtain ⟨u, hu⟩ := hw.put_nonblock t ht hset
    exact ⟨u, Pc.willBroadcast_iff.mp hu⟩

/-- A consumer sleeps, and a producer that has put a message is about to wake it. -/
theorem sleepers_woken_asleep : ∃ s : State (Fin 2), (s.pc 1).asleepGet = true ∧ s.msg_cnt ≠ 0 ∧
    ∃ u, s.pc u = .putUnlock ∨ s.pc u = .putSignal := by
  obtain ⟨s, hs, hp⟩ := exists_reachable (ι := Fin 2) (q := ⟨16, 24, 8, 1⟩) (fun _ => 0)
    (by decide)
    (.get 1 :: List.replicate 5 (.run 1 none) ++ .put 0 100 :: List.replicate 5 (.run 0 none))
    (fun s => decide ((s.pc 1).asleepGet = true ∧ s.msg_cnt ≠ 0)) (by decide +kernel)
  obtain ⟨hasleep, hcnt⟩ := of_decide_eq_true hp
  exact ⟨s, hasleep, hcnt, ((sleepers_woken hs).1 1 hasleep).1 hcnt⟩

end CPStudy.MsgQueue
