import CPStudy.MsgQueue.Model

/-!
# The steps of the message queue

`Effect` lists what a step can do, with what the code has tested before it. A notification changes a
thread that waits and nothing that it has or holds: `State.spot` forgets it, and what is said of the
lists and of the mutexes is said through it.
-/

namespace CPStudy.MsgQueue

open Function (update)

variable {ι : Type*} [DecidableEq ι] [Fintype ι] {q : Config} {s s' : State ι} {a : Action ι}
  {t u : ι} {p p' : Pc}

namespace Pc

/-- The point without the notification. -/
def forget : Pc → Pc
  | .putWait msg _ => .putWait msg false
  | .swapWait get_head _ => .swapWait get_head false
  | p => p

/-- The thread holds `get_mutex`. -/
def holdsGet : Pc → Bool
  | .getTest => true
  | .swapHead => true
  | .swapLock _ => true
  | .swapCheck _ => true
  | .swapWait _ _ => true
  | .swapLists _ => true
  | .swapUnlock _ => true
  | .getMsg => true
  | .getNext _ => true
  | .getStore _ _ => true
  | .getUnlock _ => true
  | _ => false

/-- The thread holds `put_mutex`. -/
def holdsPut : Pc → Bool
  | .putCheck _ => true
  | .putLink _ => true
  | .putUnlock => true
  | .swapCheck _ => true
  | .swapLists _ => true
  | .swapUnlock _ => true
  | .nbSignal => true
  | .nbBroadcast => true
  | .nbUnlock => true
  | _ => false

/-- The local `get_head` of `__msgqueue_swap`, from `queue->get_head = queue->put_head` until the
lists are swapped. -/
def local_head : Pc → Option ℤ
  | .swapLock get_head => some get_head
  | .swapCheck get_head => some get_head
  | .swapWait get_head _ => some get_head
  | .swapLists get_head => some get_head
  | _ => none

/-- The message that the thread has to put and whose link is already `NULL`. -/
def ready : Pc → Option ℤ
  | .putLock msg => some msg
  | .putCheck msg => some msg
  | .putWait msg _ => some msg
  | .putLink msg => some msg
  | _ => none

/-- A notification changes nothing about `get_mutex`. -/
@[simp]
theorem holdsGet_forget (p : Pc) : p.forget.holdsGet = p.holdsGet := by cases p <;> rfl

/-- It changes nothing about `put_mutex`. -/
@[simp]
theorem holdsPut_forget (p : Pc) : p.forget.holdsPut = p.holdsPut := by cases p <;> rfl

/-- A producer that was notified has the message that it had. -/
@[simp]
theorem putting_forget (p : Pc) : p.forget.putting = p.putting := by cases p <;> rfl

/-- Its link is `NULL` if it was. -/
@[simp]
theorem ready_forget (p : Pc) : p.forget.ready = p.ready := by cases p <;> rfl

/-- A consumer that was notified has the cell that it had. -/
@[simp]
theorem local_head_forget (p : Pc) : p.forget.local_head = p.local_head := by cases p <;> rfl

/-- What has its link at `NULL` is to be put. -/
theorem putting_of_ready {msg : ℤ} (h : p.ready = some msg) : p.putting = some msg := by
  cases p <;> first | exact h | cases h

/-- A thread that does not hold `get_mutex` does not swap the lists. -/
theorem local_head_of_not_holdsGet (h : p.holdsGet = false) : p.local_head = none := by
  cases p <;> trivial

end Pc

omit [DecidableEq ι] [Fintype ι] in
/-- Where the threads stand, without the notifications. -/
def State.spot (s : State ι) (t : ι) : Pc := (s.pc t).forget

/-- The points before and after `put_mutex` is locked. -/
inductive Locks : Pc → Pc → Prop
  /-- In `msgqueue_put`. -/
  | put (msg : ℤ) : Locks (.putLock msg) (.putCheck msg)
  /-- After the wait of `msgqueue_put`. -/
  | putWake (msg : ℤ) : Locks (.putWait msg true) (.putCheck msg)
  /-- In `__msgqueue_swap`. -/
  | swap (get_head : ℤ) : Locks (.swapLock get_head) (.swapCheck get_head)
  /-- After the wait of `__msgqueue_swap`. -/
  | swapWake (get_head : ℤ) : Locks (.swapWait get_head true) (.swapCheck get_head)
  /-- In `msgqueue_set_nonblock`. -/
  | nb : Locks .nbLock .nbSignal

/-- The points before and after `put_mutex` is unlocked. -/
inductive Unlocks : Pc → Pc → Prop
  /-- In `msgqueue_put`. -/
  | put : Unlocks .putUnlock .putSignal
  /-- In `__msgqueue_swap`, with something to take. -/
  | swap {cnt : ℕ} (h : 0 < cnt) : Unlocks (.swapUnlock cnt) .getMsg
  /-- In `__msgqueue_swap`, with nothing to take. -/
  | swapNull : Unlocks (.swapUnlock 0) (.getUnlock none)
  /-- In `msgqueue_set_nonblock`. -/
  | nb : Unlocks .nbUnlock .idle

/-- The points before and after `get_cond` is signalled. -/
inductive Signals : Pc → Pc → Prop
  /-- In `msgqueue_put`. -/
  | put : Signals .putSignal .idle
  /-- In `msgqueue_set_nonblock`. -/
  | nb : Signals .nbSignal .nbBroadcast

/-- Locking `put_mutex` leaves `get_mutex` alone. -/
theorem Locks.holdsGet (h : Locks p p') : p'.holdsGet = p.holdsGet := by cases h <;> rfl

/-- The mutex is held afterwards. -/
theorem Locks.holdsPut (h : Locks p p') : p'.holdsPut = true := by cases h <;> rfl

/-- What the thread has to put is linked in under the mutex. -/
theorem Locks.putting (h : Locks p p') : p'.putting = p.ready := by cases h <;> rfl

/-- The cell of a consumer that swaps the lists is the same. -/
theorem Locks.local_head (h : Locks p p') : p'.local_head = p.local_head := by cases h <;> rfl

/-- Unlocking `put_mutex` leaves `get_mutex` alone. -/
theorem Unlocks.holdsGet (h : Unlocks p p') : p'.holdsGet = p.holdsGet := by cases h <;> rfl

/-- The mutex is held before and not afterwards. -/
theorem Unlocks.holdsPut (h : Unlocks p p') : p.holdsPut = true ∧ p'.holdsPut = false := by
  cases h <;> exact ⟨rfl, rfl⟩

/-- Nobody unlocks the mutex before its message is linked in and the lists are swapped. -/
theorem Unlocks.done (h : Unlocks p p') :
    p'.putting = none ∧ p.local_head = none ∧ p'.local_head = none := by
  cases h <;> exact ⟨rfl, rfl, rfl⟩

/-- Nobody signals before. -/
theorem Signals.done (h : Signals p p') :
    p'.putting = none ∧ p.local_head = none ∧ p'.local_head = none := by
  cases h <;> exact ⟨rfl, rfl, rfl⟩

/-- A signal leaves the mutexes alone. -/
theorem Signals.holds (h : Signals p p') :
    p'.holdsGet = p.holdsGet ∧ p'.holdsPut = p.holdsPut := by
  cases h <;> exact ⟨rfl, rfl⟩

/-- What a step does. -/
inductive Effect (q : Config) (s : State ι) : Action ι → State ι → Prop
  /-- `msgqueue_put` is called. -/
  | put {t : ι} {msg : ℤ} (hpc : s.pc t = .idle) (hlink : q.link msg ≠ 0)
      (hfree : ¬ s.Owned q (q.link msg)) : Effect q s (.put t msg) (s.goto t (.putInit msg))
  /-- `msgqueue_get` is called. -/
  | get {t : ι} (hpc : s.pc t = .idle) : Effect q s (.get t) (s.goto t .getLock)
  /-- `nonblock` is set. -/
  | setNonblock {t : ι} (hpc : s.pc t = .idle) :
      Effect q s (.setNonblock t) ({ s with nonblock := true }.goto t .nbLock)
  /-- `nonblock` is cleared. -/
  | setBlock {t : ι} (hpc : s.pc t = .idle) : Effect q s (.setBlock t) { s with nonblock := false }
  /-- The link of a message is initialised. -/
  | init {t : ι} {w : Option ι} {msg : ℤ} (hpc : s.pc t = .putInit msg) :
      Effect q s (.run t w) ({ s with mem := update s.mem (q.link msg) 0 }.goto t (.putLock msg))
  /-- `put_mutex` is locked. -/
  | lock {t : ι} {w : Option ι} {p p' : Pc} (hpc : s.pc t = p) (hl : Locks p p')
      (hfree : s.put_mutex = none) :
      Effect q s (.run t w) ({ s with put_mutex := some t }.goto t p')
  /-- `put_mutex` is unlocked. -/
  | unlock {t : ι} {w : Option ι} {p p' : Pc} (hpc : s.pc t = p) (hl : Unlocks p p') :
      Effect q s (.run t w) ({ s with put_mutex := none }.goto t p')
  /-- A producer finds the queue full and falls asleep. -/
  | sleepPut {t : ι} {w : Option ι} {msg : ℤ} (hpc : s.pc t = .putCheck msg)
      (hfull : q.full s.msg_cnt = true) (hnb : s.nonblock = false) :
      Effect q s (.run t w) ({ s with put_mutex := none }.goto t (.putWait msg false))
  /-- A producer may put its message. -/
  | passPut {t : ι} {w : Option ι} {msg : ℤ} (hpc : s.pc t = .putCheck msg)
      (hroom : q.full s.msg_cnt = false ∨ s.nonblock = true) :
      Effect q s (.run t w) (s.goto t (.putLink msg))
  /-- A message is linked in. -/
  | link {t : ι} {w : Option ι} {msg : ℤ} (hpc : s.pc t = .putLink msg) :
      Effect q s (.run t w) ({ s with
        mem := update s.mem s.put_tail (q.link msg)
        put_tail := q.link msg
        msg_cnt := s.msg_cnt + 1
        puts := s.puts ++ [msg] }.goto t .putUnlock)
  /-- `get_cond` is signalled, and a consumer is woken. -/
  | signal {t w : ι} {p p' : Pc} {get_head : ℤ} (hpc : s.pc t = p) (hs : Signals p p')
      (hw : s.pc w = .swapWait get_head false) :
      Effect q s (.run t (some w)) ((s.goto w (.swapWait get_head true)).goto t p')
  /-- `get_cond` is signalled, and nobody waits. -/
  | lost {t : ι} {p p' : Pc} (hpc : s.pc t = p) (hs : Signals p p')
      (hw : ∀ w, (s.pc w).asleepGet = false) : Effect q s (.run t none) (s.goto t p')
  /-- `get_mutex` is locked. -/
  | lockGet {t : ι} {w : Option ι} (hpc : s.pc t = .getLock) (hfree : s.get_mutex = none) :
      Effect q s (.run t w) ({ s with get_mutex := some t }.goto t .getTest)
  /-- There is a message in the list of the consumers. -/
  | found {t : ι} {w : Option ι} (hpc : s.pc t = .getTest) (hne : s.mem s.get_head ≠ 0) :
      Effect q s (.run t w) (s.goto t .getMsg)
  /-- There is none. -/
  | notFound {t : ι} {w : Option ι} (hpc : s.pc t = .getTest) (hnull : s.mem s.get_head = 0) :
      Effect q s (.run t w) (s.goto t .swapHead)
  /-- The consumers' list becomes that of the producers. -/
  | swapHead {t : ι} {w : Option ι} (hpc : s.pc t = .swapHead) :
      Effect q s (.run t w) ({ s with get_head := s.put_head }.goto t (.swapLock s.get_head))
  /-- A consumer finds no message and falls asleep. -/
  | sleepGet {t : ι} {w : Option ι} {get_head : ℤ} (hpc : s.pc t = .swapCheck get_head)
      (hcnt : s.msg_cnt = 0) (hnb : s.nonblock = false) :
      Effect q s (.run t w) ({ s with put_mutex := none }.goto t (.swapWait get_head false))
  /-- A consumer may swap the lists. -/
  | passGet {t : ι} {w : Option ι} {get_head : ℤ} (hpc : s.pc t = .swapCheck get_head)
      (hcnt : s.msg_cnt ≠ 0 ∨ s.nonblock = true) :
      Effect q s (.run t w) (s.goto t (.swapLists get_head))
  /-- The lists are swapped, and where the queue was full the producers are woken. -/
  | swapLists {t : ι} {w : Option ι} {get_head : ℤ} (hpc : s.pc t = .swapLists get_head) :
      Effect q s (.run t w) ({ s with
        pc := if q.full s.msg_cnt then wakeAllPut s.pc else s.pc
        put_head := get_head
        put_tail := get_head
        msg_cnt := 0 }.goto t (.swapUnlock s.msg_cnt))
  /-- A message is read off the head of the list. -/
  | readMsg {t : ι} {w : Option ι} (hpc : s.pc t = .getMsg) :
      Effect q s (.run t w) (s.goto t (.getNext (s.mem s.get_head - q.linkoff)))
  /-- Its link is read. -/
  | readNext {t : ι} {w : Option ι} {msg : ℤ} (hpc : s.pc t = .getNext msg) :
      Effect q s (.run t w) (s.goto t (.getStore msg (s.mem (s.mem s.get_head))))
  /-- It is taken out of the list. -/
  | take {t : ι} {w : Option ι} {msg next : ℤ} (hpc : s.pc t = .getStore msg next) :
      Effect q s (.run t w) ({ s with
        mem := update s.mem s.get_head next
        gets := s.gets ++ [msg] }.goto t (.getUnlock (some msg)))
  /-- `get_mutex` is unlocked. -/
  | unlockGet {t : ι} {w : Option ι} {msg : Option ℤ} (hpc : s.pc t = .getUnlock msg) :
      Effect q s (.run t w) ({ s with get_mutex := none }.goto t .idle)
  /-- `put_cond` is broadcast. -/
  | broadcast {t : ι} {w : Option ι} (hpc : s.pc t = .nbBroadcast) :
      Effect q s (.run t w) ({ s with pc := wakeAllPut s.pc }.goto t .nbUnlock)
  /-- A producer wakes up although nobody notified it. -/
  | spuriousPut {t : ι} {msg : ℤ} {b : Bool} (hpc : s.pc t = .putWait msg b) :
      Effect q s (.spurious t) (s.goto t (.putWait msg true))
  /-- A consumer wakes up although nobody notified it. -/
  | spuriousGet {t : ι} {get_head : ℤ} {b : Bool} (hpc : s.pc t = .swapWait get_head b) :
      Effect q s (.spurious t) (s.goto t (.swapWait get_head true))
  /-- The owner of some memory writes to it. -/
  | write {a v : ℤ} (hfree : ¬ s.Owned q a) :
      Effect q s (.write a v) { s with mem := update s.mem a v }

omit [Fintype ι] in
/-- Locking `put_mutex`. -/
theorem effect_lockPut {w : Option ι} (hpc : s.pc t = p) (hl : Locks p p')
    (h : lockPut s t p' = some s') : Effect q s (.run t w) s' := by
  unfold lockPut at h
  split at h
  case h_1 hfree =>
    cases h
    exact .lock hpc hl hfree
  case h_2 => cases h

/-- Signalling `get_cond`. -/
theorem effect_signalGet (hpc : s.pc t = p) (hs : Signals p p') {w : Option ι}
    (h : (signalGet s w).map (fun s => s.goto t p') = some s') : Effect q s (.run t w) s' := by
  obtain ⟨s₁, h₁, rfl⟩ := Option.map_eq_some_iff.mp h
  -- With no thread named the signal is lost, which it may be only where nobody sleeps.
  cases w with
  | some w =>
    dsimp only [signalGet] at h₁
    split at h₁
    case h_1 get_head hw =>
      obtain rfl := Option.some.inj h₁
      exact .signal hpc hs hw
    case h_2 => cases h₁
  | none =>
    obtain ⟨hw, h₁⟩ := Option.ite_none_right_eq_some.mp h₁
    obtain rfl := Option.some.inj h₁
    exact .lost hpc hs hw

/-- The next step of a call. -/
theorem effect_runCall {w : Option ι} (h : runCall q s t w = some s') :
    Effect q s (.run t w) s' := by
  unfold runCall at h
  cases hpc : s.pc t with
  | idle => rw [hpc] at h; cases h
  | putInit msg => rw [hpc] at h; cases h; exact .init hpc
  | putLock msg => rw [hpc] at h; exact effect_lockPut hpc (.put msg) h
  | putCheck msg =>
    rw [hpc] at h
    dsimp only at h
    -- `while (queue->msg_cnt > queue->msg_max - 1 && !queue->nonblock)`.
    split at h
    case isTrue hfull =>
      cases h
      simp only [Bool.and_eq_true, Bool.not_eq_true'] at hfull
      exact .sleepPut hpc hfull.1 hfull.2
    case isFalse hroom =>
      cases h
      refine .passPut hpc ?_
      simpa only [Bool.and_eq_true, Bool.not_eq_true', not_and_or, Bool.not_eq_true,
        Bool.not_eq_false] using hroom
  -- Only who was notified, or woke up spuriously, locks the mutex again.
  | putWait msg notified =>
    rw [hpc] at h
    obtain ⟨rfl, h⟩ := Option.ite_none_right_eq_some.mp h
    exact effect_lockPut hpc (.putWake msg) h
  | putLink msg => rw [hpc] at h; cases h; exact .link hpc
  | putUnlock => rw [hpc] at h; cases h; exact .unlock hpc .put
  | putSignal => rw [hpc] at h; exact effect_signalGet hpc .put h
  | getLock =>
    rw [hpc] at h
    dsimp only at h
    split at h
    case h_1 hfree =>
      cases h
      exact .lockGet hpc hfree
    case h_2 => cases h
  | getTest =>
    rw [hpc] at h
    dsimp only at h
    split at h
    case isTrue hne =>
      cases h
      exact .found hpc hne
    case isFalse hnull =>
      cases h
      exact .notFound hpc (not_not.mp hnull)
  | swapHead => rw [hpc] at h; cases h; exact .swapHead hpc
  | swapLock get_head => rw [hpc] at h; exact effect_lockPut hpc (.swap get_head) h
  -- `while (queue->msg_cnt == 0 && !queue->nonblock)`.
  | swapCheck get_head =>
    rw [hpc] at h
    dsimp only at h
    split at h
    case isTrue hempty =>
      cases h
      simp only [Bool.and_eq_true, decide_eq_true_eq, Bool.not_eq_true'] at hempty
      exact .sleepGet hpc hempty.1 hempty.2
    case isFalse hsome =>
      cases h
      refine .passGet hpc ?_
      simpa only [Bool.and_eq_true, decide_eq_true_eq, Bool.not_eq_true', not_and_or,
        Bool.not_eq_false] using hsome
  | swapWait get_head notified =>
    rw [hpc] at h
    obtain ⟨rfl, h⟩ := Option.ite_none_right_eq_some.mp h
    exact effect_lockPut hpc (.swapWake get_head) h
  | swapLists get_head => rw [hpc] at h; cases h; exact .swapLists hpc
  -- `__msgqueue_swap` returns the count that it has read before it clears it.
  | swapUnlock cnt =>
    rw [hpc] at h
    dsimp only at h
    split at h
    case isTrue hpos =>
      cases h
      exact .unlock hpc (.swap hpos)
    case isFalse hzero =>
      cases h
      obtain rfl : cnt = 0 := Nat.eq_zero_of_not_pos hzero
      exact .unlock hpc .swapNull
  | getMsg => rw [hpc] at h; cases h; exact .readMsg hpc
  | getNext msg => rw [hpc] at h; cases h; exact .readNext hpc
  | getStore msg next => rw [hpc] at h; cases h; exact .take hpc
  | getUnlock msg => rw [hpc] at h; cases h; exact .unlockGet hpc
  | nbLock => rw [hpc] at h; exact effect_lockPut hpc .nb h
  | nbSignal => rw [hpc] at h; exact effect_signalGet hpc .nb h
  | nbBroadcast => rw [hpc] at h; cases h; exact .broadcast hpc
  | nbUnlock => rw [hpc] at h; cases h; exact .unlock hpc .nb

/-- Every step that the callers may take has one of the effects. -/
theorem effect_of_step (hok : Permits q s a) (h : step q s a = some s') : Effect q s a s' := by
  unfold step at h
  cases a with
  -- What the callers keep to is a premise of the effects of `put` and `write` alone.
  | put t msg =>
    obtain ⟨hpc, h⟩ := Option.ite_none_right_eq_some.mp h
    cases h
    exact .put hpc hok.1 hok.2
  | get t =>
    obtain ⟨hpc, h⟩ := Option.ite_none_right_eq_some.mp h
    cases h
    exact .get hpc
  | setNonblock t =>
    obtain ⟨hpc, h⟩ := Option.ite_none_right_eq_some.mp h
    cases h
    exact .setNonblock hpc
  | setBlock t =>
    obtain ⟨hpc, h⟩ := Option.ite_none_right_eq_some.mp h
    cases h
    exact .setBlock hpc
  | run t w => exact effect_runCall h
  | spurious t =>
    dsimp only at h
    split at h
    case h_1 msg b hpc =>
      cases h
      exact .spuriousPut hpc
    case h_2 get_head b hpc =>
      cases h
      exact .spuriousGet hpc
    case h_3 => cases h
  | write a v =>
    cases h
    exact .write hok

end CPStudy.MsgQueue
