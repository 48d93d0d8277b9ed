import Mathlib.Data.Fintype.Basic
import Mathlib.Logic.Function.Basic
import CPStudy.Lib.Transition

/-!
# The message queue of `3_pool/queue_design-master/msgqueue.c`

The queue keeps two lists of messages: consumers take from the one at `get_head` under `get_mutex`,
producers append to the one at `put_head` under `put_mutex`, and a consumer that finds its list
empty swaps the two. A message is linked by a pointer inside itself, `linkoff` bytes from its
start, and `get_head`, `put_head` and `put_tail` are addresses of such pointers: of `head1` and
`head2`, or of a link. The memory gives the word at each address, and `NULL` is `0`.

The model is a transition system over a type `ι` of threads, any of which may call `msgqueue_put`,
`msgqueue_get`, `msgqueue_set_nonblock` and `msgqueue_set_block`. A store to a link or to a list
head is a step of its own, together with what the thread does to fields that only a holder of its
mutex looks at; so is a load of a link, and the test of a loop. `pthread_cond_wait` releases the
mutex and starts to wait in one step, and re-acquires it in a later one. `puts` and `gets` are
history: no step reads them.
-/

namespace CPStudy.MsgQueue

open Function (update)

/-- What `msgqueue_create` fixes. -/
structure Config where
  /-- `&queue->head1`. -/
  head1 : ℤ
  /-- `&queue->head2`. -/
  head2 : ℤ
  /-- `linkoff`. -/
  linkoff : ℤ
  /-- `msg_max`. -/
  msg_max : ℕ

/-- Where the link of a message is. -/
def Config.link (q : Config) (msg : ℤ) : ℤ := msg + q.linkoff

/-- `msg_cnt > msg_max - 1`, for a `size_t`: where `msg_max` is `0` the difference is the greatest
`size_t`, which no count exceeds. -/
def Config.full (q : Config) (msg_cnt : ℕ) : Bool :=
  if q.msg_max = 0 then false else decide (q.msg_max - 1 < msg_cnt)

/-- Where a thread stands. A thread in `pthread_cond_wait` has been notified or not. -/
inductive Pc
  /-- In no call. -/
  | idle
  /-- In `msgqueue_put`, before `*link = NULL`. -/
  | putInit (msg : ℤ)
  /-- Before `pthread_mutex_lock(&queue->put_mutex)`. -/
  | putLock (msg : ℤ)
  /-- With `put_mutex`, before the test of the loop. -/
  | putCheck (msg : ℤ)
  /-- In `pthread_cond_wait(&queue->put_cond, &queue->put_mutex)`. -/
  | putWait (msg : ℤ) (notified : Bool)
  /-- With `put_mutex`, before the message is linked in. -/
  | putLink (msg : ℤ)
  /-- Before `pthread_mutex_unlock(&queue->put_mutex)`. -/
  | putUnlock
  /-- Before `pthread_cond_signal(&queue->get_cond)`. -/
  | putSignal
  /-- In `msgqueue_get`, before `pthread_mutex_lock(&queue->get_mutex)`. -/
  | getLock
  /-- With `get_mutex`, before `*queue->get_head` is tested. -/
  | getTest
  /-- In `__msgqueue_swap`, before `queue->get_head = queue->put_head`. -/
  | swapHead
  /-- Before `pthread_mutex_lock(&queue->put_mutex)`, with the local `get_head`. -/
  | swapLock (get_head : ℤ)
  /-- With `put_mutex`, before the test of the loop. -/
  | swapCheck (get_head : ℤ)
  /-- In `pthread_cond_wait(&queue->get_cond, &queue->put_mutex)`. -/
  | swapWait (get_head : ℤ) (notified : Bool)
  /-- With `put_mutex`, before `cnt = queue->msg_cnt`. -/
  | swapLists (get_head : ℤ)
  /-- Before `pthread_mutex_unlock(&queue->put_mutex)` and the return of `cnt`. -/
  | swapUnlock (cnt : ℕ)
  /-- With `get_mutex`, before the message is read off `*queue->get_head`. -/
  | getMsg
  /-- Before the link of the message is read. -/
  | getNext (msg : ℤ)
  /-- Before the link is stored in `*queue->get_head`, which takes the message out of the list. -/
  | getStore (msg next : ℤ)
  /-- Before `pthread_mutex_unlock(&queue->get_mutex)` and the return of the message or of `NULL`.
  -/
  | getUnlock (msg : Option ℤ)
  /-- In `msgqueue_set_nonblock`, before `pthread_mutex_lock(&queue->put_mutex)`. -/
  | nbLock
  /-- Before `pthread_cond_signal(&queue->get_cond)`. -/
  | nbSignal
  /-- Before `pthread_cond_broadcast(&queue->put_cond)`. -/
  | nbBroadcast
  /-- Before `pthread_mutex_unlock(&queue->put_mutex)`. -/
  | nbUnlock
deriving DecidableEq

namespace Pc

/-- The thread is asleep on `get_cond`, not notified. -/
def asleepGet : Pc → Bool
  | .swapWait _ notified => !notified
  | _ => false

/-- The thread is asleep on `put_cond`, not notified. -/
def asleepPut : Pc → Bool
  | .putWait _ notified => !notified
  | _ => false

/-- The message that the thread has to put, until it is linked in. -/
def putting : Pc → Option ℤ
  | .putInit msg => some msg
  | .putLock msg => some msg
  | .putCheck msg => some msg
  | .putWait msg _ => some msg
  | .putLink msg => some msg
  | _ => none

end Pc

/-- A state of the queue and of every thread that uses it. -/
structure State (ι : Type*) where
  /-- The word at each address. -/
  mem : ℤ → ℤ
  /-- `get_head`. -/
  get_head : ℤ
  /-- `put_head`. -/
  put_head : ℤ
  /-- `put_tail`. -/
  put_tail : ℤ
  /-- `msg_cnt`. -/
  msg_cnt : ℕ
  /-- `nonblock`. -/
  nonblock : Bool
  /-- The holder of `get_mutex`. -/
  get_mutex : Option ι
  /-- The holder of `put_mutex`. -/
  put_mutex : Option ι
  /-- The threads. -/
  pc : ι → Pc
  /-- The messages that were linked in, in order. -/
  puts : List ℤ
  /-- The messages that were taken out, in order. -/
  gets : List ℤ

variable {ι : Type*}

/-- The queue that `msgqueue_create` makes, in a memory with arbitrary contents. -/
def State.init (ι : Type*) (q : Config) (mem : ℤ → ℤ) : State ι where
  mem := update (update mem q.head1 0) q.head2 0
  get_head := q.head1
  put_head := q.head2
  put_tail := q.head2
  msg_cnt := 0
  nonblock := false
  get_mutex := none
  put_mutex := none
  pc := fun _ => .idle
  puts := []
  gets := []

/-- What happens next. -/
inductive Action (ι : Type*)
  /-- The thread calls `msgqueue_put`. -/
  | put (t : ι) (msg : ℤ)
  /-- The thread calls `msgqueue_get`. -/
  | get (t : ι)
  /-- The thread calls `msgqueue_set_nonblock`, whose first statement is the store. -/
  | setNonblock (t : ι)
  /-- The thread calls `msgqueue_set_block`, which is one store. -/
  | setBlock (t : ι)
  /-- The next step of the call that the thread is in; `pthread_cond_signal` wakes the named
  thread. -/
  | run (t : ι) (w : Option ι)
  /-- A spurious wake-up. -/
  | spurious (t : ι)
  /-- A store by the owner of some memory. -/
  | write (a v : ℤ)

variable [DecidableEq ι]

/-- The thread goes on to another point. -/
def State.goto (s : State ι) (t : ι) (p : Pc) : State ι := { s with pc := update s.pc t p }

/-- `pthread_mutex_lock(&queue->put_mutex)`. -/
def lockPut (s : State ι) (t : ι) (p : Pc) : Option (State ι) :=
  match s.put_mutex with
  | none => some ({ s with put_mutex := some t }.goto t p)
  | some _ => none

/-- `pthread_cond_broadcast(&queue->put_cond)`. -/
def wakeAllPut (pc : ι → Pc) (t : ι) : Pc :=
  match pc t with
  | .putWait msg _ => .putWait msg true
  | p => p

/-- `pthread_cond_signal(&queue->get_cond)`. It wakes the named thread, and nobody only where nobody
waits. -/
def signalGet [Fintype ι] (s : State ι) (w : Option ι) : Option (State ι) :=
  match w with
  | some w => match s.pc w with
    | .swapWait get_head false => some (s.goto w (.swapWait get_head true))
    | _ => none
  | none => if ∀ w, (s.pc w).asleepGet = false then some s else none

/-- The next step of the call that a thread is in. -/
def runCall [Fintype ι] (q : Config) (s : State ι) (t : ι) (w : Option ι) : Option (State ι) :=
  match s.pc t with
  | .idle => none
  | .putInit msg => some ({ s with mem := update s.mem (q.link msg) 0 }.goto t (.putLock msg))
  | .putLock msg => lockPut s t (.putCheck msg)
  | .putCheck msg =>
    if q.full s.msg_cnt && !s.nonblock then
      some ({ s with put_mutex := none }.goto t (.putWait msg false))
    else some (s.goto t (.putLink msg))
  | .putWait msg notified => if notified then lockPut s t (.putCheck msg) else none
  | .putLink msg =>
    some ({ s with
      mem := update s.mem s.put_tail (q.link msg)
      put_tail := q.link msg
      msg_cnt := s.msg_cnt + 1
      puts := s.puts ++ [msg] }.goto t .putUnlock)
  | .putUnlock => some ({ s with put_mutex := none }.goto t .putSignal)
  | .putSignal => (signalGet s w).map fun s => s.goto t .idle
  | .getLock =>
    match s.get_mutex with
    | none => some ({ s with get_mutex := some t }.goto t .getTest)
    | some _ => none
  | .getTest => some (s.goto t (if s.mem s.get_head ≠ 0 then .getMsg else .swapHead))
  | .swapHead => some ({ s with get_head := s.put_head }.goto t (.swapLock s.get_head))
  | .swapLock get_head => lockPut s t (.swapCheck get_head)
  | .swapCheck get_head =>
    if s.msg_cnt = 0 && !s.nonblock then
      some ({ s with put_mutex := none }.goto t (.swapWait get_head false))
    else some (s.goto t (.swapLists get_head))
  | .swapWait get_head notified => if notified then lockPut s t (.swapCheck get_head) else none
  | .swapLists get_head =>
    some ({ s with
      pc := if q.full s.msg_cnt then wakeAllPut s.pc else s.pc
      put_head := get_head
      put_tail := get_head
      msg_cnt := 0 }.goto t (.swapUnlock s.msg_cnt))
  | .swapUnlock cnt =>
    some ({ s with put_mutex := none }.goto t (if 0 < cnt then .getMsg else .getUnlock none))
  | .getMsg => some (s.goto t (.getNext (s.mem s.get_head - q.linkoff)))
  | .getNext msg => some (s.goto t (.getStore msg (s.mem (s.mem s.get_head))))
  | .getStore msg next =>
    some ({ s with
      mem := update s.mem s.get_head next
      gets := s.gets ++ [msg] }.goto t (.getUnlock (some msg)))
  | .getUnlock _ => some ({ s with get_mutex := none }.goto t .idle)
  | .nbLock => lockPut s t .nbSignal
  | .nbSignal => (signalGet s w).map fun s => s.goto t .nbBroadcast
  | .nbBroadcast => some ({ s with pc := wakeAllPut s.pc }.goto t .nbUnlock)
  | .nbUnlock => some ({ s with put_mutex := none }.goto t .idle)

/-- A step of the system. -/
def step [Fintype ι] (q : Config) (s : State ι) : Action ι → Option (State ι)
  | .put t msg => if s.pc t = .idle then some (s.goto t (.putInit msg)) else none
  | .get t => if s.pc t = .idle then some (s.goto t .getLock) else none
  | .setNonblock t =>
    if s.pc t = .idle then some ({ s with nonblock := true }.goto t .nbLock) else none
  | .setBlock t => if s.pc t = .idle then some { s with nonblock := false } else none
  | .run t w => runCall q s t w
  | .spurious t =>
    match s.pc t with
    | .putWait msg _ => some (s.goto t (.putWait msg true))
    | .swapWait get_head _ => some (s.goto t (.swapWait get_head true))
    | _ => none
  | .write a v => some { s with mem := update s.mem a v }

omit [DecidableEq ι] in
/-- The addresses that belong to the queue: its heads, the links of the messages in it, and those of
the messages that are being put. -/
def State.Owned (q : Config) (s : State ι) (a : ℤ) : Prop :=
  a = q.head1 ∨ a = q.head2 ∨ a ∈ (s.puts.drop s.gets.length).map q.link ∨
    ∃ t, ∃ msg ∈ (s.pc t).putting, a = q.link msg

omit [DecidableEq ι] in
/-- Whether an address belongs to the queue can be decided. -/
instance [Fintype ι] (q : Config) (s : State ι) (a : ℤ) : Decidable (s.Owned q a) := by
  unfold State.Owned
  infer_instance

/-- What the callers of the queue keep to: a message that is put has a link somewhere that does not
belong to the queue, and nobody else writes to what does. -/
def Permits (q : Config) (s : State ι) : Action ι → Prop
  | .put _ msg => q.link msg ≠ 0 ∧ ¬ s.Owned q (q.link msg)
  | .write a _ => ¬ s.Owned q a
  | _ => True

/-- Whether the callers may take an action can be decided. -/
instance [Fintype ι] (q : Config) (s : State ι) (a : Action ι) : Decidable (Permits q s a) := by
  cases a <;> unfold Permits <;> infer_instance

/-- The states that the queue can come to. -/
def Reachable [Fintype ι] (q : Config) (s : State ι) : Prop :=
  q.head1 ≠ q.head2 ∧ q.head1 ≠ 0 ∧ q.head2 ≠ 0 ∧
    ∃ mem, Lib.Reaches (step q) (Permits q) (State.init ι q mem) s

/-- A list of actions that the queue and its callers can take, as a run. -/
theorem exists_reachable [Fintype ι] {q : Config} (mem : ℤ → ℤ)
    (hq : q.head1 ≠ q.head2 ∧ q.head1 ≠ 0 ∧ q.head2 ≠ 0) (as : List (Action ι))
    (p : State ι → Bool)
    (h : (Lib.replay (step q) (fun s a => decide (Permits q s a)) (State.init ι q mem) as).any p =
      true) :
    ∃ s, Reachable q s ∧ p s = true := by
  obtain ⟨s, hs, hp⟩ := Lib.exists_reaches (step q) (fun s a => decide (Permits q s a))
    (State.init ι q mem) as p h
  exact ⟨s, ⟨hq.1, hq.2.1, hq.2.2, mem, hs.mono fun _ _ => of_decide_eq_true⟩, hp⟩

end CPStudy.MsgQueue
