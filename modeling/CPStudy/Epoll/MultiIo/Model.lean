import Mathlib.Algebra.Order.Ring.Int
import CPStudy.Lib.Transition
import CPStudy.Epoll.Kernel

/-!
# The `epoll` server of `multi-io.c`

The loop of `main` accepts connections on the listening socket and sends back what it receives on
the others. A step is one `epoll_wait`, the handling of one event of the batch it has returned, or
the peer of a connection reaching the end of its stream; the action says what the kernel returns.
Printing is left out, and so is `EPOLLET`, which only makes some events rarer.

`send` is passed the result of `recv`, so that after a `recv` that returns -1 on a connection it is
told to send more bytes than `buffer` has; `fault` is set there and the run ends. The list `closes`
is history.
-/

namespace CPStudy.Epoll.MultiIo

open Function (update)

/-- The descriptors that are open when the loop starts. -/
structure Setup where
  /-- `sockfd`. -/
  sockfd : ℕ
  /-- `epfd`. -/
  epfd : ℕ
  /-- The other ones. -/
  others : ℕ → Bool
  /-- The listening socket is not the `epoll` instance. -/
  sockfd_ne : sockfd ≠ epfd
  /-- The listening socket is not one of the others. -/
  others_sockfd : others sockfd = false
  /-- Nor is the `epoll` instance. -/
  others_epfd : others epfd = false

/-- A call of `close`. -/
structure Close where
  /-- What it is passed. -/
  passed : ℕ
  /-- What that descriptor stands for. -/
  target : Option File
  /-- The connection whose `recv` has returned 0. -/
  id : ℕ
deriving DecidableEq

/-- The server and the kernel. -/
structure State where
  /-- The kernel. -/
  kernel : Kernel
  /-- `events` from the entry `i` on, each with `data.fd` and `events`. -/
  batch : List (ℕ × Interest)
  /-- `i`. -/
  index : ℕ
  /-- The behaviour is undefined from here on. -/
  fault : Bool
  /-- The calls of `close` so far. -/
  closes : List Close

/-- What happens next. -/
inductive Action
  /-- `epoll_wait` returns events. -/
  | epollWait (events : List (ℕ × Interest))
  /-- The next event is of the listening socket, and `accept` returns this. -/
  | accept (clientfd : ℤ)
  /-- `recv` on the descriptor of the next event returns these bytes, or -1, and `send` then accepts
  as many of them. -/
  | recv (bytes : Option (List UInt8)) (accepted : ℕ)
  /-- The next event has no `EPOLLIN`. -/
  | skip
  /-- The peer of a connection reaches the end of its stream. -/
  | finish (id : ℕ)

/-- The size of `buffer`. -/
def bufferSize : ℕ := 5

/-- The length of `events`. -/
def maxEvents : ℕ := 1024

variable (p : Setup)

/-- Before the first `epoll_wait`. -/
def State.init : State where
  kernel :=
    { Kernel.init p.others with
      file := update (update (Kernel.init p.others).file p.sockfd (some .listener)) p.epfd
        (some .other)
      interest := update (fun _ => none) p.sockfd (some .epollin) }
  batch := []
  index := 0
  fault := false
  closes := []

/-- The next event of the batch is handled. -/
def State.advance (s : State) (kernel : Kernel) : State :=
  { s with kernel := kernel, batch := s.batch.tail, index := s.index + 1 }

/-- `epoll_ctl(epfd, EPOLL_CTL_ADD, fd, &ev)`, which needs the `epoll` instance to be open. -/
def ctlAdd (kernel : Kernel) (fd : ℕ) : Kernel :=
  if kernel.file p.epfd = some .other then kernel.ctlAdd fd .epollin else kernel

/-- `close(fd)`; the interest sets go with the `epoll` instance. -/
def close (kernel : Kernel) (fd : ℕ) : Kernel :=
  if fd = p.epfd then { kernel.close fd with interest := fun _ => none } else kernel.close fd

/-- `epoll_wait` returns events of the interest sets, each descriptor at most once. -/
def epollWait (s : State) (events : List (ℕ × Interest)) : Option State :=
  if s.batch = [] ∧ events.length ≤ maxEvents ∧ (events.map Prod.fst).Nodup ∧
      ∀ e ∈ events, s.kernel.interest e.1 = some e.2 then
    some { s with batch := events, index := 0 }
  else none

/-- `accept` on the listening socket. -/
def accept (s : State) (clientfd : ℤ) : Option State :=
  -- `EPOLL_CTL_ADD` of -1 fails.
  if clientfd < 0 then some (s.advance s.kernel)
  else
    let fd := clientfd.toNat
    if s.kernel.file p.sockfd = some .listener ∧ s.kernel.file fd = none then
      some (s.advance (ctlAdd p (s.kernel.accept fd) fd))
    else none

/-- `recv` and what follows it, for an event of `connfd`. -/
def receive (s : State) (connfd : ℕ) (result : Option (List UInt8)) (accepted : ℕ) :
    Option State :=
  match s.kernel.file connfd, result with
  | some (.conn id), some bytes =>
    if s.kernel.MayRecv id bufferSize bytes then
      if bytes = [] then
        -- `EPOLL_CTL_DEL` of `connfd`, and then `close(i)`.
        some { s.advance (close p (s.kernel.ctlDel connfd) s.index) with
          closes := s.closes ++ [{
            passed := s.index
            target := s.kernel.file s.index
            id := id }] }
      -- What `send` returns is not looked at.
      else if accepted ≤ bytes.length then
        some (s.advance ((s.kernel.recv id bytes).send id (bytes.take accepted)))
      else none
    else none
  -- `send` is passed the length -1, which is a `size_t` larger than `buffer`.
  | some (.conn _), none => some { s with fault := true }
  -- Neither `recv` nor `send` can do anything with what is not a connection.
  | _, none => some (s.advance s.kernel)
  | _, some _ => none

/-- One pass of the loop over the events. -/
def handle (s : State) (a : Action) : Option State :=
  match s.batch with
  | [] => none
  | (connfd, events) :: _ =>
    if p.sockfd = connfd then
      match a with
      | .accept clientfd => accept p s clientfd
      | _ => none
    else
      match events, a with
      | .epollin, .recv bytes accepted => receive p s connfd bytes accepted
      | .epollout, .skip => some (s.advance s.kernel)
      | _, _ => none

/-- A step of the system; there is none once something has gone wrong. -/
def step (s : State) (a : Action) : Option State :=
  if s.fault = false then
    match a with
    | .epollWait events => epollWait s events
    | .finish id => some { s with kernel := s.kernel.finish id }
    | .accept _ => handle p s a
    | .recv _ _ => handle p s a
    | .skip => handle p s a
  else none

/-! ## What one step can do -/

/-- The changes a step can make to the descriptors and to the calls of `close`. -/
inductive Effect (s : State) : Action → State → Prop
  /-- None. -/
  | same (a : Action) (s' : State) (hrecv : ∀ count, a ≠ .recv (some []) count)
      (hfile : s'.kernel.file = s.kernel.file) (haccepted : s'.kernel.accepted = s.kernel.accepted)
      (hcloses : s'.closes = s.closes) : Effect s a s'
  /-- A connection is accepted. -/
  | accepted (clientfd : ℤ) (fd : ℕ) (hfile : s.kernel.file fd = none) :
      Effect s (.accept clientfd) (s.advance (ctlAdd p (s.kernel.accept fd) fd))
  /-- `recv` on a connection returns 0, and `close` is called. -/
  | closed (connfd id : ℕ) (events : Interest) (count : ℕ)
      (hhead : s.batch.head? = some (connfd, events))
      (hfile : s.kernel.file connfd = some (.conn id)) :
      Effect s (.recv (some []) count)
        { s.advance (close p (s.kernel.ctlDel connfd) s.index) with
          closes := s.closes ++ [⟨s.index, s.kernel.file s.index, id⟩] }

variable {p} {s s' : State}

/-- `recv` and what follows it. -/
theorem effect_receive {connfd : ℕ} {events : Interest} {result : Option (List UInt8)}
    {accepted : ℕ} (hhead : s.batch.head? = some (connfd, events))
    (h : receive p s connfd result accepted = some s') :
    Effect p s (.recv result accepted) s' := by
  unfold receive at h
  split at h
  case h_1 id bytes hfile =>
    split at h
    case isTrue =>
      split at h
      case isTrue hnil =>
        subst hnil
        exact Option.some.inj h ▸ .closed connfd id events accepted hhead hfile
      case isFalse hne =>
        obtain ⟨-, h⟩ := Option.ite_none_right_eq_some.mp h
        have hrecv : ∀ count, Action.recv (some bytes) accepted ≠ .recv (some []) count := by
          rintro count ⟨⟩
          exact hne rfl
        exact Option.some.inj h ▸ .same _ _ hrecv rfl rfl rfl
    case isFalse => cases h
  case h_2 => exact Option.some.inj h ▸ .same _ _ (fun _ heq => by cases heq) rfl rfl rfl
  case h_3 => exact Option.some.inj h ▸ .same _ _ (fun _ heq => by cases heq) rfl rfl rfl
  case h_4 => cases h

/-- The handling of one event. -/
theorem effect_handle {a : Action} (h : handle p s a = some s') : Effect p s a s' := by
  unfold handle at h
  split at h
  case h_1 => cases h
  case h_2 connfd events rest hbatch =>
    have hhead : s.batch.head? = some (connfd, events) := by
      rw [hbatch]
      rfl
    split at h
    case isTrue =>
      split at h
      case h_1 clientfd =>
        unfold accept at h
        split at h
        case isTrue => exact Option.some.inj h ▸ .same _ _ (fun _ heq => by cases heq) rfl rfl rfl
        case isFalse =>
          obtain ⟨hfile, h⟩ := Option.ite_none_right_eq_some.mp h
          exact Option.some.inj h ▸ .accepted clientfd _ hfile.2
      case h_2 => cases h
    case isFalse =>
      split at h
      case h_1 bytes accepted => exact effect_receive hhead h
      case h_2 => exact Option.some.inj h ▸ .same _ _ (fun _ heq => by cases heq) rfl rfl rfl
      case h_3 => cases h

/-- Every step has one of the effects. -/
theorem effect_of_step {a : Action} (h : step p s a = some s') : Effect p s a s' := by
  unfold step at h
  obtain ⟨-, h⟩ := Option.ite_none_right_eq_some.mp h
  cases a with
  | epollWait events =>
    obtain ⟨-, h⟩ := Option.ite_none_right_eq_some.mp h
    exact Option.some.inj h ▸ .same _ _ (fun _ heq => by cases heq) rfl rfl rfl
  | finish id => exact Option.some.inj h ▸ .same _ _ (fun _ heq => by cases heq) rfl rfl rfl
  | accept clientfd => exact effect_handle h
  | recv bytes accepted => exact effect_handle h
  | skip => exact effect_handle h

/-- A state that some run reaches each of whose steps is allowed by `ok`. -/
def ReachableIf (p : Setup) (ok : State → Action → Prop) (s : State) : Prop :=
  Lib.Reaches (step p) ok (State.init p) s

/-- A list of actions shows a state that some run reaches. -/
theorem exists_reachable (p : Setup) (ok : State → Action → Prop) [∀ s a, Decidable (ok s a)]
    (as : List Action) (q : State → Prop) [DecidablePred q]
    (h : (Lib.replay (step p) (fun s a => decide (ok s a)) (State.init p) as).any
      (fun s => decide (q s)) = true) : ∃ s, ReachableIf p ok s ∧ q s := by
  obtain ⟨s, hs, hq⟩ := Lib.exists_reaches (step p) (fun s a => decide (ok s a)) (State.init p)
    as (fun s => decide (q s)) h
  exact ⟨s, hs.mono fun _ _ hok => of_decide_eq_true hok, of_decide_eq_true hq⟩

end CPStudy.Epoll.MultiIo
