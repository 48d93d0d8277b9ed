import Mathlib.Data.Finset.Card
import CPStudy.Lib.Transition

/-!
# The load client of `mul_port_client_epoll.c`

`main` opens one connection after another until there are 340000. At every thousandth, and from then
on in every pass of the loop, it handles a batch of events. It sends and receives on `sockfd`, the
descriptor of the connection opened in the same pass, which is 0 where none was, and closes
`clientfd`, the descriptor of the event.

A step is the opening of a connection, one `epoll_wait`, the handling of one event, or `main` going
on without any of these; the action says what the kernel returns. The data sent, the ports and the
times measured are left out. The list `closes` is history.
-/

namespace CPStudy.Epoll.LoadClient

/-- An entry of `events`. -/
structure Event where
  /-- `data.fd`. -/
  fd : ℕ
  /-- `events & EPOLLOUT`. -/
  epollout : Bool
  /-- `events & EPOLLIN`. -/
  epollin : Bool
deriving DecidableEq

/-- What `recv` returns. -/
inductive RecvResult
  /-- These bytes. -/
  | data (bytes : List UInt8)
  /-- 0. -/
  | ended
  /-- -1, with `EINTR` in `errno`. -/
  | eintr
  /-- -1, with something else in `errno`. -/
  | error
deriving DecidableEq

/-- Why a descriptor is closed. -/
inductive Cause
  /-- `recv` on this descriptor has returned 0 or -1. -/
  | recv (sockfd : ℕ)
  /-- The event is neither `EPOLLOUT` nor `EPOLLIN`. -/
  | neither
deriving DecidableEq

/-- A call of `close`. -/
structure Close where
  /-- `clientfd`. -/
  clientfd : ℕ
  /-- Why. -/
  cause : Cause
deriving DecidableEq

/-- A descriptor is closed on account of its own connection. -/
def Close.Own (c : Close) : Prop := c.cause = .recv c.clientfd ∨ c.cause = .neither

/-- Where `main` stands. -/
inductive Pc
  /-- At the head of the outer loop. -/
  | head
  /-- Before `connections % 1000 == 999 || connections >= 340000`. -/
  | opened
  /-- In the loop over the events. -/
  | events
  /-- At `err`. -/
  | err
deriving DecidableEq

/-- The client and the kernel. -/
structure State where
  /-- `main`. -/
  pc : Pc
  /-- `connections`. -/
  connections : ℤ
  /-- `isContinue`. -/
  isContinue : Bool
  /-- `sockfd`. -/
  sockfd : ℕ
  /-- The events that are not handled yet. -/
  batch : List Event
  /-- The sockets that are connected and not closed. -/
  sockets : Finset ℕ
  /-- The calls of `close` so far. -/
  closes : List Close

/-- What happens next. -/
inductive Action
  /-- `socket` and `connect` succeed with this descriptor, or one of them fails. -/
  | connect (fd : Option ℕ)
  /-- `epoll_wait` returns events. -/
  | epollWait (events : List Event)
  /-- The next event is `EPOLLOUT`. -/
  | send
  /-- The next event is `EPOLLIN`, and `recv` returns this. -/
  | recv (result : RecvResult)
  /-- The next event is neither. -/
  | neither
  /-- `main` goes on. -/
  | pass

/-- Before the loop. -/
def State.init : State where
  pc := .head
  connections := 0
  isContinue := false
  sockfd := 0
  batch := []
  sockets := ∅
  closes := []

/-- `connections < 340000 && !isContinue`. -/
def State.Opens (s : State) : Prop := s.connections < 340000 ∧ s.isContinue = false

instance (s : State) : Decidable s.Opens :=
  inferInstanceAs (Decidable (s.connections < 340000 ∧ s.isContinue = false))

/-- `connections % 1000 == 999 || connections >= 340000`. -/
def State.Waits (s : State) : Prop :=
  s.connections.tmod 1000 = 999 ∨ 340000 ≤ s.connections

instance (s : State) : Decidable s.Waits :=
  inferInstanceAs (Decidable (s.connections.tmod 1000 = 999 ∨ 340000 ≤ s.connections))

/-- A new connection. -/
def connect (others : ℕ → Bool) (s : State) (fd : Option ℕ) : Option State :=
  if s.pc = .head ∧ s.Opens then
    match fd with
    -- `goto err`.
    | none => some { s with pc := .err }
    | some fd =>
      -- The kernel returns a descriptor that is not open.
      if fd ∉ s.sockets ∧ others fd = false then
        some { s with
          pc := .opened
          connections := s.connections + 1
          sockfd := fd
          sockets := insert fd s.sockets }
      else none
  else none

/-- `epoll_wait(epoll_fd, events, connections, 100)`, on the sockets that are not closed. -/
def epollWait (s : State) (events : List Event) : Option State :=
  if s.pc = .opened ∧ s.Waits ∧ (events.map Event.fd).Nodup ∧ (∀ e ∈ events, e.fd ∈ s.sockets) ∧
      (events.length : ℤ) ≤ s.connections then
    some { s with pc := .events, batch := events }
  else none

/-- `strcmp(rBuffer, "quit") == 0`. -/
def quits (bytes : List UInt8) : Bool := bytes.takeWhile (· ≠ 0) = [113, 117, 105, 116]

/-- The size of `rBuffer`. -/
def maxBuffer : ℕ := 128

/-- `close(clientfd)`. -/
def State.close (s : State) (clientfd : ℕ) (cause : Cause) : State :=
  { s with
    batch := s.batch.tail
    sockets := s.sockets.erase clientfd
    closes := s.closes ++ [{ clientfd := clientfd, cause := cause }] }

/-- What follows `recv(sockfd, rBuffer, MAX_BUFFER, 0)` in an event of `clientfd`. Nothing is
assumed of what `recv` returns, since `sockfd` may be 0 or closed. -/
def receive (s : State) (clientfd : ℕ) (result : RecvResult) : Option State :=
  match result with
  | .data bytes =>
    if 0 < bytes.length ∧ bytes.length ≤ maxBuffer then
      some { s with
        batch := s.batch.tail
        isContinue := if quits bytes then false else s.isContinue }
    else none
  | .ended => some { s.close clientfd (.recv s.sockfd) with connections := s.connections - 1 }
  | .eintr => some { s with batch := s.batch.tail }
  -- `connections` is left as it is.
  | .error => some (s.close clientfd (.recv s.sockfd))

/-- One pass of the loop over the events. -/
def handle (s : State) (a : Action) : Option State :=
  match s.pc, s.batch, a with
  | .events, e :: _, .send => if e.epollout then some { s with batch := s.batch.tail } else none
  | .events, e :: _, .recv result =>
    if !e.epollout && e.epollin then receive s e.fd result else none
  | .events, e :: _, .neither =>
    if !e.epollout && !e.epollin then some (s.close e.fd .neither) else none
  | _, _, _ => none

/-- `main` goes on. -/
def pass (s : State) : Option State :=
  match s.pc with
  | .head => if s.Opens then none else some { s with pc := .opened, sockfd := 0 }
  | .opened => if s.Waits then none else some { s with pc := .head }
  | .events => if s.batch = [] then some { s with pc := .head } else none
  | .err => none

/-- A step of the system. -/
def step (others : ℕ → Bool) (s : State) (a : Action) : Option State :=
  match a with
  | .connect fd => connect others s fd
  | .epollWait events => epollWait s events
  | .pass => pass s
  | .send => handle s a
  | .recv _ => handle s a
  | .neither => handle s a

/-! ## What one step can do -/

/-- The changes a step can make. -/
inductive Effect (s : State) : Action → State → Prop
  /-- A connection is opened. -/
  | connected (fd : ℕ) (hfd : fd ∉ s.sockets) :
      Effect s (.connect (some fd)) { s with
        pc := .opened
        connections := s.connections + 1
        sockfd := fd
        sockets := insert fd s.sockets }
  /-- A connection cannot be opened. -/
  | failed : Effect s (.connect none) { s with pc := .err }
  /-- Events are reported. -/
  | reported (events : List Event) (hnodup : (events.map Event.fd).Nodup)
      (hopen : ∀ e ∈ events, e.fd ∈ s.sockets) :
      Effect s (.epollWait events) { s with pc := .events, batch := events }
  /-- An event closes nothing. -/
  | handled (a : Action) (isContinue : Bool) (hended : a ≠ .recv .ended) (herror : a ≠ .recv .error)
      (hneither : a ≠ .neither) :
      Effect s a { s with batch := s.batch.tail, isContinue := isContinue }
  /-- `recv` returns 0. -/
  | ended (e : Event) (rest : List Event) (hbatch : s.batch = e :: rest) :
      Effect s (.recv .ended)
        { s.close e.fd (.recv s.sockfd) with connections := s.connections - 1 }
  /-- `recv` returns -1. -/
  | error (e : Event) (rest : List Event) (hbatch : s.batch = e :: rest) :
      Effect s (.recv .error) (s.close e.fd (.recv s.sockfd))
  /-- An event is neither `EPOLLOUT` nor `EPOLLIN`. -/
  | neither (e : Event) (rest : List Event) (hbatch : s.batch = e :: rest) :
      Effect s .neither (s.close e.fd .neither)
  /-- `main` goes on. -/
  | passed (pc : Pc) (sockfd : ℕ) : Effect s .pass { s with pc := pc, sockfd := sockfd }

variable {others : ℕ → Bool} {s s' : State} {a : Action}

/-- An event in which `recv` is called. -/
theorem effect_receive {e : Event} {rest : List Event} {result : RecvResult}
    (hbatch : s.batch = e :: rest) (h : receive s e.fd result = some s') :
    Effect s (.recv result) s' := by
  cases result with
  | data bytes =>
    obtain ⟨-, h⟩ := Option.ite_none_right_eq_some.mp h
    exact Option.some.inj h ▸ .handled _ _ nofun nofun nofun
  | ended => exact Option.some.inj h ▸ .ended e rest hbatch
  | eintr => exact Option.some.inj h ▸ .handled _ s.isContinue nofun nofun nofun
  | error => exact Option.some.inj h ▸ .error e rest hbatch

/-- The handling of one event. -/
theorem effect_handle (h : handle s a = some s') : Effect s a s' := by
  unfold handle at h
  split at h
  case h_1 e rest _ hbatch =>
    obtain ⟨-, h⟩ := Option.ite_none_right_eq_some.mp h
    exact Option.some.inj h ▸ .handled _ s.isContinue nofun nofun nofun
  case h_2 e rest result _ hbatch =>
    obtain ⟨-, h⟩ := Option.ite_none_right_eq_some.mp h
    exact effect_receive hbatch h
  case h_3 e rest _ hbatch =>
    obtain ⟨-, h⟩ := Option.ite_none_right_eq_some.mp h
    exact Option.some.inj h ▸ .neither e rest hbatch
  case h_4 => cases h

/-- `main` going on. -/
theorem effect_pass (h : pass s = some s') : Effect s .pass s' := by
  unfold pass at h
  split at h
  case h_1 =>
    obtain ⟨-, h⟩ := Option.ite_none_left_eq_some.mp h
    exact Option.some.inj h ▸ .passed .opened 0
  case h_2 =>
    obtain ⟨-, h⟩ := Option.ite_none_left_eq_some.mp h
    exact Option.some.inj h ▸ .passed .head s.sockfd
  case h_3 =>
    obtain ⟨-, h⟩ := Option.ite_none_right_eq_some.mp h
    exact Option.some.inj h ▸ .passed .head s.sockfd
  case h_4 => cases h

/-- Every step has one of the effects. -/
theorem effect_of_step (h : step others s a = some s') : Effect s a s' := by
  cases a with
  | connect fd =>
    obtain ⟨-, h⟩ := Option.ite_none_right_eq_some.mp h
    cases fd with
    | none => exact Option.some.inj h ▸ .failed
    | some fd =>
      obtain ⟨hfd, h⟩ := Option.ite_none_right_eq_some.mp h
      exact Option.some.inj h ▸ .connected fd hfd.1
  | epollWait events =>
    obtain ⟨⟨-, -, hnodup, hopen, -⟩, h⟩ := Option.ite_none_right_eq_some.mp h
    exact Option.some.inj h ▸ .reported events hnodup hopen
  | pass => exact effect_pass h
  | send | recv | neither => exact effect_handle h

/-- A state that some run reaches each of whose steps is allowed by `ok`. -/
def ReachableIf (others : ℕ → Bool) (ok : State → Action → Prop) (s : State) : Prop :=
  Lib.Reaches (step others) ok State.init s

end CPStudy.Epoll.LoadClient
