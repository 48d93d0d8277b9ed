import Mathlib.Algebra.Order.Ring.Int
import CPStudy.Lib.Transition
import CPStudy.Lib.Watch
import CPStudy.Epoll.Kernel

/-!
# The `select` and the `poll` server of `multi-io.c`

The two alternatives have the same loop: wait, accept a connection if the listening socket is
readable, and then go through the descriptors from `sockfd + 1` to `maxfd` and echo on those that
are readable. What they keep about the descriptors differs, and a `Multiplexer` holds it. A step is
the return of one system call, the loop of `main` going on without one, or the peer of a connection
reaching the end of its stream; the action says what the kernel returns.

Both have room for 1024 descriptors, and `fault` is set where one is written outside of it. The
result of `select` and `poll` is not looked at, so that they may fail. The lists `reported` and
`recvs` are history, and printing is left out.
-/

namespace CPStudy.Epoll.Multiplex

open Function (update)

/-- The sockets when the loop starts. -/
structure Listening where
  /-- `sockfd`. -/
  sockfd : ℕ
  /-- The other open descriptors. -/
  others : ℕ → Bool

/-- What an alternative keeps about the descriptors. -/
structure Multiplexer where
  /-- The variables for it. -/
  Table : Type
  /-- The descriptor is waited for. -/
  watches : Table → ℕ → Bool
  /-- The descriptor is taken for readable. -/
  flagged : Table → ℕ → Bool
  /-- A connection is entered. -/
  insert : Table → ℕ → Table
  /-- A connection is taken out. -/
  remove : Table → ℕ → Table
  /-- The system call, told of the descriptors up to `maxfd`, fails or returns this; the outcome has
  the descriptors that it reports. -/
  wait : Kernel → ℕ → Table → Option (List ℕ) → Option (Table × List ℕ)
  /-- What is waited for after a connection is entered. -/
  watches_insert : ∀ t fd, watches (insert t fd) = update (watches t) fd true
  /-- What is waited for after a connection is taken out. -/
  watches_remove : ∀ t fd, watches (remove t fd) = update (watches t) fd false
  /-- Entering a connection makes nothing readable. -/
  flagged_insert : ∀ t fd, flagged (insert t fd) = flagged t
  /-- Nor does taking it out. -/
  flagged_remove : ∀ t fd, flagged (remove t fd) = flagged t
  /-- The system call does not change what is waited for. -/
  watches_wait : ∀ k maxfd t result t' reported, wait k maxfd t result = some (t', reported) →
    watches t' = watches t

/-- `FD_SETSIZE`, and the length of `fds`. -/
def tableSize : ℕ := 1024

/-! ## The two alternatives -/

/-- The variables of the `select` server. -/
structure FdSets where
  /-- `rfds`. -/
  rfds : ℕ → Bool
  /-- `rset`. -/
  rset : ℕ → Bool

/-- `rset = rfds` and `select(maxfd+1, &rset, NULL, NULL, NULL)`. It replaces `rset` by a part of
it, of which it has looked at the descriptors up to `maxfd`. -/
def select (maxfd : ℕ) (t : FdSets) : Option (List ℕ) → Option (FdSets × List ℕ)
  | none => some ({ t with rset := t.rfds }, [])
  | some rset =>
    if ∀ fd ∈ rset, t.rfds fd = true then
      some ({ t with rset := fun fd => decide (fd ∈ rset) }, rset.filter (· ≤ maxfd))
    else none

/-- The `select` server. -/
def selectServer : Multiplexer where
  Table := FdSets
  watches := FdSets.rfds
  flagged := FdSets.rset
  -- `FD_SET(clientfd, &rfds)`.
  insert := fun t fd => { t with rfds := update t.rfds fd true }
  -- `FD_CLR(i, &rfds)`.
  remove := fun t fd => { t with rfds := update t.rfds fd false }
  wait := fun _ maxfd t result => select maxfd t result
  watches_insert := fun _ _ => rfl
  watches_remove := fun _ _ => rfl
  flagged_insert := fun _ _ => rfl
  flagged_remove := fun _ _ => rfl
  watches_wait := fun k maxfd t result t' reported h => by
    cases result with
    | none => cases h; rfl
    | some rset =>
      obtain ⟨-, h⟩ := Option.ite_none_right_eq_some.mp h
      cases h
      rfl

/-- `FD_ZERO(&rfds)` and `FD_SET(sockfd, &rfds)`; `rset` is not initialised. -/
def FdSets.start (sockfd : ℕ) (rset : ℕ → Bool) : FdSets where
  rfds := update (fun _ => false) sockfd true
  rset := rset

/-- `struct pollfd`. -/
structure PollFd where
  /-- `fd`. -/
  fd : ℤ
  /-- `events & POLLIN`. -/
  events : Bool
  /-- `revents & POLLIN`. -/
  revents : Bool

/-- `poll(fds, maxfd+1, -1)`. It writes `revents` of the entries up to `maxfd`, and reports those of
them that have an open descriptor and `POLLIN` in `events`. -/
def poll (k : Kernel) (maxfd : ℕ) (fds : ℕ → PollFd) :
    Option (List ℕ) → Option ((ℕ → PollFd) × List ℕ)
  | none => some (fds, [])
  | some readable =>
    if ∀ i ∈ readable, i ≤ maxfd ∧ 0 ≤ (fds i).fd ∧ (fds i).events = true ∧
        k.file (fds i).fd.toNat ≠ none then
      some (fun i => if i ≤ maxfd then { fds i with revents := decide (i ∈ readable) } else fds i,
        readable.map fun i => (fds i).fd.toNat)
    else none

/-- The `poll` server. -/
def pollServer : Multiplexer where
  Table := ℕ → PollFd
  watches := fun fds i => decide ((fds i).fd = i) && (fds i).events
  flagged := fun fds i => (fds i).revents
  -- `fds[clientfd].fd = clientfd` and `fds[clientfd].events = POLLIN`.
  insert := fun fds fd => update fds fd { fds fd with fd := fd, events := true }
  -- `fds[i].fd = -1`.
  remove := fun fds fd => update fds fd { fds fd with fd := -1 }
  wait := poll
  watches_insert := fun fds fd => by
    funext i
    rcases eq_or_ne i fd with rfl | hne
    · simp
    · simp [hne]
  watches_remove := fun fds fd => by
    funext i
    rcases eq_or_ne i fd with rfl | hne
    · have hneg : (-1 : ℤ) ≠ i := by omega
      simp [hneg]
    · simp [hne]
  flagged_insert := fun fds fd => by
    funext i
    rcases eq_or_ne i fd with rfl | hne
    · simp
    · simp [hne]
  flagged_remove := fun fds fd => by
    funext i
    rcases eq_or_ne i fd with rfl | hne
    · simp
    · simp [hne]
  watches_wait := fun k maxfd fds result fds' reported h => by
    cases result with
    | none => cases h; rfl
    | some readable =>
      obtain ⟨-, h⟩ := Option.ite_none_right_eq_some.mp h
      cases h
      funext i
      dsimp only
      split <;> rfl

/-- `fds[sockfd]` is set, and the rest of `fds` is not initialised. -/
def PollFd.start (sockfd : ℕ) (fds : ℕ → PollFd) : ℕ → PollFd :=
  update fds sockfd { fds sockfd with fd := sockfd, events := true }

/-! ## The loop -/

/-- Where the loop stands. -/
inductive Pc
  /-- At its head. -/
  | head
  /-- After `select` or `poll`. -/
  | waited
  /-- In the `for` loop, at this `i`. -/
  | scan (i : ℕ)
deriving DecidableEq

/-- A call of `recv`. -/
structure Recv where
  /-- The descriptor. -/
  fd : ℕ
  /-- It was reported readable in this round. -/
  reported : Bool
deriving DecidableEq

/-- The server and the kernel. -/
structure State (m : Multiplexer) where
  /-- Where the loop stands. -/
  pc : Pc
  /-- The kernel. -/
  kernel : Kernel
  /-- What is kept about the descriptors. -/
  table : m.Table
  /-- `maxfd`. -/
  maxfd : ℕ
  /-- The behaviour is undefined from here on. -/
  fault : Bool
  /-- The descriptors that this round's `select` or `poll` has reported readable. -/
  reported : List ℕ
  /-- The calls of `recv` so far. -/
  recvs : List Recv

/-- What happens next. -/
inductive Action
  /-- `select` or `poll` returns, or fails. -/
  | wait (result : Option (List ℕ))
  /-- `accept` returns this. -/
  | accept (clientfd : ℤ)
  /-- `recv` returns these bytes, or -1, and `send` then sends these. -/
  | recv (result : Option (List UInt8)) (sent : List UInt8)
  /-- The loop goes on without a system call. -/
  | pass
  /-- The peer of a connection reaches the end of its stream. -/
  | finish (id : ℕ)

variable {m : Multiplexer} (p : Listening)

/-- Before the loop. -/
def State.init (t : m.Table) : State m where
  pc := .head
  kernel := (Kernel.init p.others).listen p.sockfd
  table := t
  maxfd := p.sockfd
  -- `sockfd` is itself entered in the table.
  fault := decide (tableSize ≤ p.sockfd)
  reported := []
  recvs := []

/-- `select` or `poll`. -/
def wait (s : State m) (result : Option (List ℕ)) : Option (State m) :=
  match s.pc with
  | .head => (m.wait s.kernel s.maxfd s.table result).map fun (t, reported) =>
    { s with pc := .waited, table := t, reported := reported }
  | .waited => none
  | .scan _ => none

/-- `accept` on the listening socket. -/
def accept (s : State m) (clientfd : ℤ) : Option (State m) :=
  if s.pc = .waited ∧ m.flagged s.table p.sockfd = true then
    if 0 ≤ clientfd ∧ clientfd < tableSize then
      let fd := clientfd.toNat
      -- The kernel returns a descriptor that is not open.
      if s.kernel.file fd = none then
        some { s with
          pc := .scan (p.sockfd + 1)
          kernel := s.kernel.accept fd
          table := m.insert s.table fd
          maxfd := fd }
      else none
    else some { s with fault := true }
  else none

/-- The size of `buf`. -/
def bufSize : ℕ := 128

/-- `recv`, and `send` unless `count` is 0. -/
def echo (k : Kernel) (fd : ℕ) (result : Option (List UInt8)) (sent : List UInt8) :
    Option Kernel :=
  match k.file fd, result with
  | some (.conn id), some bytes =>
    if k.MayRecv id bufSize bytes ∧ sent <+: bytes then some ((k.recv id bytes).send id sent)
    else none
  -- `send` is passed the length -1, and goes beyond `buf`.
  | some (.conn id), none => some (k.send id sent)
  -- Neither can do anything with what is not a connection.
  | _, none => some k
  | _, some _ => none

/-- One pass of the `for` loop, on a descriptor that is taken for readable. -/
def receive (s : State m) (result : Option (List UInt8)) (sent : List UInt8) : Option (State m) :=
  match s.pc with
  | .scan i =>
    if i ≤ s.maxfd ∧ m.flagged s.table i = true then
      (echo s.kernel i result sent).map fun kernel =>
        let recvs := s.recvs ++ [{ fd := i, reported := decide (i ∈ s.reported) }]
        -- `count == 0`.
        if result = some [] then
          { s with
            pc := .scan (i + 1)
            kernel := kernel.close i
            table := m.remove s.table i
            recvs := recvs }
        else { s with pc := .scan (i + 1), kernel := kernel, recvs := recvs }
    else none
  | .head => none
  | .waited => none

/-- The loop goes on without a system call. -/
def pass (s : State m) : Option (State m) :=
  match s.pc with
  | .head => none
  | .waited =>
    if m.flagged s.table p.sockfd = true then none
    else some { s with pc := .scan (p.sockfd + 1) }
  | .scan i =>
    if i ≤ s.maxfd then
      if m.flagged s.table i = true then none else some { s with pc := .scan (i + 1) }
    else some { s with pc := .head }

/-- A step of the system; there is none once something has gone wrong. -/
def step (s : State m) (a : Action) : Option (State m) :=
  if s.fault = false then
    match a with
    | .wait result => wait s result
    | .accept clientfd => accept p s clientfd
    | .recv result sent => receive s result sent
    | .pass => pass p s
    | .finish id => some { s with kernel := s.kernel.finish id }
  else none

/-- A state that some run from this table reaches each of whose steps is allowed by `ok`. -/
def ReachableIf (p : Listening) (t : m.Table) (ok : State m → Action → Prop) (s : State m) :
    Prop :=
  Lib.Reaches (step p) ok (State.init p t) s

/-- A list of actions shows a state that some run reaches. -/
theorem exists_reachable (p : Listening) (t : m.Table) (ok : State m → Action → Prop)
    [∀ s a, Decidable (ok s a)] (as : List Action) (q : State m → Prop) [DecidablePred q]
    (h : (Lib.replay (step p) (fun s a => decide (ok s a)) (State.init p t) as).any
      (fun s => decide (q s)) = true) : ∃ s, ReachableIf p t ok s ∧ q s := by
  obtain ⟨s, hs, hq⟩ := Lib.exists_reaches (step p) (fun s a => decide (ok s a)) (State.init p t)
    as (fun s => decide (q s)) h
  exact ⟨s, hs.mono fun _ _ hok => of_decide_eq_true hok, of_decide_eq_true hq⟩

end CPStudy.Epoll.Multiplex
