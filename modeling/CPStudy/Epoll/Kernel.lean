import Mathlib.Data.List.Basic
import Mathlib.Logic.Function.Basic

/-!
# What the servers of `2_Net/2.1-epoll` see of the kernel

The open file descriptors of the process, the interest sets of its `epoll` instance and the streams
of its connections. A connection gets a number of its own when it is accepted, so that it stays
apart from a later one with the same descriptor. What `accept`, `recv` and `send` return is chosen
by whoever makes the step; the kernel says what they may return and what they then do.
-/

namespace CPStudy.Epoll

open Function (update)

/-- What an open file descriptor stands for. -/
inductive File
  /-- A listening socket. -/
  | listener
  /-- The connection with this number. -/
  | conn (id : ℕ)
  /-- Another file, such as the `epoll` instance itself. -/
  | other
deriving DecidableEq

/-- An interest set, and an event reported for it. -/
inductive Interest
  /-- `EPOLLIN`. -/
  | epollin
  /-- `EPOLLOUT`. -/
  | epollout
deriving DecidableEq

/-- The kernel's side. -/
structure Kernel where
  /-- The open file descriptors. -/
  file : ℕ → Option File
  /-- The descriptors registered with `epoll`, with their interest sets. -/
  interest : ℕ → Option Interest
  /-- The number of connections accepted so far. -/
  accepted : ℕ
  /-- The connections whose peer has reached the end of its stream. -/
  ended : ℕ → Bool
  /-- The bytes that `recv` has returned on each connection. -/
  received : ℕ → List UInt8
  /-- The bytes that `send` has accepted on each connection. -/
  sent : ℕ → List UInt8

namespace Kernel

/-- A process with the given other files open. -/
def init (others : ℕ → Bool) : Kernel where
  file := fun fd => if others fd then some .other else none
  interest := fun _ => none
  accepted := 0
  ended := fun _ => false
  received := fun _ => []
  sent := fun _ => []

/-- `epoll_ctl(epfd, EPOLL_CTL_ADD, fd, &ev)`; it fails where `fd` is registered. -/
def ctlAdd (k : Kernel) (fd : ℕ) (ev : Interest) : Kernel :=
  if k.interest fd = none then { k with interest := update k.interest fd (some ev) } else k

/-- `epoll_ctl(epfd, EPOLL_CTL_MOD, fd, &ev)`; it fails where `fd` is not registered. -/
def ctlMod (k : Kernel) (fd : ℕ) (ev : Interest) : Kernel :=
  if k.interest fd = none then k else { k with interest := update k.interest fd (some ev) }

/-- `epoll_ctl(epfd, EPOLL_CTL_DEL, fd, NULL)`. -/
def ctlDel (k : Kernel) (fd : ℕ) : Kernel := { k with interest := update k.interest fd none }

/-- `close(fd)`, which also takes `fd` out of the `epoll` instance. -/
def close (k : Kernel) (fd : ℕ) : Kernel :=
  { k with file := update k.file fd none, interest := update k.interest fd none }

/-- `socket`, `bind` and `listen` return the descriptor `fd`. -/
def listen (k : Kernel) (fd : ℕ) : Kernel := { k with file := update k.file fd (some .listener) }

/-- `accept` returns the descriptor `fd` for a new connection. -/
def accept (k : Kernel) (fd : ℕ) : Kernel :=
  { k with file := update k.file fd (some (.conn k.accepted)), accepted := k.accepted + 1 }

/-- `recv` on a connection, asked for `len` bytes, may return these: no more than it was asked for,
and none only where it was asked for none or the peer's stream has ended. -/
def MayRecv (k : Kernel) (id len : ℕ) (bytes : List UInt8) : Prop :=
  bytes.length ≤ len ∧ (bytes = [] ↔ len = 0 ∨ k.ended id = true)

instance (k : Kernel) (id len : ℕ) (bytes : List UInt8) : Decidable (k.MayRecv id len bytes) :=
  inferInstanceAs (Decidable (bytes.length ≤ len ∧ (bytes = [] ↔ len = 0 ∨ k.ended id = true)))

/-- `recv` returns bytes of a connection. -/
def recv (k : Kernel) (id : ℕ) (bytes : List UInt8) : Kernel :=
  { k with received := update k.received id (k.received id ++ bytes) }

/-- `send` accepts bytes for a connection. -/
def send (k : Kernel) (id : ℕ) (bytes : List UInt8) : Kernel :=
  { k with sent := update k.sent id (k.sent id ++ bytes) }

/-- The peer of a connection reaches the end of its stream. -/
def finish (k : Kernel) (id : ℕ) : Kernel := { k with ended := update k.ended id true }

variable {k : Kernel} {fd : ℕ} {ev : Interest}

/-- `EPOLL_CTL_ADD` of a descriptor that is not registered. -/
theorem interest_ctlAdd (h : k.interest fd = none) :
    (k.ctlAdd fd ev).interest = update k.interest fd (some ev) :=
  congrArg interest (if_pos h)

/-- `EPOLL_CTL_MOD` of a descriptor that is registered. -/
theorem interest_ctlMod (h : k.interest fd ≠ none) :
    (k.ctlMod fd ev).interest = update k.interest fd (some ev) :=
  congrArg interest (if_neg h)

/-- A listening socket is registered on a descriptor that was not. -/
theorem interest_listen (h : k.interest fd = none) :
    ((k.listen fd).ctlAdd fd ev).interest = update k.interest fd (some ev) :=
  interest_ctlAdd h

/-- A connection is registered on a descriptor that was not. -/
theorem interest_accept (h : k.interest fd = none) :
    ((k.accept fd).ctlAdd fd ev).interest = update k.interest fd (some ev) :=
  interest_ctlAdd h

/-- Closing a descriptor leaves the interest sets of the others alone. -/
theorem interest_close_of_ne {fd' : ℕ} (h : fd' ≠ fd) :
    ((k.ctlDel fd).close fd).interest fd' = k.interest fd' := by
  unfold close ctlDel
  dsimp only
  rw [Function.update_of_ne h, Function.update_of_ne h]

/-- `EPOLL_CTL_ADD` changes the interest sets only. -/
theorem ctlAdd_eq : k.ctlAdd fd ev = { k with interest := (k.ctlAdd fd ev).interest } := by
  unfold ctlAdd
  split <;> rfl

/-- `EPOLL_CTL_MOD` changes the interest sets only. -/
theorem ctlMod_eq : k.ctlMod fd ev = { k with interest := (k.ctlMod fd ev).interest } := by
  unfold ctlMod
  split <;> rfl

/-- `EPOLL_CTL_ADD` leaves the descriptors alone. -/
@[simp] theorem file_ctlAdd : (k.ctlAdd fd ev).file = k.file := by
  rw [ctlAdd_eq]

/-- `EPOLL_CTL_ADD` leaves the number of connections alone. -/
@[simp] theorem accepted_ctlAdd : (k.ctlAdd fd ev).accepted = k.accepted := by
  rw [ctlAdd_eq]

/-- `EPOLL_CTL_ADD` leaves the ends of the streams alone. -/
@[simp] theorem ended_ctlAdd : (k.ctlAdd fd ev).ended = k.ended := by
  rw [ctlAdd_eq]

/-- `EPOLL_CTL_ADD` leaves what was received alone. -/
@[simp] theorem received_ctlAdd : (k.ctlAdd fd ev).received = k.received := by
  rw [ctlAdd_eq]

/-- `EPOLL_CTL_ADD` leaves what was sent alone. -/
@[simp] theorem sent_ctlAdd : (k.ctlAdd fd ev).sent = k.sent := by
  rw [ctlAdd_eq]

/-- `EPOLL_CTL_MOD` leaves the descriptors alone. -/
@[simp] theorem file_ctlMod : (k.ctlMod fd ev).file = k.file := by
  rw [ctlMod_eq]

/-- `EPOLL_CTL_MOD` leaves the number of connections alone. -/
@[simp] theorem accepted_ctlMod : (k.ctlMod fd ev).accepted = k.accepted := by
  rw [ctlMod_eq]

/-- `EPOLL_CTL_MOD` leaves the ends of the streams alone. -/
@[simp] theorem ended_ctlMod : (k.ctlMod fd ev).ended = k.ended := by
  rw [ctlMod_eq]

/-- `EPOLL_CTL_MOD` leaves what was received alone. -/
@[simp] theorem received_ctlMod : (k.ctlMod fd ev).received = k.received := by
  rw [ctlMod_eq]

/-- `EPOLL_CTL_MOD` leaves what was sent alone. -/
@[simp] theorem sent_ctlMod : (k.ctlMod fd ev).sent = k.sent := by
  rw [ctlMod_eq]

end Kernel

end CPStudy.Epoll
