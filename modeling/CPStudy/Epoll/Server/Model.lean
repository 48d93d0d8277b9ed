import Mathlib.Algebra.Order.Ring.Int
import CPStudy.Lib.Buffer
import CPStudy.Lib.Transition
import CPStudy.Epoll.Kernel

/-!
# The callback servers of `reactor.c` and `webserver.c`

The two servers of `2_Net/2.1-epoll` have the same event loop and the same callbacks, but for the
size of their buffers and of `connlist`, the number of their listening sockets and what `recv_cb`
puts in `wbuffer`; a `Config` holds these. `main` opens the listening sockets and then handles the
events of one `epoll_wait` after another. A step is one call of `init_server`, one `epoll_wait`, the
handling of one event, or the peer of a connection reaching the end of its stream; the action says
what the kernel returns.

Where the source leaves the bounds of `connlist` or of a buffer, or calls through a null pointer,
the behaviour is undefined: `fault` is set and the run ends. Printing and the time measured by
`accept_cb` are left out, and so are `EPOLLERR` and `EPOLLHUP`, which the loop does not look at.

The fields `calls` and the `file` of an event are history: no step's outcome depends on them.
-/

namespace CPStudy.Epoll.Server

open Function (update)
open Lib (Buffer)

/-- A callback, as a pointer to a function of type `RCALLBACK`. -/
inductive RCallback
  /-- `accept_cb`. -/
  | acceptCb
  /-- `recv_cb`. -/
  | recvCb
  /-- `send_cb`. -/
  | sendCb
deriving DecidableEq

/-- `struct conn_item` with buffers of `n` bytes. -/
structure ConnItem (n : ℕ) where
  /-- `fd`. -/
  fd : ℕ
  /-- `rbuffer`. -/
  rbuffer : Buffer UInt8 n
  /-- `rlen`. -/
  rlen : ℤ
  /-- `wbuffer`. -/
  wbuffer : Buffer UInt8 n
  /-- `wlen`. -/
  wlen : ℤ
  /-- The union `recv_t` of `accept_callback` and `recv_callback`; `none` is a null pointer. -/
  recvT : Option RCallback
  /-- `send_callback`. -/
  sendCallback : Option RCallback

/-- An entry of `connlist` before `main`. -/
def ConnItem.zero (n : ℕ) : ConnItem n where
  fd := 0
  rbuffer := Buffer.fill 0 n
  rlen := 0
  wbuffer := Buffer.fill 0 n
  wlen := 0
  recvT := none
  sendCallback := none

/-- Both lengths lie within the buffers. -/
structure ConnItem.InRange {n : ℕ} (item : ConnItem n) : Prop where
  /-- `rlen`. -/
  rlen : 0 ≤ item.rlen ∧ item.rlen ≤ n
  /-- `wlen`. -/
  wlen : 0 ≤ item.wlen ∧ item.wlen ≤ n

/-- What tells the servers apart. -/
structure Config where
  /-- `BUFFER_LENGTH`. -/
  bufferLength : ℕ
  /-- The number of entries of `connlist`. -/
  tableSize : ℕ
  /-- The number of listening sockets. -/
  ports : ℕ
  /-- `main` returns where a listening socket cannot be bound. -/
  exitsOnBindError : Bool
  /-- What `recv_cb` does with the entry after `rlen += count`; `none` where it leaves a buffer. -/
  respond : ConnItem bufferLength → Option (ConnItem bufferLength)
  /-- It leaves the callbacks alone. -/
  respond_callbacks : ∀ item item', respond item = some item' →
    item'.recvT = item.recvT ∧ item'.sendCallback = item.sendCallback
  /-- From lengths within the buffers it gets others. -/
  respond_inRange : ∀ item, item.InRange → ∃ item', respond item = some item' ∧ item'.InRange

/-- An entry of `events`, with the file that its descriptor stood for when `epoll_wait` returned. -/
structure Event where
  /-- `data.fd`. -/
  fd : ℕ
  /-- `events`. -/
  events : Interest
  /-- The file. -/
  file : Option File

/-- A call of a callback. -/
structure Call where
  /-- The callback. -/
  callback : RCallback
  /-- The file for which the event was reported. -/
  reported : Option File
  /-- The file on which the callback runs. -/
  target : Option File
  /-- The length passed to `recv` or `send`. -/
  length : ℕ
  /-- What `accept`, `recv` or `send` returns. -/
  count : ℤ
  /-- The bytes that `recv_cb` leaves in `wbuffer` to be sent, or that `send_cb` passes to
  `send`. -/
  payload : List UInt8
deriving DecidableEq

/-- What the source leaves undefined. -/
inductive Fault
  /-- An index outside `connlist`. -/
  | index
  /-- A length or an offset outside a buffer. -/
  | length
  /-- A call through a null pointer. -/
  | callback
deriving DecidableEq

/-- Where `main` stands. -/
inductive MainPc
  /-- Before the event loop, with the number of listening sockets still to be opened; in the event
  loop with 0. -/
  | opening (left : ℕ)
  /-- After `return -1`. -/
  | returned
deriving DecidableEq

/-- The server and the kernel. -/
structure State (cfg : Config) where
  /-- `main`. -/
  main : MainPc
  /-- The kernel. -/
  kernel : Kernel
  /-- `connlist`. -/
  conn : ℕ → ConnItem cfg.bufferLength
  /-- The events of the last `epoll_wait` that are not handled yet. -/
  batch : List Event
  /-- What has gone wrong. -/
  fault : Option Fault
  /-- The calls of callbacks so far. -/
  calls : List Call

/-- What happens next. -/
inductive Action
  /-- `init_server`, or what stands for it in `main`, returns a descriptor or -1. -/
  | initServer (sockfd : ℤ)
  /-- `epoll_wait` returns events. -/
  | epollWait (events : List (ℕ × Interest))
  /-- The next event is handled by a callback whose `accept` returns this. -/
  | accept (clientfd : ℤ)
  /-- The next event is handled by a callback whose `recv` returns these bytes, or -1. -/
  | recv (bytes : Option (List UInt8))
  /-- The next event is handled by a callback whose `send` returns this. -/
  | send (count : ℤ)
  /-- The peer of a connection reaches the end of its stream. -/
  | finish (id : ℕ)

variable {cfg : Config}

/-- The server before `main`, with the given other files open. -/
def State.init (cfg : Config) (others : ℕ → Bool) : State cfg where
  main := .opening cfg.ports
  kernel := Kernel.init others
  conn := fun _ => ConnItem.zero cfg.bufferLength
  batch := []
  fault := none
  calls := []

/-- The behaviour is undefined from here on. -/
def State.crash (s : State cfg) (fault : Fault) : State cfg := { s with fault := some fault }

/-- A callback has handled the event `e`, the next one of the batch. -/
def State.record (s : State cfg) (e : Event) (callback : RCallback) (length : ℕ) (count : ℤ)
    (payload : List UInt8) : State cfg :=
  { s with
    batch := s.batch.tail
    calls := s.calls ++ [{
      callback := callback
      reported := e.file
      target := s.kernel.file e.fd
      length := length
      count := count
      payload := payload }] }

/-- One pass of the loop of `main` over the ports. -/
def initServer (s : State cfg) (sockfd : ℤ) : Option (State cfg) :=
  match s.main with
  | .opening (left + 1) =>
    if sockfd < 0 then
      -- `bind` has failed; where `main` does not return, `connlist[-1]` is written to.
      if cfg.exitsOnBindError then some { s with main := .returned }
      else some (s.crash .index)
    else
      let fd := sockfd.toNat
      -- The kernel returns a descriptor that is not open.
      if s.kernel.file fd = none then
        if fd < cfg.tableSize then
          some { s with
            main := .opening left
            kernel := (s.kernel.listen fd).ctlAdd fd .epollin
            conn := update s.conn fd { s.conn fd with fd := fd, recvT := some .acceptCb } }
        else some (s.crash .index)
      else none
  | .opening 0 => none
  | .returned => none

/-- The length of `events`. -/
def maxEvents : ℕ := 1024

/-- `epoll_wait` returns events of the interest sets, each descriptor at most once. -/
def epollWait (s : State cfg) (events : List (ℕ × Interest)) : Option (State cfg) :=
  if s.main = .opening 0 ∧ s.batch = [] ∧ events.length ≤ maxEvents ∧
      (events.map Prod.fst).Nodup ∧ ∀ e ∈ events, s.kernel.interest e.1 = some e.2 then
    some { s with batch := events.map fun e =>
      { fd := e.1, events := e.2, file := s.kernel.file e.1 } }
  else none

/-- The entry that `accept_cb` makes for a new connection. -/
def ConnItem.accepted (n fd : ℕ) : ConnItem n :=
  { ConnItem.zero n with fd := fd, recvT := some .recvCb, sendCallback := some .sendCb }

/-- `accept_cb(fd)`. -/
def acceptCb (s : State cfg) (e : Event) (clientfd : ℤ) : Option (State cfg) :=
  -- `return -1`, which the loop of `main` passes over.
  if clientfd < 0 then some (s.record e .acceptCb 0 clientfd [])
  else
    let fd := clientfd.toNat
    if s.kernel.file e.fd = some .listener ∧ s.kernel.file fd = none then
      if fd < cfg.tableSize then
        some { s.record e .acceptCb 0 clientfd [] with
          kernel := (s.kernel.accept fd).ctlAdd fd .epollin
          conn := update s.conn fd (ConnItem.accepted cfg.bufferLength fd) }
      else some (s.crash .index)
    else none

/-- The end of `recv_cb(fd)` on the entry after `rlen += count`. -/
def reply (s : State cfg) (e : Event) (item : ConnItem cfg.bufferLength) (kernel : Kernel)
    (length : ℕ) (count : ℤ) : State cfg :=
  match cfg.respond item with
  | none => s.crash .length
  | some item =>
    { s.record e .recvCb length count (item.wbuffer.read item.wlen.toNat) with
      kernel := kernel.ctlMod e.fd .epollout
      conn := update s.conn e.fd item }

/-- `recv_cb(fd)`. -/
def recvCb (s : State cfg) (e : Event) (result : Option (List UInt8)) : Option (State cfg) :=
  let item := s.conn e.fd
  if hrange : 0 ≤ item.rlen ∧ item.rlen ≤ cfg.bufferLength then
    let idx := item.rlen.toNat
    let length := cfg.bufferLength - idx
    match result with
    -- `count` is -1, and it is not 0: `rlen` becomes less by one.
    | none => some (reply s e { item with rlen := item.rlen - 1 } s.kernel length (-1))
    | some bytes =>
      match s.kernel.file e.fd with
      | some (.conn id) =>
        if hrecv : s.kernel.MayRecv id length bytes then
          if bytes = [] then
            -- `count == 0` is taken for the end of the stream.
            some { s.record e .recvCb length 0 [] with
              kernel := (s.kernel.ctlDel e.fd).close e.fd }
          else
            some (reply s e
              { item with
                rbuffer := item.rbuffer.write idx bytes (by have := hrecv.1; omega)
                rlen := item.rlen + bytes.length }
              (s.kernel.recv id bytes) length bytes.length)
        else none
      | some .listener => none
      | some .other => none
      | none => none
  else some (s.crash .length)

/-- `send_cb(fd)`. -/
def sendCb (s : State cfg) (e : Event) (count : ℤ) : Option (State cfg) :=
  let item := s.conn e.fd
  if 0 ≤ item.wlen ∧ item.wlen ≤ cfg.bufferLength then
    -- `wbuffer` is sent from its start, whatever an earlier `send` has accepted of it.
    let passed := item.wbuffer.read item.wlen.toNat
    -- What `send` returns is not looked at.
    if count = -1 then
      some { s.record e .sendCb item.wlen.toNat count passed with
        kernel := s.kernel.ctlMod e.fd .epollin }
    else
      match s.kernel.file e.fd with
      | some (.conn id) =>
        if 0 ≤ count ∧ count ≤ item.wlen then
          some { s.record e .sendCb item.wlen.toNat count passed with
            kernel := (s.kernel.send id (passed.take count.toNat)).ctlMod e.fd .epollin }
        else none
      | some .listener => none
      | some .other => none
      | none => none
  else some (s.crash .length)

/-- The callback that `main` calls for an event. -/
def callbackOf (s : State cfg) (e : Event) : Option RCallback :=
  match e.events with
  | .epollin => (s.conn e.fd).recvT
  | .epollout => (s.conn e.fd).sendCallback

/-- What a callback does when its system call returns what the action says. -/
def runCallback (s : State cfg) (e : Event) : RCallback → Action → Option (State cfg)
  | .acceptCb, .accept clientfd => acceptCb s e clientfd
  | .recvCb, .recv bytes => recvCb s e bytes
  | .sendCb, .send count => sendCb s e count
  | _, _ => none

/-- One pass of the loop of `main` over the events. -/
def handle (s : State cfg) (a : Action) : Option (State cfg) :=
  match s.batch with
  | [] => none
  -- The callback is looked up when the event is handled, not when it is reported.
  | e :: _ =>
    if e.fd < cfg.tableSize then
      match callbackOf s e with
      | none => some (s.crash .callback)
      | some callback => runCallback s e callback a
    else some (s.crash .index)

/-- A step of the system; there is none once something has gone wrong. -/
def step (s : State cfg) (a : Action) : Option (State cfg) :=
  if s.fault = none then
    match a with
    | .initServer sockfd => initServer s sockfd
    | .epollWait events => epollWait s events
    | .finish id => some { s with kernel := s.kernel.finish id }
    | .accept _ => handle s a
    | .recv _ => handle s a
    | .send _ => handle s a
  else none

end CPStudy.Epoll.Server
