import CPStudy.Epoll.Multiplex.Model

/-!
# The thread-per-client server of `multi-io.c`

`main` stores the result of `accept` in `clientfd` and starts a thread with the address of that
variable, which is the same in each pass of the loop. The first thing that a thread does is to read
the descriptor from there. A step is one such action of `main` or of a thread, or the peer of a
connection reaching the end of its stream; any number of threads run side by side.

A thread keeps the number of the connection whose descriptor it has read. The numbers, and the
lists `reads` and `closes`, are history; printing is left out. `pthread_create` may fail, which
`main` does not look at.
-/

namespace CPStudy.Epoll.ThreadPerClient

open Function (update)
open Multiplex (Listening bufSize)

/-- A descriptor with the number of the connection for which `accept` has returned it; -1 has
none. -/
structure Client where
  /-- `clientfd`. -/
  clientfd : ℤ
  /-- The connection. -/
  id : Option ℕ
deriving DecidableEq

/-- Where a thread stands. -/
inductive Thread
  /-- It does not exist. -/
  | unborn
  /-- At the beginning of `client_thread`. -/
  | started
  /-- Before `recv`. -/
  | receiving (client : Client)
  /-- Before `send`, with what `recv` has returned; `none` is -1. -/
  | sending (client : Client) (bytes : Option (List UInt8))
  /-- Before `close`. -/
  | closing (client : Client)
  /-- At its end. -/
  | returned
deriving DecidableEq

/-- The descriptor that a thread has read and not yet closed. -/
def Thread.client : Thread → Option Client
  | .unborn => none
  | .started => none
  | .receiving client => some client
  | .sending client _ => some client
  | .closing client => some client
  | .returned => none

/-- Where `main` stands. -/
inductive MainPc
  /-- Before `accept`. -/
  | accept
  /-- Before `pthread_create`. -/
  | create
deriving DecidableEq

/-- A call of `close`. -/
structure Close where
  /-- The connection whose descriptor the thread has read. -/
  id : Option ℕ
  /-- What the descriptor stands for. -/
  target : Option File
deriving DecidableEq

/-- The server and the kernel. -/
structure State where
  /-- `main`. -/
  main : MainPc
  /-- The kernel. -/
  kernel : Kernel
  /-- What `clientfd` holds. -/
  cell : Client
  /-- The threads, in the order in which they are created. -/
  thread : ℕ → Thread
  /-- The number of threads created so far. -/
  created : ℕ
  /-- The connections whose descriptors were read so far. -/
  reads : List (Option ℕ)
  /-- The calls of `close` so far. -/
  closes : List Close

/-- What happens next. -/
inductive Action
  /-- `accept` returns this. -/
  | accept (clientfd : ℤ)
  /-- `pthread_create` succeeds or fails. -/
  | create (success : Bool)
  /-- A thread reads `*(int *)arg`. -/
  | read (t : ℕ)
  /-- `recv` of a thread returns these bytes, or -1. -/
  | recv (t : ℕ) (result : Option (List UInt8))
  /-- `send` of a thread sends these bytes. -/
  | send (t : ℕ) (sent : List UInt8)
  /-- A thread calls `close`. -/
  | close (t : ℕ)
  /-- The peer of a connection reaches the end of its stream. -/
  | finish (id : ℕ)

/-- Before the loop; `clientfd` is not initialised. -/
def State.init (p : Listening) (garbage : ℤ) : State where
  main := .accept
  kernel := (Kernel.init p.others).listen p.sockfd
  cell := { clientfd := garbage, id := none }
  thread := fun _ => .unborn
  created := 0
  reads := []
  closes := []

/-- What a descriptor stands for. -/
def fileOf (k : Kernel) (fd : ℤ) : Option File := if fd < 0 then none else k.file fd.toNat

/-- `int clientfd = accept(sockfd, ...)`. -/
def accept (s : State) (clientfd : ℤ) : Option State :=
  match s.main with
  | .accept =>
    if clientfd < 0 then
      some { s with main := .create, cell := { clientfd := clientfd, id := none } }
    -- The kernel returns a descriptor that is not open.
    else if s.kernel.file clientfd.toNat = none then
      some { s with
        main := .create
        kernel := s.kernel.accept clientfd.toNat
        cell := { clientfd := clientfd, id := some s.kernel.accepted } }
    else none
  | .create => none

/-- `pthread_create(&thid, NULL, client_thread, &clientfd)`. -/
def create (s : State) (success : Bool) : Option State :=
  match s.main with
  | .accept => none
  | .create =>
    if success then
      some { s with
        main := .accept
        thread := update s.thread s.created .started
        created := s.created + 1 }
    else some { s with main := .accept }

/-- `int clientfd = *(int*)arg`. -/
def read (s : State) (t : ℕ) : Option State :=
  match s.thread t with
  | .started => some { s with
      thread := update s.thread t (.receiving s.cell)
      reads := s.reads ++ [s.cell.id] }
  | _ => none

/-- `recv(clientfd, buf, sizeof(buf), 0)`. -/
def recv (s : State) (t : ℕ) (result : Option (List UInt8)) : Option State :=
  match s.thread t with
  | .receiving client =>
    match fileOf s.kernel client.clientfd, result with
    | some (.conn id), some bytes =>
      if s.kernel.MayRecv id bufSize bytes then
        some { s with
          kernel := s.kernel.recv id bytes
          thread := update s.thread t
            -- `count == 0` ends the loop.
            (if bytes = [] then .closing client else .sending client (some bytes)) }
      else none
    | _, none => some { s with thread := update s.thread t (.sending client none) }
    | _, some _ => none
  | _ => none

/-- `send(clientfd, buf, count, 0)`. -/
def send (s : State) (t : ℕ) (sent : List UInt8) : Option State :=
  match s.thread t with
  | .sending client result =>
    match fileOf s.kernel client.clientfd with
    | some (.conn id) =>
      -- A `count` of -1 goes beyond `buf`.
      if ∀ bytes ∈ result, sent <+: bytes then
        some { s with
          kernel := s.kernel.send id sent
          thread := update s.thread t (.receiving client) }
      else none
    | _ => some { s with thread := update s.thread t (.receiving client) }
  | _ => none

/-- `close(clientfd)`. -/
def close (s : State) (t : ℕ) : Option State :=
  match s.thread t with
  | .closing client => some { s with
      kernel := if client.clientfd < 0 then s.kernel else s.kernel.close client.clientfd.toNat
      thread := update s.thread t .returned
      closes := s.closes ++ [{
        id := client.id
        target := fileOf s.kernel client.clientfd }] }
  | _ => none

/-- A step of the system. -/
def step (s : State) : Action → Option State
  | .accept clientfd => accept s clientfd
  | .create success => create s success
  | .read t => read s t
  | .recv t result => recv s t result
  | .send t sent => send s t sent
  | .close t => close s t
  | .finish id => some { s with kernel := s.kernel.finish id }

/-! ## What one step can do -/

/-- The changes a step can make. -/
inductive Effect (s : State) : Action → State → Prop
  /-- `accept` fails. -/
  | failed (clientfd : ℤ) (hmain : s.main = .accept) (hneg : clientfd < 0) :
      Effect s (.accept clientfd)
        { s with main := .create, cell := { clientfd := clientfd, id := none } }
  /-- A connection is accepted. -/
  | accepted (fd : ℕ) (hmain : s.main = .accept) (hfile : s.kernel.file fd = none) :
      Effect s (.accept fd) { s with
        main := .create
        kernel := s.kernel.accept fd
        cell := { clientfd := fd, id := some s.kernel.accepted } }
  /-- A thread is created. -/
  | created (hmain : s.main = .create) :
      Effect s (.create true) { s with
        main := .accept
        thread := update s.thread s.created .started
        created := s.created + 1 }
  /-- A thread is not created. -/
  | refused (hmain : s.main = .create) : Effect s (.create false) { s with main := .accept }
  /-- A thread reads `clientfd`. -/
  | read (t : ℕ) (ht : s.thread t = .started) :
      Effect s (.read t) { s with
        thread := update s.thread t (.receiving s.cell)
        reads := s.reads ++ [s.cell.id] }
  /-- A thread receives or sends, and keeps its descriptor. -/
  | moved (a : Action) (t : ℕ) (client : Client) (kernel : Kernel) (thread : Thread)
      (haccept : ∀ clientfd, a ≠ .accept clientfd) (hcreate : ∀ success, a ≠ .create success)
      (hfile : kernel.file = s.kernel.file) (haccepted : kernel.accepted = s.kernel.accepted)
      (ht : (s.thread t).client = some client) (hthread : thread.client = some client) :
      Effect s a { s with kernel := kernel, thread := update s.thread t thread }
  /-- A thread closes its descriptor. -/
  | closed (t : ℕ) (client : Client) (ht : s.thread t = .closing client) :
      Effect s (.close t) { s with
        kernel := if client.clientfd < 0 then s.kernel else s.kernel.close client.clientfd.toNat
        thread := update s.thread t .returned
        closes := s.closes ++ [{
          id := client.id
          target := fileOf s.kernel client.clientfd }] }
  /-- The peer of a connection reaches the end of its stream. -/
  | finished (id : ℕ) : Effect s (.finish id) { s with kernel := s.kernel.finish id }

variable {s s' : State}

/-- `accept`. -/
theorem effect_accept {clientfd : ℤ} (h : accept s clientfd = some s') :
    Effect s (.accept clientfd) s' := by
  unfold accept at h
  split at h
  case h_1 hmain =>
    split at h
    case isTrue hneg => exact Option.some.inj h ▸ .failed clientfd hmain hneg
    case isFalse hneg =>
      obtain ⟨hfile, h⟩ := Option.ite_none_right_eq_some.mp h
      obtain ⟨fd, rfl⟩ := Int.eq_ofNat_of_zero_le (not_lt.mp hneg)
      exact Option.some.inj h ▸ .accepted fd hmain hfile
  case h_2 => cases h

/-- `pthread_create`. -/
theorem effect_create {success : Bool} (h : create s success = some s') :
    Effect s (.create success) s' := by
  unfold create at h
  split at h
  case h_1 => cases h
  case h_2 hmain =>
    cases success with
    | true => exact Option.some.inj h ▸ .created hmain
    | false => exact Option.some.inj h ▸ .refused hmain

/-- `recv`. -/
theorem effect_recv {t : ℕ} {result : Option (List UInt8)} (h : recv s t result = some s') :
    Effect s (.recv t result) s' := by
  unfold recv at h
  split at h
  case h_1 client ht =>
    have hclient : (s.thread t).client = some client := by
      rw [ht]
      rfl
    split at h
    case h_1 id bytes hfile =>
      obtain ⟨-, h⟩ := Option.ite_none_right_eq_some.mp h
      refine Option.some.inj h ▸ .moved _ t client _ _ nofun nofun rfl rfl hclient ?_
      split <;> rfl
    case h_2 =>
      exact Option.some.inj h ▸ .moved _ t client s.kernel _ nofun nofun rfl rfl hclient rfl
    case h_3 => cases h
  case h_2 => cases h

/-- `send`. -/
theorem effect_send {t : ℕ} {sent : List UInt8} (h : send s t sent = some s') :
    Effect s (.send t sent) s' := by
  unfold send at h
  split at h
  case h_1 client result ht =>
    have hclient : (s.thread t).client = some client := by
      rw [ht]
      rfl
    split at h
    case h_1 id hfile =>
      obtain ⟨-, h⟩ := Option.ite_none_right_eq_some.mp h
      exact Option.some.inj h ▸ .moved _ t client _ _ nofun nofun rfl rfl hclient rfl
    case h_2 =>
      exact Option.some.inj h ▸ .moved _ t client s.kernel _ nofun nofun rfl rfl hclient rfl
  case h_2 => cases h

/-- Every step has one of the effects. -/
theorem effect_of_step {a : Action} (h : step s a = some s') : Effect s a s' := by
  cases a with
  | accept clientfd => exact effect_accept h
  | create success => exact effect_create h
  | read t =>
    unfold step read at h
    dsimp only at h
    split at h
    case h_1 ht => exact Option.some.inj h ▸ .read t ht
    case h_2 => cases h
  | recv t result => exact effect_recv h
  | send t sent => exact effect_send h
  | close t =>
    unfold step close at h
    dsimp only at h
    split at h
    case h_1 client ht => exact Option.some.inj h ▸ .closed t client ht
    case h_2 => cases h
  | finish id => exact Option.some.inj h ▸ .finished id

/-- A state that some run reaches each of whose steps is allowed by `ok`. -/
def ReachableIf (p : Listening) (garbage : ℤ) (ok : State → Action → Prop) (s : State) : Prop :=
  Lib.Reaches step ok (State.init p garbage) s

/-- A list of actions shows a state that some run reaches. -/
theorem exists_reachable (p : Listening) (garbage : ℤ) (ok : State → Action → Prop)
    [∀ s a, Decidable (ok s a)] (as : List Action) (q : State → Prop) [DecidablePred q]
    (h : (Lib.replay step (fun s a => decide (ok s a)) (State.init p garbage) as).any
      (fun s => decide (q s)) = true) : ∃ s, ReachableIf p garbage ok s ∧ q s := by
  obtain ⟨s, hs, hq⟩ := Lib.exists_reaches step (fun s a => decide (ok s a))
    (State.init p garbage) as (fun s => decide (q s)) h
  exact ⟨s, hs.mono fun _ _ hok => of_decide_eq_true hok, of_decide_eq_true hq⟩

end CPStudy.Epoll.ThreadPerClient
