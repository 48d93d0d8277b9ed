import CPStudy.Epoll.Server.Model

/-!
# What one step of the callback servers can do

`Effect s a s'` lists the changes that the step `a` can make, with what the code and the kernel have
tested before each, and `Crash s a` the ways in which its behaviour is undefined. `effect_of_step`
is the one place where the step function is unfolded; every invariant is proved by cases on the
effect.
-/

namespace CPStudy.Epoll.Server

open Function (update)

variable {cfg : Config}

/-- The next event is `e`, and `main` calls the callback for it. -/
structure Next (s : State cfg) (e : Event) (callback : RCallback) : Prop where
  /-- The event is the first of the batch. -/
  batch : s.batch = e :: s.batch.tail
  /-- Its descriptor lies in `connlist`. -/
  fd : e.fd < cfg.tableSize
  /-- The callback. -/
  callback : callbackOf s e = some callback

/-- The next event stands at the head of the batch. -/
theorem Next.head? {s : State cfg} {e : Event} {callback : RCallback} (h : Next s e callback) :
    s.batch.head? = some e := by
  rw [h.batch]
  rfl

/-- The length that `recv_cb` passes to `recv`. -/
def recvLength (s : State cfg) (fd : ℕ) : ℕ := cfg.bufferLength - (s.conn fd).rlen.toNat

/-- The bytes that `send_cb` passes to `send`. -/
def sendBytes (s : State cfg) (fd : ℕ) : List UInt8 :=
  (s.conn fd).wbuffer.read (s.conn fd).wlen.toNat

/-- The ways in which the behaviour of a step is undefined. -/
inductive Crash (s : State cfg) : Action → Prop
  /-- `connlist[sockfd]` is out of range. -/
  | port (sockfd : ℤ) (h : sockfd < 0 ∨ cfg.tableSize ≤ sockfd.toNat) :
      Crash s (.initServer sockfd)
  /-- `connlist[clientfd]` is out of range. -/
  | client (clientfd : ℤ) (h0 : 0 ≤ clientfd) (h : cfg.tableSize ≤ clientfd.toNat) :
      Crash s (.accept clientfd)
  /-- `connlist[connfd]` is out of range. -/
  | index (a : Action) (e : Event) (he : e ∈ s.batch) (h : cfg.tableSize ≤ e.fd) : Crash s a
  /-- The callback is a null pointer. -/
  | callback (a : Action) (e : Event) (he : e ∈ s.batch) (h : callbackOf s e = none) : Crash s a
  /-- A length of the entry is out of range. -/
  | range (a : Action) (fd : ℕ) (h : ¬(s.conn fd).InRange) : Crash s a
  /-- `recv` has returned -1, and `recv_cb` leaves a buffer after `rlen += count`. -/
  | error (e : Event) (hnext : Next s e .recvCb) : Crash s (.recv none)
  /-- `recv_cb` leaves a buffer after data. -/
  | respond (a : Action) (item : ConnItem cfg.bufferLength) (hrange : item.InRange)
      (h : cfg.respond item = none) : Crash s a

/-- The changes a step can make. -/
inductive Effect (s : State cfg) : Action → State cfg → Prop
  /-- The behaviour is undefined. -/
  | crash (a : Action) (fault : Fault) (h : Crash s a) : Effect s a (s.crash fault)
  /-- `main` returns. -/
  | returned (sockfd : ℤ) : Effect s (.initServer sockfd) { s with main := .returned }
  /-- A listening socket is opened. -/
  | opened (sockfd : ℤ) (left fd : ℕ) (hmain : s.main = .opening (left + 1))
      (hfd : fd < cfg.tableSize) (hfile : s.kernel.file fd = none) :
      Effect s (.initServer sockfd) { s with
        main := .opening left
        kernel := (s.kernel.listen fd).ctlAdd fd .epollin
        conn := update s.conn fd { s.conn fd with fd := fd, recvT := some .acceptCb } }
  /-- `epoll_wait` returns events. -/
  | waited (events : List (ℕ × Interest)) (hmain : s.main = .opening 0) (hbatch : s.batch = [])
      (hlength : events.length ≤ maxEvents) (hnodup : (events.map Prod.fst).Nodup)
      (hevents : ∀ e ∈ events, s.kernel.interest e.1 = some e.2) :
      Effect s (.epollWait events) { s with batch := events.map fun e =>
        { fd := e.1, events := e.2, file := s.kernel.file e.1 } }
  /-- The peer of a connection reaches the end of its stream. -/
  | finished (id : ℕ) : Effect s (.finish id) { s with kernel := s.kernel.finish id }
  /-- `accept` returns -1. -/
  | acceptFailed (e : Event) (clientfd : ℤ) (hnext : Next s e .acceptCb) (hneg : clientfd < 0) :
      Effect s (.accept clientfd) (s.record e .acceptCb 0 clientfd [])
  /-- `accept` returns a new connection. -/
  | accepted (e : Event) (clientfd : ℤ) (fd : ℕ) (hnext : Next s e .acceptCb)
      (hfd : fd < cfg.tableSize) (hlistener : s.kernel.file e.fd = some .listener)
      (hfile : s.kernel.file fd = none) :
      Effect s (.accept clientfd) { s.record e .acceptCb 0 clientfd [] with
        kernel := (s.kernel.accept fd).ctlAdd fd .epollin
        conn := update s.conn fd (ConnItem.accepted cfg.bufferLength fd) }
  /-- `recv` returns -1. -/
  | recvFailed (e : Event) (item : ConnItem cfg.bufferLength) (hnext : Next s e .recvCb)
      (hitem : cfg.respond { s.conn e.fd with rlen := (s.conn e.fd).rlen - 1 } = some item) :
      Effect s (.recv none)
        { s.record e .recvCb (recvLength s e.fd) (-1) (item.wbuffer.read item.wlen.toNat) with
          kernel := s.kernel.ctlMod e.fd .epollout
          conn := update s.conn e.fd item }
  /-- `recv` returns 0, and the descriptor is closed. -/
  | recvClosed (e : Event) (id : ℕ) (hnext : Next s e .recvCb)
      (hfile : s.kernel.file e.fd = some (.conn id))
      (hrecv : s.kernel.MayRecv id (recvLength s e.fd) []) :
      Effect s (.recv (some [])) { s.record e .recvCb (recvLength s e.fd) 0 [] with
        kernel := (s.kernel.ctlDel e.fd).close e.fd }
  /-- `recv` returns bytes. -/
  | received (e : Event) (id : ℕ) (bytes : List UInt8) (item : ConnItem cfg.bufferLength)
      (hnext : Next s e .recvCb) (hfile : s.kernel.file e.fd = some (.conn id))
      (hrlen : 0 ≤ (s.conn e.fd).rlen ∧ (s.conn e.fd).rlen ≤ cfg.bufferLength)
      (hrecv : s.kernel.MayRecv id (recvLength s e.fd) bytes) (hne : bytes ≠ [])
      (hfits : (s.conn e.fd).rlen.toNat + bytes.length ≤ cfg.bufferLength)
      (hitem : cfg.respond { s.conn e.fd with
        rbuffer := (s.conn e.fd).rbuffer.write (s.conn e.fd).rlen.toNat bytes hfits
        rlen := (s.conn e.fd).rlen + bytes.length } = some item) :
      Effect s (.recv (some bytes))
        { s.record e .recvCb (recvLength s e.fd) bytes.length
            (item.wbuffer.read item.wlen.toNat) with
          kernel := (s.kernel.recv id bytes).ctlMod e.fd .epollout
          conn := update s.conn e.fd item }
  /-- `send` returns -1. -/
  | sendFailed (e : Event) (hnext : Next s e .sendCb)
      (hwlen : 0 ≤ (s.conn e.fd).wlen ∧ (s.conn e.fd).wlen ≤ cfg.bufferLength) :
      Effect s (.send (-1))
        { s.record e .sendCb (s.conn e.fd).wlen.toNat (-1) (sendBytes s e.fd) with
          kernel := s.kernel.ctlMod e.fd .epollin }
  /-- `send` accepts bytes. -/
  | sent (e : Event) (id : ℕ) (count : ℤ) (hnext : Next s e .sendCb)
      (hfile : s.kernel.file e.fd = some (.conn id))
      (hwlen : 0 ≤ (s.conn e.fd).wlen ∧ (s.conn e.fd).wlen ≤ cfg.bufferLength)
      (hcount : 0 ≤ count ∧ count ≤ (s.conn e.fd).wlen) :
      Effect s (.send count)
        { s.record e .sendCb (s.conn e.fd).wlen.toNat count (sendBytes s e.fd) with
          kernel := (s.kernel.send id ((sendBytes s e.fd).take count.toNat)).ctlMod e.fd .epollin }

variable {s s' : State cfg}

/-- `init_server` in the loop over the ports. -/
theorem effect_initServer {sockfd : ℤ} (h : initServer s sockfd = some s') :
    Effect s (.initServer sockfd) s' := by
  unfold initServer at h
  split at h
  case h_1 left hmain =>
    split at h
    case isTrue hneg =>
      split at h
      case isTrue => exact Option.some.inj h ▸ .returned sockfd
      case isFalse => exact Option.some.inj h ▸ .crash _ _ (.port sockfd (.inl hneg))
    case isFalse hneg =>
      dsimp only at h
      split at h
      case isTrue hfile =>
        split at h
        case isTrue hfd => exact Option.some.inj h ▸ .opened sockfd left _ hmain hfd hfile
        case isFalse hfd =>
          exact Option.some.inj h ▸ .crash _ _ (.port sockfd (.inr (Nat.le_of_not_lt hfd)))
      case isFalse => cases h
  all_goals cases h

/-- `accept_cb`. -/
theorem effect_acceptCb {e : Event} {clientfd : ℤ} (hnext : Next s e .acceptCb)
    (h : acceptCb s e clientfd = some s') : Effect s (.accept clientfd) s' := by
  unfold acceptCb at h
  split at h
  case isTrue hneg => exact Option.some.inj h ▸ .acceptFailed e clientfd hnext hneg
  case isFalse hneg =>
    dsimp only at h
    split at h
    case isTrue hfile =>
      split at h
      case isTrue hfd =>
        exact Option.some.inj h ▸ .accepted e clientfd _ hnext hfd hfile.1 hfile.2
      case isFalse hfd =>
        have hcrash : Crash s (.accept clientfd) :=
          .client clientfd (by omega) (Nat.le_of_not_lt hfd)
        exact Option.some.inj h ▸ .crash _ _ hcrash
    case isFalse => cases h

/-- `recv_cb`. -/
theorem effect_recvCb {e : Event} {result : Option (List UInt8)} (hnext : Next s e .recvCb)
    (h : recvCb s e result = some s') : Effect s (.recv result) s' := by
  unfold recvCb at h
  dsimp only at h
  split at h
  case isFalse hrange =>
    exact Option.some.inj h ▸ .crash _ _ (.range _ e.fd fun hr => hrange hr.rlen)
  case isTrue hrange =>
    cases result with
    | none =>
      rw [← Option.some.inj h]
      -- `recv` has returned -1: the entry has lost a byte before `recv_cb` responds.
      unfold reply
      split
      case h_1 hitem => exact .crash _ _ (.error e hnext)
      case h_2 item hitem => exact .recvFailed e item hnext hitem
    | some bytes =>
      dsimp only at h
      split at h
      case h_1 id hfile =>
        split at h
        case isTrue hrecv =>
          split at h
          case isTrue hnil =>
            subst hnil
            exact Option.some.inj h ▸ .recvClosed e id hnext hfile hrecv
          case isFalse hne =>
            rw [← Option.some.inj h]
            unfold reply
            split
            case h_1 hitem =>
              by_cases hin : (s.conn e.fd).InRange
              · -- The lengths are still within the buffers when `recv_cb` responds.
                refine .crash _ _ (.respond _ _ ?_ hitem)
                have hlength := hrecv.1
                refine ⟨?_, hin.wlen⟩
                dsimp only
                omega
              · exact .crash _ _ (.range _ e.fd hin)
            case h_2 item hitem =>
              exact .received e id bytes item hnext hfile hrange hrecv hne _ hitem
        case isFalse => cases h
      all_goals cases h

/-- `send_cb`. -/
theorem effect_sendCb {e : Event} {count : ℤ} (hnext : Next s e .sendCb)
    (h : sendCb s e count = some s') : Effect s (.send count) s' := by
  unfold sendCb at h
  dsimp only at h
  split at h
  case isFalse hrange =>
    exact Option.some.inj h ▸ .crash _ _ (.range _ e.fd fun hr => hrange hr.wlen)
  case isTrue hrange =>
    split at h
    case isTrue hneg =>
      subst hneg
      exact Option.some.inj h ▸ .sendFailed e hnext hrange
    case isFalse =>
      split at h
      case h_1 id hfile =>
        split at h
        case isTrue hcount =>
          exact Option.some.inj h ▸ .sent e id count hnext hfile hrange hcount
        case isFalse => cases h
      all_goals cases h

/-- The handling of one event. -/
theorem effect_handle {a : Action} (h : handle s a = some s') : Effect s a s' := by
  unfold handle at h
  split at h
  case h_1 => cases h
  case h_2 e rest hbatch =>
    have hmem : e ∈ s.batch := by rw [hbatch]; exact List.mem_cons_self ..
    split at h
    case isTrue hfd =>
      split at h
      case h_1 hcallback =>
        exact Option.some.inj h ▸ .crash _ _ (.callback a e hmem hcallback)
      case h_2 callback hcallback =>
        -- A callback runs only where the action returns from its own system call.
        have hnext : Next s e callback := ⟨by rw [hbatch]; rfl, hfd, hcallback⟩
        unfold runCallback at h
        split at h
        case h_1 clientfd => exact effect_acceptCb hnext h
        case h_2 bytes => exact effect_recvCb hnext h
        case h_3 count => exact effect_sendCb hnext h
        case h_4 => cases h
    case isFalse hfd =>
      exact Option.some.inj h ▸ .crash _ _ (.index a e hmem (Nat.le_of_not_lt hfd))

/-- Every step starts in a state in which nothing has gone wrong, and has one of the effects. -/
theorem effect_of_step {a : Action} (h : step s a = some s') : s.fault = none ∧ Effect s a s' := by
  unfold step at h
  split at h
  case isFalse => cases h
  case isTrue hfault =>
    refine ⟨hfault, ?_⟩
    cases a with
    | initServer sockfd => exact effect_initServer h
    | epollWait events =>
      obtain ⟨⟨hmain, hbatch, hlength, hnodup, hevents⟩, h⟩ := Option.ite_none_right_eq_some.mp h
      exact Option.some.inj h ▸ .waited events hmain hbatch hlength hnodup hevents
    | finish id => exact Option.some.inj h ▸ .finished id
    | accept clientfd => exact effect_handle h
    | recv bytes => exact effect_handle h
    | send count => exact effect_handle h

/-- A state that some run reaches each of whose steps is allowed by `ok`. -/
def ReachableIf (others : ℕ → Bool) (ok : State cfg → Action → Prop) (s : State cfg) : Prop :=
  Lib.Reaches step ok (State.init cfg others) s

/-- A state that some run of the server reaches. -/
def Reachable (others : ℕ → Bool) (s : State cfg) : Prop :=
  ReachableIf others (fun _ _ => True) s

variable {others : ℕ → Bool} {ok : State cfg → Action → Prop}

/-- A run under a discipline is a run. -/
theorem ReachableIf.reachable (h : ReachableIf others ok s) : Reachable others s :=
  Lib.Reaches.mono (fun _ _ _ => trivial) h

/-- What every effect preserves from the initial state holds in every reachable state. -/
theorem Reachable.invariant (I : State cfg → Prop) (hs : Reachable others s)
    (h0 : I (State.init cfg others)) (hI : ∀ t a u, I t → Effect t a u → I u) : I s :=
  Lib.Reaches.invariant h0 (fun t a u ht _ hstep => hI t a u ht (effect_of_step hstep).2) hs

/-- A list of actions shows a state that some run reaches. -/
theorem exists_reachable (others : ℕ → Bool) (ok : State cfg → Action → Prop)
    [∀ s a, Decidable (ok s a)] (as : List Action) (p : State cfg → Prop) [DecidablePred p]
    (h : (Lib.replay step (fun s a => decide (ok s a)) (State.init cfg others) as).any
      (fun s => decide (p s)) = true) : ∃ s, ReachableIf others ok s ∧ p s := by
  obtain ⟨s, hs, hp⟩ := Lib.exists_reaches step (fun s a => decide (ok s a)) (State.init cfg others)
    as (fun s => decide (p s)) h
  exact ⟨s, hs.mono fun _ _ hok => of_decide_eq_true hok, of_decide_eq_true hp⟩

end CPStudy.Epoll.Server
