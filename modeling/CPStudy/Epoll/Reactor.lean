import Mathlib.Tactic.Ring
import CPStudy.Epoll.Server.Dispatch

/-!
# The echo server of `reactor.c`

`recv_cb` copies what it has received to `wbuffer` and empties `rbuffer`, so that `send_cb` sends it
back. `dispatch_of_run` says that the events of every run reach the connections they are for, and
that nothing goes wrong. `echo_of_fullSend` says when the server echoes: `send_cb` takes it that
`send` accepts all that it is passed, so that what the peer gets is what it has sent as long as this
is so, and never again after the first `send` that accepts less.

For the latter a connection is owed the bytes that `recv_cb` has left for it. `ledger_of_effect`
says what a step does to the bytes received, sent and owed on one connection, and both directions
follow from it.
-/

namespace CPStudy.Epoll.Reactor

open Function (update)
open Server

/-- The end of `recv_cb`: `wbuffer` becomes a copy of what is in `rbuffer`, and `rlen` becomes 0. -/
def echo (item : ConnItem 512) : Option (ConnItem 512) :=
  if h : 0 ≤ item.rlen ∧ item.rlen ≤ 512 then
    some { item with
      wbuffer := item.wbuffer.copy item.rbuffer item.rlen.toNat (by omega)
      wlen := item.rlen
      rlen := 0 }
  else none

/-- What `echo` makes of an entry. -/
theorem echo_spec {item item' : ConnItem 512} (h : echo item = some item') :
    (0 ≤ item.rlen ∧ item.rlen ≤ 512) ∧ item'.rlen = 0 ∧ item'.wlen = item.rlen ∧
      item'.wbuffer.read item'.wlen.toNat = item.rbuffer.read item.rlen.toNat := by
  unfold echo at h
  split at h
  case isTrue hrange =>
    obtain rfl := Option.some.inj h
    have hfits : item.rlen.toNat ≤ 512 := by omega
    exact ⟨hrange, rfl, rfl, Lib.Buffer.read_copy _ _ hfits⟩
  case isFalse => cases h

/-- With an empty `rbuffer` it is what `recv` returns that comes to stand in `wbuffer`. -/
theorem echo_received {item item' : ConnItem 512} {bytes : List UInt8} (h0 : item.rlen = 0)
    (hfits : item.rlen.toNat + bytes.length ≤ 512)
    (h : echo { item with
      rbuffer := item.rbuffer.write item.rlen.toNat bytes hfits
      rlen := item.rlen + bytes.length } = some item') :
    item'.wbuffer.read item'.wlen.toNat = bytes := by
  have hlength : item.rlen.toNat + bytes.length = (item.rlen + bytes.length).toNat := by omega
  obtain ⟨-, -, -, hread⟩ := echo_spec h
  rw [hread]
  dsimp only
  rw [Lib.Buffer.read_write _ hfits hlength, h0]
  rfl

/-- `BUFFER_LENGTH`, the size of `connlist`, `port_count` and the end of `recv_cb`. -/
def config : Config where
  bufferLength := 512
  tableSize := 1048576
  ports := 20
  exitsOnBindError := false
  respond := echo
  respond_callbacks := fun item item' h => by
    unfold echo at h
    split at h
    case isTrue =>
      obtain rfl := Option.some.inj h
      exact ⟨rfl, rfl⟩
    case isFalse => cases h
  respond_inRange := fun item h => by
    obtain ⟨hlo, hhi⟩ := h.rlen
    unfold echo
    rw [dif_pos ⟨hlo, hhi⟩]
    exact ⟨_, rfl, ⟨le_rfl, Int.natCast_nonneg 512⟩, ⟨hlo, hhi⟩⟩

variable {others : ℕ → Bool} {s s' : State config} {e : Event} {a : Action} {id : ℕ}

/-- In every run each event is handled on the file for which it was reported, `accept_cb` handles
the listening sockets and `recv_cb` and `send_cb` alternate on each connection. Nothing goes wrong
where `init_server` succeeds, descriptors stay below the size of `connlist` and `recv` does not
return -1. -/
theorem dispatch_of_run (hs : Reachable others s) :
    Dispatched s ∧ (ReachableIf others WellBehaved s → s.fault = none) :=
  ⟨dispatched_of_reachable hs, fault_eq_none⟩

/-- The listening sockets are opened, the first of them with this descriptor. -/
def opening (fd : ℕ) : List Action :=
  (List.range config.ports).map fun i => .initServer (fd + i)

/-- A client is accepted, gets an answer and leaves; in the batch in which it is closed another
one is accepted with its descriptor. -/
def reusedRun (listener client : ℕ) (bytes : List UInt8) : List Action :=
  opening listener ++
    [.epollWait [(listener, .epollin)], .accept client,
      .epollWait [(client, .epollin)], .recv (some bytes),
      .epollWait [(client, .epollout)], .send bytes.length, .finish 0,
      .epollWait [(client, .epollin), (listener, .epollin)], .recv (some []), .accept client]

/-- A run in which a descriptor is closed and opened again within a batch. -/
theorem dispatch_of_run_reused : ∃ s : State config, s.kernel.file 24 = some (.conn 1) ∧
    s.calls.length = 5 ∧ s.fault = none ∧ Dispatched s := by
  obtain ⟨s, hs, hfile, hcalls⟩ := exists_reachable (fun fd => decide (fd < 4)) WellBehaved
    (reusedRun 4 24 [97, 98])
    (fun s : State config => s.kernel.file 24 = some (.conn 1) ∧ s.calls.length = 5)
    (by decide +kernel)
  obtain ⟨hdispatched, hfault⟩ := dispatch_of_run hs.reachable
  exact ⟨s, hfile, hcalls, hfault hs, hdispatched⟩

/-! ## What is received, sent and owed -/

/-- It is `send_cb`'s turn on a connection. -/
structure Due (s : State config) (fd id : ℕ) : Prop where
  /-- Its descriptor. -/
  file : s.kernel.file fd = some (.conn id)
  /-- Its interest set. -/
  interest : s.kernel.interest fd = some .epollout

/-- The bytes in `wbuffer` that are still to be sent on a connection. -/
inductive Owed (s : State config) (id : ℕ) : List UInt8 → Prop
  /-- What `send_cb` will pass to `send`. -/
  | due {fd : ℕ} (h : Due s fd id) : Owed s id (sendBytes s fd)
  /-- None, when it is not `send_cb`'s turn. -/
  | nothing (h : ∀ fd, ¬Due s fd id) : Owed s id []

/-- What was sent on a connection and what is owed to it is what was received on it. -/
def Echo (s : State config) : Prop :=
  ∀ id owed, Owed s id owed → s.kernel.sent id ++ owed = s.kernel.received id

/-- Bytes of a connection are lost. -/
def Lost (s : State config) (id : ℕ) : Prop :=
  ∀ owed, Owed s id owed →
    (s.kernel.sent id).length + owed.length < (s.kernel.received id).length

/-- `send` accepts all the bytes that `send_cb` passes to it; it accepts none where it returns
-1. -/
def FullSend (s : State config) : Action → Prop
  | .send count => ∀ e ∈ s.batch.head?, count.toNat = (s.conn e.fd).wlen.toNat
  | .initServer _ => True
  | .epollWait _ => True
  | .accept _ => True
  | .recv _ => True
  | .finish _ => True

instance (s : State config) (a : Action) : Decidable (FullSend s a) :=
  match a with
  | .send count =>
    inferInstanceAs (Decidable (∀ e ∈ s.batch.head?, count.toNat = (s.conn e.fd).wlen.toNat))
  | .initServer _ => inferInstanceAs (Decidable True)
  | .epollWait _ => inferInstanceAs (Decidable True)
  | .accept _ => inferInstanceAs (Decidable True)
  | .recv _ => inferInstanceAs (Decidable True)
  | .finish _ => inferInstanceAs (Decidable True)

/-- Something is owed, or nothing. -/
theorem exists_owed (s : State config) (id : ℕ) : ∃ owed, Owed s id owed := by
  by_cases h : ∃ fd, Due s fd id
  · obtain ⟨fd, h⟩ := h
    exact ⟨_, .due h⟩
  · exact ⟨[], .nothing fun fd hd => h ⟨fd, hd⟩⟩

/-- Where bytes are lost the server does not echo. -/
theorem Lost.not_echo (h : Lost s id) : ¬Echo s := by
  intro hecho
  obtain ⟨owed, howed⟩ := exists_owed s id
  have hlt := h owed howed
  have heq := congrArg List.length (hecho id owed howed)
  rw [List.length_append] at heq
  omega

/-- What a step does to the bytes of one connection. -/
inductive Ledger (s : State config) (a : Action) (s' : State config) (id : ℕ)
    (owed owed' : List UInt8) : Prop
  /-- Nothing. -/
  | same (hsent : s'.kernel.sent id = s.kernel.sent id)
      (hreceived : s'.kernel.received id = s.kernel.received id) (howed : owed' = owed)
  /-- What is received is owed. -/
  | received (hsent : s'.kernel.sent id = s.kernel.sent id)
      (hreceived : s'.kernel.received id = s.kernel.received id ++ owed') (howed : owed = [])
  /-- What `send` accepts of what is owed is sent, and nothing is owed any more. -/
  | sent (count : ℕ) (hsent : s'.kernel.sent id = s.kernel.sent id ++ owed.take count)
      (hreceived : s'.kernel.received id = s.kernel.received id) (howed : owed' = [])
      (hfull : FullSend s a → count = owed.length)

/-- What `echo` leaves. -/
theorem echo_lengths {item item' : ConnItem 512} (h : echo item = some item') :
    item'.rlen = 0 ∧ item'.InRange := by
  obtain ⟨hrange, hrlen, hwlen, -⟩ := echo_spec h
  refine ⟨hrlen, ⟨?_, ?_⟩⟩
  · rw [hrlen]
    exact ⟨le_rfl, Int.natCast_nonneg 512⟩
  · rw [hwlen]
    exact hrange

/-- Whenever a callback is called `rlen` is 0 and `wlen` is within `wbuffer`. -/
theorem lengths_of_reachable (hs : Reachable others s) (fd : ℕ) :
    (s.conn fd).rlen = 0 ∧ (s.conn fd).InRange := by
  refine hs.invariant (fun t : State config => ∀ fd, (t.conn fd).rlen = 0 ∧ (t.conn fd).InRange)
    (fun _ => ⟨rfl, inRange_zero _⟩) (fun t a u h he => ?_) fd
  -- `recv_cb` leaves what `echo` leaves, whatever `recv` has returned.
  exact entries_step (P := fun item => item.rlen = 0 ∧ item.InRange) h
    (fun _ _ hitem => ⟨hitem.1, ⟨hitem.2.rlen, hitem.2.wlen⟩⟩)
    (fun _ => ⟨rfl, ⟨(inRange_zero _).rlen, (inRange_zero _).wlen⟩⟩)
    (fun _ _ _ _ hitem => echo_lengths hitem) (fun _ _ _ _ _ hitem => echo_lengths hitem) he

/-- A step that does nothing on a connection. -/
theorem ledger_same {owed' : List UInt8} (hdue : ∀ fd, Due s' fd id ↔ Due s fd id)
    (hconn : ∀ fd, Due s fd id → s'.conn fd = s.conn fd)
    (hsent : s'.kernel.sent id = s.kernel.sent id)
    (hreceived : s'.kernel.received id = s.kernel.received id) (howed : Owed s' id owed') :
    ∃ owed, Owed s id owed ∧ Ledger s a s' id owed owed' := by
  refine ⟨owed', ?_, .same hsent hreceived rfl⟩
  cases howed with
  | @due fd h =>
    have hold := (hdue fd).mp h
    have hbytes : sendBytes s' fd = sendBytes s fd := by
      unfold sendBytes
      rw [hconn fd hold]
    rw [hbytes]
    exact .due hold
  | nothing h => exact .nothing fun fd hd => h fd ((hdue fd).mpr hd)

/-- A step that leaves the descriptors, the interest sets and `connlist` alone. -/
theorem ledger_congr {owed' : List UInt8} (hfile : s'.kernel.file = s.kernel.file)
    (hinterest : s'.kernel.interest = s.kernel.interest) (hconn : s'.conn = s.conn)
    (hsent : s'.kernel.sent = s.kernel.sent) (hreceived : s'.kernel.received = s.kernel.received)
    (howed : Owed s' id owed') : ∃ owed, Owed s id owed ∧ Ledger s a s' id owed owed' := by
  refine ledger_same (fun fd => ⟨fun h => ⟨?_, ?_⟩, fun h => ⟨?_, ?_⟩⟩) (fun fd _ => ?_) ?_ ?_ howed
  · rw [← hfile]; exact h.file
  · rw [← hinterest]; exact h.interest
  · rw [hfile]; exact h.file
  · rw [hinterest]; exact h.interest
  · rw [hconn]
  · rw [hsent]
  · rw [hreceived]

/-- A step on one descriptor, which is not that of the connection when `send_cb` is due there. -/
theorem ledger_other (fd : ℕ) {owed' : List UInt8}
    (hother : ∀ fd', fd' ≠ fd → s'.kernel.file fd' = s.kernel.file fd' ∧
      s'.kernel.interest fd' = s.kernel.interest fd' ∧ s'.conn fd' = s.conn fd')
    (hdue : ¬Due s fd id) (hdue' : ¬Due s' fd id) (hsent : s'.kernel.sent id = s.kernel.sent id)
    (hreceived : s'.kernel.received id = s.kernel.received id) (howed : Owed s' id owed') :
    ∃ owed, Owed s id owed ∧ Ledger s a s' id owed owed' := by
  refine ledger_same (fun fd' => ?_) (fun fd' h => ?_) hsent hreceived howed
  · rcases eq_or_ne fd' fd with rfl | hne
    · exact ⟨fun h => absurd h hdue', fun h => absurd h hdue⟩
    · obtain ⟨hfile, hinterest, -⟩ := hother fd' hne
      constructor
      · intro h
        exact ⟨hfile ▸ h.file, hinterest ▸ h.interest⟩
      · intro h
        exact ⟨hfile.trans h.file, hinterest.trans h.interest⟩
  -- Where `send_cb` is due it is not on this descriptor, so its `wbuffer` is as it was.
  · have hne : fd' ≠ fd := by
      rintro rfl
      exact hdue h
    exact (hother fd' hne).2.2

/-- Nothing is due on a descriptor that is not open. -/
theorem not_due_of_closed {fd : ℕ} (hfile : s.kernel.file fd = none) : ¬Due s fd id := by
  intro h
  have hopen := h.file
  rw [hfile] at hopen
  cases hopen

/-- Nothing is due on a descriptor whose interest set is `EPOLLIN`. -/
theorem not_due_of_in {fd : ℕ} (hev : s.kernel.interest fd = some .epollin) : ¬Due s fd id := by
  intro h
  have hout := h.interest
  rw [hev] at hout
  cases hout

/-- A descriptor is opened. -/
theorem ledger_opened {fd : ℕ} {f : File} {item : ConnItem config.bufferLength}
    {owed' : List UInt8} (hnone : s.kernel.file fd = none)
    (hfile : s'.kernel.file = update s.kernel.file fd (some f))
    (hinterest : s'.kernel.interest = update s.kernel.interest fd (some .epollin))
    (hconn : s'.conn = update s.conn fd item) (hsent : s'.kernel.sent = s.kernel.sent)
    (hreceived : s'.kernel.received = s.kernel.received) (howed : Owed s' id owed') :
    ∃ owed, Owed s id owed ∧ Ledger s a s' id owed owed' := by
  refine ledger_other fd (fun fd' hne => ⟨?_, ?_, ?_⟩) (not_due_of_closed hnone)
    (not_due_of_in ?_) ?_ ?_ howed
  · rw [hfile, Function.update_of_ne hne]
  · rw [hinterest, Function.update_of_ne hne]
  · rw [hconn, Function.update_of_ne hne]
  · rw [hinterest, Function.update_self]
  · rw [hsent]
  · rw [hreceived]

/-- A step on the descriptor of one connection, seen from another. -/
theorem ledger_elsewhere {id₀ : ℕ} {owed' : List UInt8}
    (hfile : s.kernel.file e.fd = some (.conn id₀)) (hid : id ≠ id₀)
    (hfile' : s'.kernel.file = s.kernel.file)
    (hother : ∀ fd, fd ≠ e.fd → s'.kernel.interest fd = s.kernel.interest fd ∧
      s'.conn fd = s.conn fd)
    (hsent : s'.kernel.sent id = s.kernel.sent id)
    (hreceived : s'.kernel.received id = s.kernel.received id) (howed : Owed s' id owed') :
    ∃ owed, Owed s id owed ∧ Ledger s a s' id owed owed' := by
  refine ledger_other e.fd (fun fd hne => ⟨by rw [hfile'], hother fd hne⟩)
    (fun h => hid ?_) (fun h => hid ?_) hsent hreceived howed
  · have hf := h.file
    rw [hfile] at hf
    exact (File.conn.inj (Option.some.inj hf)).symm
  · have hf := h.file
    rw [hfile', hfile] at hf
    exact (File.conn.inj (Option.some.inj hf)).symm

/-- `recv_cb` runs on one connection and gets data. -/
theorem ledger_recv (htable : Table s) (hnext : Next s e .recvCb) {id₀ : ℕ}
    (hfile : s.kernel.file e.fd = some (.conn id₀)) (bytes : List UInt8) {owed' : List UInt8}
    (hfile' : s'.kernel.file = s.kernel.file)
    (hinterest : s'.kernel.interest = update s.kernel.interest e.fd (some .epollout))
    (hconn : ∀ fd, fd ≠ e.fd → s'.conn fd = s.conn fd) (hbytes : sendBytes s' e.fd = bytes)
    (hsent : s'.kernel.sent = s.kernel.sent)
    (hreceived : s'.kernel.received =
      update s.kernel.received id₀ (s.kernel.received id₀ ++ bytes))
    (howed : Owed s' id owed') : ∃ owed, Owed s id owed ∧ Ledger s a s' id owed owed' := by
  rcases eq_or_ne id id₀ with rfl | hid
  · -- Its only descriptor was waiting for data.
    have honly : ∀ fd, s.kernel.file fd = some (.conn id) → fd = e.fd :=
      fun fd hf => htable.unique fd e.fd id hf hfile
    have hnothing : ∀ fd, ¬Due s fd id := by
      intro fd h
      have hfd := honly fd h.file
      subst hfd
      exact not_due_of_in (htable.next_recv hnext).1 h
    have howed' : owed' = bytes := by
      cases howed with
      | @due fd h =>
        have hfd := honly fd (by rw [← hfile']; exact h.file)
        rw [hfd, hbytes]
      | nothing h =>
        refine absurd ⟨?_, ?_⟩ (h e.fd)
        · rw [hfile', hfile]
        · rw [hinterest, Function.update_self]
    refine ⟨[], .nothing hnothing, .received ?_ ?_ rfl⟩
    · rw [hsent]
    · rw [hreceived, Function.update_self, howed']
  · refine ledger_elsewhere hfile hid hfile' (fun fd hne => ⟨?_, hconn fd hne⟩) ?_ ?_ howed
    · rw [hinterest, Function.update_of_ne hne]
    · rw [hsent]
    · rw [hreceived, Function.update_of_ne hid]

/-- Nothing is owed to the connection on which `send_cb` has run. -/
theorem owed_send (htable : Table s) (hfile : s.kernel.file e.fd = some (.conn id))
    {owed' : List UInt8} (hfile' : s'.kernel.file = s.kernel.file)
    (hinterest : s'.kernel.interest = update s.kernel.interest e.fd (some .epollin))
    (howed : Owed s' id owed') : owed' = [] := by
  cases howed with
  | @due fd h =>
    have hfd := htable.unique fd e.fd id (by rw [← hfile']; exact h.file) hfile
    subst hfd
    exact absurd h (not_due_of_in (by rw [hinterest, Function.update_self]))
  | nothing => rfl

/-- `send_cb` runs on one connection. -/
theorem ledger_send (htable : Table s) (hnext : Next s e .sendCb) {id₀ : ℕ}
    (hfile : s.kernel.file e.fd = some (.conn id₀)) (count : ℕ) {owed' : List UInt8}
    (hfile' : s'.kernel.file = s.kernel.file)
    (hinterest : s'.kernel.interest = update s.kernel.interest e.fd (some .epollin))
    (hconn : s'.conn = s.conn)
    (hsent : s'.kernel.sent = update s.kernel.sent id₀
      (s.kernel.sent id₀ ++ (sendBytes s e.fd).take count))
    (hreceived : s'.kernel.received = s.kernel.received)
    (hfull : FullSend s a → count = (sendBytes s e.fd).length) (howed : Owed s' id owed') :
    ∃ owed, Owed s id owed ∧ Ledger s a s' id owed owed' := by
  rcases eq_or_ne id id₀ with rfl | hid
  -- What `send` does not accept is owed no more: `set_event` has gone back to `EPOLLIN`.
  · have howed' := owed_send htable hfile hfile' hinterest howed
    refine ⟨_, .due ⟨hfile, (htable.next_send hnext).1⟩, .sent count ?_ ?_ howed' hfull⟩
    · rw [hsent, Function.update_self]
    · rw [hreceived]
  · refine ledger_elsewhere hfile hid hfile' (fun fd hne => ⟨?_, ?_⟩) ?_ ?_ howed
    · rw [hinterest, Function.update_of_ne hne]
    · rw [hconn]
    · rw [hsent, Function.update_of_ne hid]
    · rw [hreceived]

/-- The length of what `send_cb` passes to `send`. -/
theorem length_sendBytes {fd : ℕ}
    (hwlen : 0 ≤ (s.conn fd).wlen ∧ (s.conn fd).wlen ≤ config.bufferLength) :
    (sendBytes s fd).length = (s.conn fd).wlen.toNat := by
  have hle : (s.conn fd).wlen.toNat ≤ config.bufferLength := by omega
  exact Lib.Buffer.length_read _ hle

/-- `send` accepts everything exactly when it accepts as much as it is passed. -/
theorem fullSend_iff {count : ℤ} (hnext : Next s e .sendCb)
    (hwlen : 0 ≤ (s.conn e.fd).wlen ∧ (s.conn e.fd).wlen ≤ config.bufferLength) :
    FullSend s (.send count) ↔ count.toNat = (sendBytes s e.fd).length := by
  rw [length_sendBytes hwlen]
  constructor
  · intro hfull
    exact hfull e hnext.head?
  · intro hcount e' he'
    obtain rfl : e = e' := Option.some.inj (hnext.head?.symm.trans he')
    exact hcount

/-- What a step does to what is received, sent and owed on a connection. -/
theorem ledger_of_effect (htable : Table s) (hrlen : ∀ fd, (s.conn fd).rlen = 0)
    (he : Effect s a s') {owed' : List UInt8} (howed : Owed s' id owed') :
    ∃ owed, Owed s id owed ∧ Ledger s a s' id owed owed' := by
  cases he with
  | crash _ fault _ => exact ledger_congr rfl rfl rfl rfl rfl howed
  | returned sockfd => exact ledger_congr rfl rfl rfl rfl rfl howed
  | opened sockfd left fd hmain hfd hfile =>
    exact ledger_opened hfile Kernel.file_ctlAdd
      (Kernel.interest_listen (htable.interest_eq_none hfile)) rfl Kernel.sent_ctlAdd
      Kernel.received_ctlAdd howed
  | waited events hmain hbatch hlength hnodup hevents =>
    exact ledger_congr rfl rfl rfl rfl rfl howed
  | finished id' => exact ledger_congr rfl rfl rfl rfl rfl howed
  | acceptFailed e clientfd hnext hneg => exact ledger_congr rfl rfl rfl rfl rfl howed
  | accepted e clientfd fd hnext hfd hlistener hfile =>
    exact ledger_opened hfile Kernel.file_ctlAdd
      (Kernel.interest_accept (htable.interest_eq_none hfile)) rfl Kernel.sent_ctlAdd
      Kernel.received_ctlAdd howed
  | recvFailed e item hnext hitem =>
    -- `rlen` would be -1 for `memcpy`.
    have h0 := (echo_spec hitem).1.1
    dsimp only at h0
    rw [hrlen] at h0
    omega
  | recvClosed e id' hnext hfile hrecv =>
    exact ledger_other e.fd
      (fun fd hne => ⟨Function.update_of_ne hne .., Kernel.interest_close_of_ne hne, rfl⟩)
      (not_due_of_in (htable.next_recv hnext).1) (not_due_of_closed (Function.update_self ..)) rfl
      rfl howed
  | received e id₀ bytes item hnext hfile hrange hrecv hne hfits hitem =>
    have hreg : (s.kernel.recv id₀ bytes).interest e.fd ≠ none := htable.connected e.fd id₀ hfile
    have hread : item.wbuffer.read item.wlen.toNat = bytes :=
      echo_received (hrlen e.fd) hfits hitem
    refine ledger_recv htable hnext hfile bytes Kernel.file_ctlMod
      (Kernel.interest_ctlMod hreg) (fun fd hne => Function.update_of_ne hne ..) ?_
      Kernel.sent_ctlMod Kernel.received_ctlMod howed
    unfold sendBytes
    dsimp only
    rw [Function.update_self, hread]
  | sendFailed e hnext hwlen =>
    obtain ⟨-, id₀, hfile⟩ := htable.next_send hnext
    refine ledger_send htable hnext hfile 0 Kernel.file_ctlMod
      (Kernel.interest_ctlMod (htable.connected e.fd id₀ hfile)) rfl ?_ Kernel.received_ctlMod
      (fun hfull => ?_) howed
    · rw [List.take_zero, List.append_nil, Function.update_eq_self]
      exact Kernel.sent_ctlMod
    · exact (fullSend_iff hnext hwlen).mp hfull
  | sent e id₀ count hnext hfile hwlen hcount =>
    have hreg : (s.kernel.send id₀ ((sendBytes s e.fd).take count.toNat)).interest e.fd ≠ none :=
      htable.connected e.fd id₀ hfile
    exact ledger_send htable hnext hfile count.toNat Kernel.file_ctlMod
      (Kernel.interest_ctlMod hreg) rfl Kernel.sent_ctlMod Kernel.received_ctlMod
      (fullSend_iff hnext hwlen).mp howed

/-- The state before `main` owes nothing. -/
theorem echo_init (others : ℕ → Bool) : Echo (State.init config others) := by
  intro id owed howed
  cases howed with
  | due h => cases h.interest
  | nothing h => rfl

/-- A step in which `send` accepts everything keeps the echo. -/
theorem echo_step (htable : Table s) (hrlen : ∀ fd, (s.conn fd).rlen = 0) (h : Echo s)
    (hfull : FullSend s a) (he : Effect s a s') : Echo s' := by
  intro id owed' howed'
  obtain ⟨owed, howed, hledger⟩ := ledger_of_effect htable hrlen he howed'
  have heq := h id owed howed
  cases hledger with
  | same hsent hreceived hsame => rw [hsent, hreceived, hsame, heq]
  | received hsent hreceived hnil =>
    rw [hnil, List.append_nil] at heq
    rw [hsent, hreceived, heq]
  -- A full `send` moves all that is owed to what is sent.
  | sent count hsent hreceived hnil hcount =>
    rw [hsent, hreceived, hnil, List.append_nil, hcount hfull, List.take_length, heq]

/-- Bytes that are lost stay lost. -/
theorem lost_step (htable : Table s) (hrlen : ∀ fd, (s.conn fd).rlen = 0) (h : Lost s id)
    (he : Effect s a s') : Lost s' id := by
  intro owed' howed'
  obtain ⟨owed, howed, hledger⟩ := ledger_of_effect htable hrlen he howed'
  have hlt := h owed howed
  cases hledger with
  | same hsent hreceived hsame => rw [hsent, hreceived, hsame]; exact hlt
  | received hsent hreceived hnil =>
    -- As much is owed as is received, and the gap stays what it was.
    rw [hnil, List.length_nil] at hlt
    rw [hsent, hreceived, List.length_append]
    omega
  | sent count hsent hreceived hnil _ =>
    rw [hsent, hreceived, hnil, List.length_append, List.length_take, List.length_nil]
    omega

/-- Where `send` accepts less than it is passed, bytes are lost. -/
theorem lost_send (htable : Table s) (hnext : Next s e .sendCb)
    (hfile : s.kernel.file e.fd = some (.conn id)) (count : ℕ)
    (hfile' : s'.kernel.file = s.kernel.file)
    (hinterest : s'.kernel.interest = update s.kernel.interest e.fd (some .epollin))
    (hsent : s'.kernel.sent id = s.kernel.sent id ++ (sendBytes s e.fd).take count)
    (hreceived : s'.kernel.received = s.kernel.received)
    (hshort : count < (sendBytes s e.fd).length) (h : Echo s) : Lost s' id := by
  intro owed' howed'
  -- Before the step sent and owed make up what was received; the part not accepted drops out.
  have hecho := congrArg List.length (h id _ (.due ⟨hfile, (htable.next_send hnext).1⟩))
  rw [List.length_append] at hecho
  rw [owed_send htable hfile hfile' hinterest howed', hsent, hreceived, List.length_append,
    List.length_take, List.length_nil]
  omega

/-- A step in which `send` does not accept everything loses bytes. -/
theorem lost_of_effect (htable : Table s) (hin : ∀ fd, (s.conn fd).InRange) (h : Echo s)
    (he : Effect s a s') (hshort : ¬FullSend s a) : ∃ id, Lost s' id := by
  cases he with
  | returned | opened | waited | finished | acceptFailed | accepted | recvFailed | recvClosed |
    received =>
    exact absurd trivial hshort
  | crash _ fault hcrash =>
    cases a with
    | send count => exact absurd hcrash (not_crash htable hin trivial)
    | _ => exact absurd trivial hshort
  | sendFailed e hnext hwlen =>
    obtain ⟨-, id, hfile⟩ := htable.next_send hnext
    have hlt : 0 < (sendBytes s e.fd).length := by
      rw [fullSend_iff hnext hwlen] at hshort
      exact Nat.pos_of_ne_zero (Ne.symm hshort)
    refine ⟨id, lost_send htable hnext hfile 0 Kernel.file_ctlMod
      (Kernel.interest_ctlMod (htable.connected e.fd id hfile)) ?_ Kernel.received_ctlMod hlt h⟩
    rw [List.take_zero, List.append_nil]
    exact congrFun Kernel.sent_ctlMod id
  | sent e id count hnext hfile hwlen hcount =>
    have hlength := length_sendBytes hwlen
    have hlt : count.toNat < (sendBytes s e.fd).length := by
      rw [fullSend_iff hnext hwlen] at hshort
      omega
    have hreg : (s.kernel.send id ((sendBytes s e.fd).take count.toNat)).interest e.fd ≠ none :=
      htable.connected e.fd id hfile
    refine ⟨id, lost_send htable hnext hfile count.toNat Kernel.file_ctlMod
      (Kernel.interest_ctlMod hreg) ?_ Kernel.received_ctlMod hlt h⟩
    exact (congrFun Kernel.sent_ctlMod id).trans (Function.update_self ..)

/-- The server echoes in every state of a run up to the first `send` that does not accept all that
it is passed, and in none after it. -/
theorem echo_of_fullSend (others : ℕ → Bool) :
    (∀ s : State config, ReachableIf others FullSend s → Echo s) ∧
      ∀ (s s' t : State config) (a : Action), ReachableIf others FullSend s →
        step s a = some s' → ¬FullSend s a → Lib.Reaches step (fun _ _ => True) s' t → ¬Echo t := by
  have hecho : ∀ s : State config, ReachableIf others FullSend s → Echo s := by
    intro s hs
    refine Lib.Reaches.invariant_of (I := Echo)
      (J := fun t => Table t ∧ ∀ fd, (t.conn fd).rlen = 0)
      (fun t ht => ⟨table_of_reachable (ReachableIf.reachable ht),
        fun fd => (lengths_of_reachable (ReachableIf.reachable ht) fd).1⟩)
      (echo_init others) (fun t a u hJ h hok hstep => ?_) hs
    exact echo_step hJ.1 hJ.2 h hok (effect_of_step hstep).2
  refine ⟨hecho, fun s s' t a hs hstep hshort hrun => ?_⟩
  -- Up to the step the server has echoed, so that what is owed is all that can be lost.
  have hreach := ReachableIf.reachable hs
  obtain ⟨id, hlost⟩ := lost_of_effect (table_of_reachable hreach)
    (fun fd => (lengths_of_reachable hreach fd).2) (hecho s hs) (effect_of_step hstep).2 hshort
  -- What is lost stays lost to the end of the run.
  have hreach' : Reachable others s' := Lib.Reaches.tail hreach trivial hstep
  have hend : Lost t id := by
    refine Lib.Reaches.invariant_of (I := fun u => Lost u id)
      (J := fun u => Table u ∧ ∀ fd, (u.conn fd).rlen = 0) (fun u hu => ?_) hlost
      (fun u a v hJ h _ hstep => lost_step hJ.1 hJ.2 h (effect_of_step hstep).2) hrun
    have hu' : Reachable others u := Lib.Reaches.trans hreach' hu
    exact ⟨table_of_reachable hu', fun fd => (lengths_of_reachable hu' fd).1⟩
  exact hend.not_echo

/-- A client sends twice, and `send` accepts as many bytes as given each time. -/
def twoRounds (listener client : ℕ) (first second : List UInt8) (count count' : ℕ) : List Action :=
  opening listener ++
    [.epollWait [(listener, .epollin)], .accept client,
      .epollWait [(client, .epollin)], .recv (some first),
      .epollWait [(client, .epollout)], .send count,
      .epollWait [(client, .epollin)], .recv (some second),
      .epollWait [(client, .epollout)], .send count']

/-- A run in which the client gets back what it has sent. -/
theorem echo_of_fullSend_run : ∃ s : State config, s.kernel.received 0 = [97, 98, 99] ∧
    s.kernel.sent 0 = [97, 98, 99] ∧ Echo s := by
  obtain ⟨s, hs, hreceived, hsent⟩ := exists_reachable (fun fd => decide (fd < 4)) FullSend
    (twoRounds 4 24 [97, 98] [99] 2 1)
    (fun s : State config =>
      s.kernel.received 0 = [97, 98, 99] ∧ s.kernel.sent 0 = [97, 98, 99])
    (by decide +kernel)
  exact ⟨s, hreceived, hsent, (echo_of_fullSend _).1 s hs⟩

/-- `recv` and `send` get something through, and nothing else fails. -/
def Transfers (s : State config) : Action → Prop
  | .send count => 0 < count
  | .recv bytes => bytes ≠ none ∧ bytes ≠ some []
  | .initServer sockfd => WellBehaved s (.initServer sockfd)
  | .accept clientfd => WellBehaved s (.accept clientfd)
  | .epollWait _ => True
  | .finish _ => True

instance (s : State config) (a : Action) : Decidable (Transfers s a) :=
  match a with
  | .send count => inferInstanceAs (Decidable (0 < count))
  | .recv bytes => inferInstanceAs (Decidable (bytes ≠ none ∧ bytes ≠ some []))
  | .initServer sockfd => inferInstanceAs (Decidable (WellBehaved s (.initServer sockfd)))
  | .accept clientfd => inferInstanceAs (Decidable (WellBehaved s (.accept clientfd)))
  | .epollWait _ => inferInstanceAs (Decidable True)
  | .finish _ => inferInstanceAs (Decidable True)

/-- Of the two bytes that the client sends first `send` accepts one, and the other is never sent:
whatever is still to be sent, the client does not get back what it has sent. -/
theorem echo_of_fullSend_short : ∃ s : State config,
    ReachableIf (fun fd => decide (fd < 4)) Transfers s ∧
      s.kernel.received 0 = [97, 98, 99] ∧ s.kernel.sent 0 = [97, 99] ∧
      (¬∃ rest, s.kernel.sent 0 ++ rest = s.kernel.received 0) ∧ ¬Echo s := by
  obtain ⟨s, hs, hreceived, hsent⟩ := exists_reachable (fun fd => decide (fd < 4)) Transfers
    (twoRounds 4 24 [97, 98] [99] 1 1)
    (fun s : State config => s.kernel.received 0 = [97, 98, 99] ∧ s.kernel.sent 0 = [97, 99])
    (by decide +kernel)
  have hrest : ¬∃ rest, s.kernel.sent 0 ++ rest = s.kernel.received 0 := by
    rintro ⟨rest, hrest⟩
    rw [hsent, hreceived, List.cons_append, List.cons_append] at hrest
    injection hrest with _ htail
    injection htail with hhead _
    exact absurd hhead (by decide)
  obtain ⟨owed, howed⟩ := exists_owed s 0
  exact ⟨s, hs, hreceived, hsent, hrest, fun hecho => hrest ⟨owed, hecho 0 owed howed⟩⟩

end CPStudy.Epoll.Reactor
