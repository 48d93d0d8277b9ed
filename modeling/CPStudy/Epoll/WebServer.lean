import Mathlib.Tactic.Ring
import CPStudy.Epoll.Server.Dispatch

/-!
# The web server of `webserver.c`

`recv_cb` answers whatever it has received with the same page and leaves `rlen` as it is, so that
the next request is appended to the last. `rbuffer` therefore holds all that was received on a
connection since it was accepted (`room_of_reachable`), and once that is `BUFFER_LENGTH` bytes
`recv` is asked for none, returns 0, and the connection is closed under the peer. `live_of_hasRoom`
says that a connection is kept open exactly as long as this does not happen.
-/

namespace CPStudy.Epoll.WebServer

open Function (update)
open Server

/-- `http_request(conn)`, which does nothing. -/
def httpRequest (item : ConnItem 1024) : ConnItem 1024 := item

/-- What `http_response` prints. -/
def response : List UInt8 :=
  ["HTTP/1.1 200 OK\r\n",
    "Accept-Ranges: bytes\r\n",
    "Content-Length: 82\r\n",
    "Content-Type: text/html\r\n",
    "Date: Sat, 06 Aug 2023 13:16:46 GMT\r\n\r\n",
    "<html><head><title>0voice.king</title></head><body><h1>King</h1></body></html>\r\n\r\n"
  ].flatMap fun line => line.toList.map fun c => UInt8.ofNat c.toNat

/-- The length that `sprintf` returns. -/
theorem length_response : response.length = 205 := by decide +kernel

/-- `http_response(conn)`; `sprintf` writes a null character after the text. -/
def httpResponse (item : ConnItem 1024) : ConnItem 1024 :=
  { item with
    wbuffer := item.wbuffer.write 0 (response ++ [0]) (by
      rw [List.length_append, length_response]
      decide)
    wlen := response.length }

/-- `BUFFER_LENGTH`, the size of `connlist` and the end of `recv_cb`. -/
def config : Config where
  bufferLength := 1024
  tableSize := 1024
  ports := 1
  exitsOnBindError := true
  respond := fun item => some (httpResponse (httpRequest item))
  respond_callbacks := fun item item' h => by
    obtain rfl := Option.some.inj h
    exact ⟨rfl, rfl⟩
  respond_inRange := fun item h => by
    refine ⟨_, rfl, h.rlen, ?_⟩
    unfold httpRequest httpResponse
    dsimp only
    rw [length_response]
    decide

variable {others : ℕ → Bool} {s s' : State config} {e : Event} {a : Action} {id : ℕ}

/-- The answer leaves what was received alone. -/
theorem rlen_of_respond {item item' : ConnItem config.bufferLength}
    (h : config.respond item = some item') : item'.rlen = item.rlen := by
  obtain rfl := Option.some.inj h
  rfl

/-- Among the calls, the number of those of `recv` that returned -1 on a connection. -/
def errorsIn (calls : List Call) (id : ℕ) : ℕ :=
  calls.countP fun c => c.callback = .recvCb ∧ c.target = some (.conn id) ∧ c.count = -1

/-- How often `recv` has returned -1 on a connection. -/
def errors (s : State config) (id : ℕ) : ℕ := errorsIn s.calls id

/-- `rlen` is what was received on a connection, less one for each -1. -/
structure Balance (s : State config) : Prop where
  /-- The length of what is in `rbuffer`. -/
  rlen : ∀ fd id, s.kernel.file fd = some (.conn id) →
    (s.conn fd).rlen = (s.kernel.received id).length - errors s id
  /-- Nothing is received on a connection that is not accepted yet. -/
  fresh : ∀ id, s.kernel.accepted ≤ id → s.kernel.received id = [] ∧ errors s id = 0

/-- `rbuffer` holds all that was received on a connection. -/
structure Room (s : State config) : Prop where
  /-- Its length. -/
  rlen : ∀ fd id, s.kernel.file fd = some (.conn id) →
    (s.conn fd).rlen = (s.kernel.received id).length
  /-- Nothing is received on a connection that is not accepted yet. -/
  fresh : ∀ id, s.kernel.accepted ≤ id → s.kernel.received id = []

/-- The connections are kept open, and `recv` is asked for data. -/
structure Live (s : State config) : Prop where
  /-- `recv_cb` closes a connection only if its peer has reached the end of its stream. -/
  closed : ∀ id, id < s.kernel.accepted → (∀ fd, s.kernel.file fd ≠ some (.conn id)) →
    s.kernel.ended id = true
  /-- Every `recv` is asked for a byte at least. -/
  asked : ∀ c ∈ s.calls, c.callback = .recvCb → 0 < c.length

/-- What was received on the connection of a descriptor. -/
def receivedOn (s : State config) (fd : ℕ) : List UInt8 :=
  match s.kernel.file fd with
  | some (.conn id) => s.kernel.received id
  | some .listener => []
  | some .other => []
  | none => []

/-- `recv` does not return -1, and `recv_cb` runs on connections on which fewer than `BUFFER_LENGTH`
bytes have been received. -/
def HasRoom (s : State config) : Action → Prop
  | .recv bytes =>
    bytes ≠ none ∧ ∀ e ∈ s.batch.head?, (receivedOn s e.fd).length < config.bufferLength
  | .initServer _ => True
  | .epollWait _ => True
  | .accept _ => True
  | .send _ => True
  | .finish _ => True

instance (s : State config) (a : Action) : Decidable (HasRoom s a) :=
  match a with
  | .recv bytes => inferInstanceAs (Decidable (bytes ≠ none ∧
      ∀ e ∈ s.batch.head?, (receivedOn s e.fd).length < config.bufferLength))
  | .initServer _ => inferInstanceAs (Decidable True)
  | .epollWait _ => inferInstanceAs (Decidable True)
  | .accept _ => inferInstanceAs (Decidable True)
  | .send _ => inferInstanceAs (Decidable True)
  | .finish _ => inferInstanceAs (Decidable True)

/-! ## What is in `rbuffer` -/

/-- A call is an error of a connection only where `recv` returns -1 on it. -/
theorem errorsIn_concat (calls : List Call) (c : Call) :
    errorsIn (calls ++ [c]) id = errorsIn calls id +
      if c.callback = .recvCb ∧ c.target = some (.conn id) ∧ c.count = -1 then 1 else 0 := by
  unfold errorsIn
  rw [List.countP_append, List.countP_singleton]
  simp only [decide_eq_true_eq]

/-- A call that is not a -1 of `recv` on the connection is no error of it. -/
theorem errorsIn_of_not {calls : List Call} {c : Call}
    (hc : ¬(c.callback = .recvCb ∧ c.target = some (.conn id) ∧ c.count = -1)) :
    errorsIn (calls ++ [c]) id = errorsIn calls id := by
  rw [errorsIn_concat, if_neg hc]
  rfl

/-- A call that does not return -1 from `recv` is no error. -/
theorem errorsIn_of_ne {calls : List Call} {c : Call} (hc : c.callback = .recvCb → c.count ≠ -1) :
    errorsIn (calls ++ [c]) id = errorsIn calls id :=
  errorsIn_of_not fun h => hc h.1 h.2.2

namespace Balance

/-- The server before `main`. -/
theorem init (others : ℕ → Bool) : Balance (State.init config others) where
  rlen := fun fd id h => by
    have htable := (Table.init config others).number fd id h
    cases htable
  fresh := fun _ _ => ⟨rfl, rfl⟩

/-- A step that opens nothing and receives nothing. -/
theorem congr (h : Balance s)
    (hfile : ∀ fd id, s'.kernel.file fd = some (.conn id) → s.kernel.file fd = some (.conn id))
    (hconn : ∀ fd id, s'.kernel.file fd = some (.conn id) → (s'.conn fd).rlen = (s.conn fd).rlen)
    (haccepted : s'.kernel.accepted = s.kernel.accepted)
    (hreceived : s'.kernel.received = s.kernel.received)
    (herrors : ∀ id, errors s' id = errors s id) : Balance s' where
  rlen := fun fd id hf => by
    rw [hconn fd id hf, hreceived, herrors]
    exact h.rlen fd id (hfile fd id hf)
  fresh := fun id hid => by
    rw [haccepted] at hid
    rw [hreceived, herrors]
    exact h.fresh id hid

/-- A step of the callback on the connection of a descriptor, by which as much is added to `rlen` as
is received, less the errors. -/
theorem turn (h : Balance s) (htable : Table s) {fd₀ id₀ : ℕ}
    (hfile₀ : s.kernel.file fd₀ = some (.conn id₀)) (hfile : s'.kernel.file = s.kernel.file)
    (haccepted : s'.kernel.accepted = s.kernel.accepted)
    (hconn : ∀ fd, fd ≠ fd₀ → s'.conn fd = s.conn fd)
    (hreceived : ∀ id, id ≠ id₀ → s'.kernel.received id = s.kernel.received id)
    (herrors : ∀ id, id ≠ id₀ → errors s' id = errors s id)
    (hrlen : (s'.conn fd₀).rlen + errors s' id₀ + (s.kernel.received id₀).length =
      (s.conn fd₀).rlen + errors s id₀ + (s'.kernel.received id₀).length) : Balance s' where
  rlen := fun fd id hf => by
    rw [hfile] at hf
    rcases eq_or_ne fd fd₀ with rfl | hfd
    · obtain rfl : id₀ = id := File.conn.inj (Option.some.inj (hfile₀.symm.trans hf))
      have hold := h.rlen fd id₀ hfile₀
      omega
    · have hid : id ≠ id₀ := by
        rintro rfl
        exact hfd (htable.unique fd fd₀ id hf hfile₀)
      rw [hconn fd hfd, hreceived id hid, herrors id hid]
      exact h.rlen fd id hf
  fresh := fun id hid => by
    rw [haccepted] at hid
    -- A connection not accepted yet is not the one that has its turn.
    have hlt := htable.number fd₀ id₀ hfile₀
    have hne : id ≠ id₀ := by
      rintro rfl
      exact absurd hid (Nat.not_le.mpr hlt)
    rw [hreceived id hne, herrors id hne]
    exact h.fresh id hid

/-- A listening descriptor is that of no connection. -/
theorem opened (h : Balance s) {left fd : ℕ} :
    Balance { s with
      main := .opening left
      kernel := (s.kernel.listen fd).ctlAdd fd .epollin
      conn := update s.conn fd { s.conn fd with fd := fd, recvT := some .acceptCb } } := by
  have hold : ∀ fd' id, ((s.kernel.listen fd).ctlAdd fd .epollin).file fd' = some (.conn id) →
      fd' ≠ fd ∧ s.kernel.file fd' = some (.conn id) := by
    intro fd' id hf
    rw [Kernel.file_ctlAdd] at hf
    unfold Kernel.listen at hf
    dsimp only at hf
    rcases eq_or_ne fd' fd with rfl | hne
    · rw [Function.update_self] at hf
      cases hf
    · rw [Function.update_of_ne hne] at hf
      exact ⟨hne, hf⟩
  refine h.congr (fun fd' id hf => (hold fd' id hf).2) (fun fd' id hf => ?_)
    Kernel.accepted_ctlAdd Kernel.received_ctlAdd fun _ => rfl
  dsimp only
  rw [Function.update_of_ne (hold fd' id hf).1]

/-- A new connection starts with an empty `rbuffer` and without an error. -/
theorem accepted (h : Balance s) {clientfd : ℤ} {fd : ℕ} :
    Balance { s.record e .acceptCb 0 clientfd [] with
      kernel := (s.kernel.accept fd).ctlAdd fd .epollin
      conn := update s.conn fd (ConnItem.accepted config.bufferLength fd) } := by
  have herrors : ∀ id, errors { s.record e .acceptCb 0 clientfd [] with
      kernel := (s.kernel.accept fd).ctlAdd fd .epollin
      conn := update s.conn fd (ConnItem.accepted config.bufferLength fd) } id = errors s id :=
    fun _ => errorsIn_of_ne nofun
  constructor
  case rlen =>
    intro fd' id hf
    rw [herrors]
    dsimp only at hf ⊢
    rw [Kernel.file_ctlAdd] at hf
    rw [Kernel.received_ctlAdd]
    unfold Kernel.accept at hf ⊢
    dsimp only at hf ⊢
    rcases eq_or_ne fd' fd with rfl | hne
    · rw [Function.update_self] at hf ⊢
      obtain ⟨hreceived, hnone⟩ := h.fresh _ le_rfl
      rw [← File.conn.inj (Option.some.inj hf), hreceived, hnone]
      rfl
    · rw [Function.update_of_ne hne] at hf ⊢
      exact h.rlen fd' id hf
  case fresh =>
    intro id hid
    rw [herrors]
    dsimp only at hid ⊢
    rw [Kernel.accepted_ctlAdd] at hid
    rw [Kernel.received_ctlAdd]
    exact h.fresh id (Nat.le_of_succ_le hid)

/-- A -1 of `recv` takes one from `rlen`, and is one error more. -/
theorem recvFailed (h : Balance s) (htable : Table s) (hnext : Next s e .recvCb)
    {item : ConnItem config.bufferLength}
    (hitem : config.respond { s.conn e.fd with rlen := (s.conn e.fd).rlen - 1 } = some item) :
    Balance
      { s.record e .recvCb (recvLength s e.fd) (-1) (item.wbuffer.read item.wlen.toNat) with
        kernel := s.kernel.ctlMod e.fd .epollout
        conn := update s.conn e.fd item } := by
  obtain ⟨-, id₀, hfile⟩ := htable.next_recv hnext
  refine h.turn htable hfile Kernel.file_ctlMod Kernel.accepted_ctlMod
    (fun fd hfd => Function.update_of_ne hfd ..)
    (fun id _ => congrFun Kernel.received_ctlMod id) (fun id hid => ?_) ?_
  · refine errorsIn_of_not fun hc => hid ?_
    exact File.conn.inj (Option.some.inj (hc.2.1.symm.trans hfile))
  · have hone : errors { s.record e .recvCb (recvLength s e.fd) (-1)
          (item.wbuffer.read item.wlen.toNat) with
        kernel := s.kernel.ctlMod e.fd .epollout
        conn := update s.conn e.fd item } id₀ = errors s id₀ + 1 :=
      (errorsIn_concat ..).trans (congrArg _ (if_pos ⟨rfl, hfile, rfl⟩))
    have hnew := rlen_of_respond hitem
    dsimp only at hnew
    rw [hone]
    dsimp only
    rw [Kernel.received_ctlMod, Function.update_self]
    omega

/-- `rlen` grows by what is received, and the answer leaves it so. -/
theorem received (h : Balance s) (htable : Table s) {id₀ : ℕ} {bytes : List UInt8}
    {item : ConnItem config.bufferLength} (hfile : s.kernel.file e.fd = some (.conn id₀))
    (hfits : (s.conn e.fd).rlen.toNat + bytes.length ≤ config.bufferLength)
    (hitem : config.respond { s.conn e.fd with
      rbuffer := (s.conn e.fd).rbuffer.write (s.conn e.fd).rlen.toNat bytes hfits
      rlen := (s.conn e.fd).rlen + bytes.length } = some item) :
    Balance
      { s.record e .recvCb (recvLength s e.fd) bytes.length
          (item.wbuffer.read item.wlen.toNat) with
        kernel := (s.kernel.recv id₀ bytes).ctlMod e.fd .epollout
        conn := update s.conn e.fd item } := by
  have herrors : ∀ id, errors { s.record e .recvCb (recvLength s e.fd) bytes.length
        (item.wbuffer.read item.wlen.toNat) with
      kernel := (s.kernel.recv id₀ bytes).ctlMod e.fd .epollout
      conn := update s.conn e.fd item } id = errors s id :=
    fun _ => errorsIn_of_ne fun _ => by dsimp only; omega
  refine h.turn htable hfile Kernel.file_ctlMod Kernel.accepted_ctlMod
    (fun fd hfd => Function.update_of_ne hfd ..) (fun id hid => ?_) (fun id _ => herrors id) ?_
  · exact (congrFun Kernel.received_ctlMod id).trans (Function.update_of_ne hid ..)
  · have hnew := rlen_of_respond hitem
    dsimp only at hnew
    rw [herrors]
    dsimp only
    rw [Kernel.received_ctlMod, Function.update_self]
    unfold Kernel.recv
    dsimp only
    rw [Function.update_self, List.length_append]
    omega

/-- The descriptor of a closed connection is that of none. -/
theorem recvClosed (h : Balance s) :
    Balance { s.record e .recvCb (recvLength s e.fd) 0 [] with
      kernel := (s.kernel.ctlDel e.fd).close e.fd } := by
  refine h.congr (fun fd id hf => ?_) (fun _ _ _ => rfl) rfl rfl
    fun _ => errorsIn_of_ne fun _ => show (0 : ℤ) ≠ -1 by decide
  unfold Kernel.close at hf
  dsimp only at hf
  rcases eq_or_ne fd e.fd with rfl | hne
  · rw [Function.update_self] at hf
    cases hf
  · rw [Function.update_of_ne hne] at hf
    exact hf

/-- Every step keeps the balance. -/
theorem step (h : Balance s) (htable : Table s) (he : Effect s a s') : Balance s' := by
  cases he with
  | crash | returned | waited | finished =>
    exact h.congr (fun _ _ hf => hf) (fun _ _ _ => rfl) rfl rfl fun _ => rfl
  | acceptFailed =>
    exact h.congr (fun _ _ hf => hf) (fun _ _ _ => rfl) rfl rfl fun _ => errorsIn_of_ne nofun
  | opened => exact h.opened
  | accepted => exact h.accepted
  | recvFailed e item hnext hitem => exact h.recvFailed htable hnext hitem
  | recvClosed => exact h.recvClosed
  | received e id₀ bytes item hnext hfile hrlen hrecv hne hfits hitem =>
    exact h.received htable hfile hfits hitem
  -- `send_cb` changes no `rlen` and receives nothing.
  | sendFailed e hnext hwlen =>
    exact h.congr (fun fd id hf => by rwa [Kernel.file_ctlMod] at hf) (fun _ _ _ => rfl)
      Kernel.accepted_ctlMod Kernel.received_ctlMod fun _ => errorsIn_of_ne nofun
  | sent e id count hnext hfile hwlen hcount =>
    exact h.congr (fun fd id hf => by rwa [Kernel.file_ctlMod] at hf) (fun _ _ _ => rfl)
      Kernel.accepted_ctlMod Kernel.received_ctlMod fun _ => errorsIn_of_ne nofun

end Balance

/-- The balance is kept in every run. -/
theorem balance_of_reachable (hs : Reachable others s) : Balance s :=
  Lib.Reaches.invariant_of (I := Balance) (J := Table) (fun _ ht => table_of_reachable ht)
    (Balance.init others) (fun _ _ _ htable h _ hstep => h.step htable (effect_of_step hstep).2) hs

/-- A step in which `recv` does not return -1 makes no error. -/
theorem errors_of_ne_recvFailed (hok : a ≠ .recv none) (he : Effect s a s') :
    errors s' id = errors s id := by
  cases he with
  | crash | returned | opened | waited | finished => rfl
  | acceptFailed | accepted | sendFailed | sent => exact errorsIn_of_ne nofun
  | recvFailed e item hnext hitem => exact absurd rfl hok
  | recvClosed e id hnext hfile hrecv => exact errorsIn_of_ne fun _ => show (0 : ℤ) ≠ -1 by decide
  | received e id bytes item hnext hfile hrlen hrecv hne hfits hitem =>
    exact errorsIn_of_ne fun _ => by dsimp only; omega

/-! ## Connections are kept open -/

/-- What was received on a connection. -/
theorem receivedOn_eq {fd : ℕ} (hfile : s.kernel.file fd = some (.conn id)) :
    receivedOn s fd = s.kernel.received id := by
  unfold receivedOn
  rw [hfile]

/-- The length that `recv` is asked for is what is left of `BUFFER_LENGTH`. -/
theorem recvLength_eq (h : Room s) {fd : ℕ} (hfile : s.kernel.file fd = some (.conn id)) :
    recvLength s fd = config.bufferLength - (receivedOn s fd).length := by
  unfold recvLength
  rw [h.rlen fd id hfile, receivedOn_eq hfile, Int.toNat_natCast]

/-- With room left `recv` is asked for data. -/
theorem recvLength_pos (h : Room s) (htable : Table s) {bytes : Option (List UInt8)}
    (hok : HasRoom s (.recv bytes)) (hnext : Next s e .recvCb) : 0 < recvLength s e.fd := by
  obtain ⟨-, id, hfile⟩ := htable.next_recv hnext
  rw [recvLength_eq h hfile]
  exact Nat.sub_pos_of_lt (hok.2 e hnext.head?)

namespace Live

/-- The server before `main`. -/
theorem init (others : ℕ → Bool) : Live (State.init config others) where
  closed := fun id hid => absurd hid (Nat.not_lt_zero id)
  asked := fun c hc => by cases hc

/-- Every `recv` of a step is asked for data. -/
theorem asked_step (h : Live s) (hroom : Room s) (htable : Table s) (hok : HasRoom s a)
    (he : Effect s a s') : ∀ c ∈ s'.calls, c.callback = .recvCb → 0 < c.length := by
  -- One call is added to those made before.
  have hsnoc : ∀ c : Call, (c.callback = .recvCb → 0 < c.length) →
      ∀ c' ∈ s.calls ++ [c], c'.callback = .recvCb → 0 < c'.length := by
    intro c hc c' hc' hrecv
    rw [List.mem_append, List.mem_singleton] at hc'
    rcases hc' with hc' | rfl
    · exact h.asked c' hc' hrecv
    · exact hc hrecv
  cases he with
  | crash | returned | opened | waited | finished => exact h.asked
  | acceptFailed | accepted => exact hsnoc _ fun hcb => by cases hcb
  | recvFailed e item hnext => exact hsnoc _ fun _ => recvLength_pos hroom htable hok hnext
  | recvClosed e id hnext => exact hsnoc _ fun _ => recvLength_pos hroom htable hok hnext
  | received e id bytes item hnext => exact hsnoc _ fun _ => recvLength_pos hroom htable hok hnext
  | sendFailed | sent => exact hsnoc _ fun hcb => by cases hcb

/-- A step that accepts and closes no connection closes none before the end of its stream. -/
theorem closed_congr (h : Live s)
    (hfile : ∀ fd id, s.kernel.file fd = some (.conn id) → s'.kernel.file fd = some (.conn id))
    (haccepted : s'.kernel.accepted = s.kernel.accepted)
    (hended : ∀ id, s.kernel.ended id = true → s'.kernel.ended id = true) :
    ∀ id, id < s'.kernel.accepted → (∀ fd, s'.kernel.file fd ≠ some (.conn id)) →
      s'.kernel.ended id = true := by
  intro id hid hclosed
  rw [haccepted] at hid
  exact hended id (h.closed id hid fun fd hf => hclosed fd (hfile fd id hf))

/-- A step closes a connection only if its peer has reached the end of its stream. -/
theorem closed_step (h : Live s) (hroom : Room s) (htable : Table s) (hok : HasRoom s a)
    (he : Effect s a s') : ∀ id, id < s'.kernel.accepted →
      (∀ fd, s'.kernel.file fd ≠ some (.conn id)) → s'.kernel.ended id = true := by
  -- A descriptor that is not open is not that of a connection.
  have hne : ∀ {fd fd' : ℕ} {id : ℕ}, s.kernel.file fd = none →
      s.kernel.file fd' = some (.conn id) → fd' ≠ fd := by
    rintro fd fd' id hnone hf rfl
    rw [hnone] at hf
    cases hf
  cases he with
  | crash | returned | waited | acceptFailed =>
    exact h.closed_congr (fun _ _ hf => hf) rfl fun _ hend => hend
  | opened sockfd left fd hmain hfd hfile =>
    refine h.closed_congr (fun fd' id hf => ?_) Kernel.accepted_ctlAdd fun id hend => ?_
    · exact (congrFun Kernel.file_ctlAdd fd').trans
        ((Function.update_of_ne (hne hfile hf) ..).trans hf)
    · exact (congrFun Kernel.ended_ctlAdd id).trans hend
  | finished id =>
    refine h.closed_congr (fun _ _ hf => hf) rfl fun id' hend => ?_
    unfold Kernel.finish
    dsimp only
    rcases eq_or_ne id' id with rfl | hid
    · rw [Function.update_self]
    · rw [Function.update_of_ne hid]
      exact hend
  | accepted e clientfd fd hnext hfd hlistener hfile =>
    intro id hid hclosed
    dsimp only at hid hclosed ⊢
    rw [Kernel.accepted_ctlAdd] at hid
    rw [Kernel.file_ctlAdd] at hclosed
    rw [Kernel.ended_ctlAdd]
    unfold Kernel.accept at hid hclosed ⊢
    dsimp only at hid hclosed ⊢
    rcases Nat.lt_or_eq_of_le (Nat.le_of_lt_succ hid) with hlt | rfl
    · refine h.closed id hlt fun fd' hf => hclosed fd' ?_
      rw [Function.update_of_ne (hne hfile hf)]
      exact hf
    · exact absurd (Function.update_self ..) (hclosed fd)
  | recvFailed e item hnext hitem => exact absurd rfl hok.1
  | recvClosed e id hnext hfile hrecv =>
    intro id' hid hclosed
    rcases eq_or_ne id' id with rfl | hne'
    · -- `recv` was asked for data and returned none.
      rcases hrecv.2.mp rfl with hzero | hend
      · have hpos := recvLength_pos hroom htable hok hnext
        omega
      · exact hend
    · refine h.closed id' hid fun fd hf => hclosed fd ?_
      have hfd : fd ≠ e.fd := by
        rintro rfl
        exact hne' (File.conn.inj (Option.some.inj (hf.symm.trans hfile)))
      exact (Function.update_of_ne hfd ..).trans hf
  | received e id bytes item hnext hfile hrlen hrecv hne hfits hitem =>
    exact h.closed_congr (fun fd _ hf => (congrFun Kernel.file_ctlMod fd).trans hf)
      Kernel.accepted_ctlMod fun id' hend => (congrFun Kernel.ended_ctlMod id').trans hend
  | sendFailed e hnext hwlen =>
    exact h.closed_congr (fun fd _ hf => (congrFun Kernel.file_ctlMod fd).trans hf)
      Kernel.accepted_ctlMod fun id' hend => (congrFun Kernel.ended_ctlMod id').trans hend
  | sent e id count hnext hfile hwlen hcount =>
    exact h.closed_congr (fun fd _ hf => (congrFun Kernel.file_ctlMod fd).trans hf)
      Kernel.accepted_ctlMod fun id' hend => (congrFun Kernel.ended_ctlMod id').trans hend

end Live

/-- In a step with room `recv` does not return -1. -/
theorem HasRoom.ne_recvFailed (h : HasRoom s a) : a ≠ .recv none := by
  rintro rfl
  exact h.1 rfl

/-- `rbuffer` holds all that was received on a connection, in every state of a run with room. -/
theorem room_of_reachable (hs : ReachableIf others HasRoom s) : Room s := by
  have hbalance := balance_of_reachable (ReachableIf.reachable hs)
  have hnone : ∀ id, errors s id = 0 :=
    Lib.Reaches.invariant (I := fun t : State config => ∀ id, errors t id = 0) (fun _ => rfl)
      (fun _ _ _ h hok hstep id =>
        (errors_of_ne_recvFailed hok.ne_recvFailed (effect_of_step hstep).2).trans (h id)) hs
  refine ⟨fun fd id hfile => ?_, fun id hid => (hbalance.fresh id hid).1⟩
  rw [hbalance.rlen fd id hfile, hnone id]
  exact Int.sub_zero _

/-- Connections are kept open in a run with room. -/
theorem live_of_reachable (hs : ReachableIf others HasRoom s) : Live s := by
  refine Lib.Reaches.invariant_of (I := Live) (J := fun t => Table t ∧ Room t)
    (fun t ht => ⟨table_of_reachable (ReachableIf.reachable ht), room_of_reachable ht⟩)
    (Live.init others) (fun t b u hJ h hok hstep => ?_) hs
  have he := (effect_of_step hstep).2
  exact ⟨h.closed_step hJ.2 hJ.1 hok he, h.asked_step hJ.2 hJ.1 hok he⟩

/-- Without room `recv_cb` asks for no data and closes the connection. -/
theorem recvClosed_of_not_hasRoom (hs : ReachableIf others HasRoom s) {bytes : List UInt8}
    (hfull : ¬HasRoom s (.recv (some bytes))) (hstep : step s (.recv (some bytes)) = some s') :
    ∃ e ∈ s.batch.head?, s'.kernel.file e.fd = none ∧
      ∃ c ∈ s'.calls, c.callback = .recvCb ∧ c.length = 0 := by
  have htable := table_of_reachable (ReachableIf.reachable hs)
  have hroom := room_of_reachable hs
  -- The next event is of a connection on which `BUFFER_LENGTH` bytes have been received.
  obtain ⟨e, hhead, hlen⟩ : ∃ e ∈ s.batch.head?,
      config.bufferLength ≤ (receivedOn s e.fd).length := by
    by_contra hcon
    push Not at hcon
    exact hfull ⟨by simp, hcon⟩
  have hnone : ∀ {e' : Event} {id : ℕ}, Next s e' .recvCb → s.kernel.file e'.fd = some (.conn id) →
      e' = e ∧ recvLength s e'.fd = 0 := by
    intro e' id hnext hfile
    obtain rfl : e' = e := Option.some.inj (hnext.head?.symm.trans hhead)
    exact ⟨rfl, by rw [recvLength_eq hroom hfile]; omega⟩
  have he := (effect_of_step hstep).2
  cases he with
  | crash _ fault hcrash =>
    refine absurd hcrash (not_crash htable ?_ (by simp [WellBehaved]))
    exact inRange_of_reachable (fun t ht => ht.1 rfl) hs
  | recvClosed e' id hnext hfile hrecv =>
    obtain ⟨rfl, hzero⟩ := hnone hnext hfile
    exact ⟨e', hhead, Function.update_self .., _, List.mem_append_right _ (.head _), rfl, hzero⟩
  | received e' id _ item hnext hfile hrlen hrecv hne hfits hitem =>
    exact absurd (hrecv.2.mpr (.inl (hnone hnext hfile).2)) hne

/-- A call that is made stays in the history. -/
theorem mem_calls_of_reaches {t : State config} {c : Call} (hs : Reachable others s)
    (hrun : Lib.Reaches step (fun _ _ => True) s t) (hc : c ∈ s.calls) : c ∈ t.calls := by
  refine Lib.Reaches.invariant_of (I := fun u => c ∈ u.calls) (J := Table)
    (fun u hu => table_of_reachable (Lib.Reaches.trans hs hu)) hc
    (fun u b v htable h _ hstep => ?_) hrun
  rcases calls_of_effect htable (effect_of_step hstep).2 with heq | ⟨c', heq, -⟩
  · rw [heq]
    exact h
  · rw [heq]
    exact List.mem_append_left _ h

/-- Connections are kept open as long as every `recv_cb` runs on a connection on which fewer than
`BUFFER_LENGTH` bytes have been received. The first that does not closes its connection, whether or
not the peer has reached the end of its stream. -/
theorem live_of_hasRoom (others : ℕ → Bool) :
    (∀ s : State config, ReachableIf others HasRoom s → Live s) ∧
      ∀ (s s' : State config) (bytes : List UInt8), ReachableIf others HasRoom s →
        ¬HasRoom s (.recv (some bytes)) → step s (.recv (some bytes)) = some s' →
          (∃ e ∈ s.batch.head?, s'.kernel.file e.fd = none) ∧
            ∀ t, Lib.Reaches step (fun _ _ => True) s' t → ¬Live t := by
  refine ⟨fun s hs => live_of_reachable hs, fun s s' bytes hs hfull hstep => ?_⟩
  obtain ⟨e, hhead, hclosed, c, hc, hcallback, hlength⟩ := recvClosed_of_not_hasRoom hs hfull hstep
  refine ⟨⟨e, hhead, hclosed⟩, fun t hrun hlive => ?_⟩
  have hs' : Reachable others s' := Lib.Reaches.tail (ReachableIf.reachable hs) trivial hstep
  have hpos := hlive.asked c (mem_calls_of_reaches hs' hrun hc) hcallback
  omega

/-- A client is accepted, sends a first request and gets the page; `recv` then returns `rest`. -/
def twoRequests (listener client : ℕ) (first rest : List UInt8) : List Action :=
  [.initServer listener, .epollWait [(listener, .epollin)], .accept client,
    .epollWait [(client, .epollin)], .recv (some first),
    .epollWait [(client, .epollout)], .send response.length,
    .epollWait [(client, .epollin)], .recv (some rest)]

/-- A run in which a client gets the page twice and then leaves. -/
theorem live_of_hasRoom_run : ∃ s : State config, s.kernel.file 5 = none ∧
    s.kernel.ended 0 = true ∧ (s.kernel.sent 0).length = 410 ∧ Live s := by
  obtain ⟨s, hs, hfile, hended, hsent⟩ := exists_reachable (fun fd => decide (fd < 3)) HasRoom
    (twoRequests 3 5 [71, 69, 84] [72] ++
      [.epollWait [(5, .epollout)], .send response.length, .finish 0,
        .epollWait [(5, .epollin)], .recv (some [])])
    (fun s : State config => s.kernel.file 5 = none ∧ s.kernel.ended 0 = true ∧
      (s.kernel.sent 0).length = 410)
    (by decide +kernel)
  exact ⟨s, hfile, hended, hsent, (live_of_hasRoom _).1 s hs⟩

/-- A client that sends `BUFFER_LENGTH` bytes at once is disconnected after the first answer. -/
theorem live_of_hasRoom_full : ∃ s : State config,
    ReachableIf (fun fd => decide (fd < 3)) WellBehaved s ∧ s.kernel.accepted = 1 ∧
      s.kernel.file 5 = none ∧ s.kernel.ended 0 = false ∧
      (∃ c ∈ s.calls, c.callback = .recvCb ∧ c.length = 0) ∧ ¬Live s := by
  obtain ⟨s, hs, haccepted, hfile, hended, c, hc, hcallback, hlength⟩ :=
    exists_reachable (fun fd => decide (fd < 3)) WellBehaved
      (twoRequests 3 5 (List.replicate config.bufferLength 71) [])
      (fun s : State config => s.kernel.accepted = 1 ∧ s.kernel.file 5 = none ∧
        s.kernel.ended 0 = false ∧ ∃ c ∈ s.calls, c.callback = .recvCb ∧ c.length = 0)
      (by decide +kernel)
  refine ⟨s, hs, haccepted, hfile, hended, ⟨c, hc, hcallback, hlength⟩, fun hlive => ?_⟩
  have hpos := hlive.asked c hc hcallback
  omega

end CPStudy.Epoll.WebServer
