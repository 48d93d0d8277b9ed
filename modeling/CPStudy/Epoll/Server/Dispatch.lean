import CPStudy.Epoll.Server.Table

/-!
# Which callback runs on which connection

With the table at hand, every callback runs on the file for which its event was reported, and on a
connection `recv_cb` and `send_cb` take turns: `EPOLLIN` and `EPOLLOUT` say whose turn it is.
`Turns` relates the interest set of a connection to the calls made on it so far, and adds that what
is in `wbuffer` while `send_cb` is due is what the last `recv_cb` has left there.

Nothing goes wrong in a run in which `init_server` succeeds, every descriptor lies within `connlist`
and `recv` does not return -1 (`fault_eq_none`).
-/

namespace CPStudy.Epoll.Server

open Function (update)

variable {cfg : Config} {s s' : State cfg} {e : Event} {a : Action}

/-- Rounds of one `recv_cb` and one `send_cb` that is passed what `recv_cb` has left in
`wbuffer`. -/
inductive Rounds : List (RCallback × List UInt8) → Prop
  /-- No round. -/
  | nil : Rounds []
  /-- One round more. -/
  | snoc {l : List (RCallback × List UInt8)} (payload : List UInt8) (h : Rounds l) :
      Rounds (l ++ [(.recvCb, payload)] ++ [(.sendCb, payload)])

/-- Rounds, with a last one that may be half done. -/
inductive Alternating : List (RCallback × List UInt8) → Prop
  /-- It is done. -/
  | whole {l : List (RCallback × List UInt8)} (h : Rounds l) : Alternating l
  /-- `send_cb` is missing. -/
  | half {l : List (RCallback × List UInt8)} (payload : List UInt8) (h : Rounds l) :
      Alternating (l ++ [(.recvCb, payload)])

/-- The calls on a connection, each with the bytes that it leaves or passes on. -/
def callsOn (calls : List Call) (id : ℕ) : List (RCallback × List UInt8) :=
  (calls.filter fun c => c.target = some (.conn id)).map fun c => (c.callback, c.payload)

/-- What is right about a call. -/
structure Call.Right (c : Call) : Prop where
  /-- The callback runs on the file for which the event was reported. -/
  target : c.target = c.reported
  /-- That file is open. -/
  opened : c.target ≠ none
  /-- It is `accept_cb` that runs on the listening sockets. -/
  listener : c.callback = .acceptCb ↔ c.target = some .listener

/-- What is right about the calls made so far and about `connlist`. -/
structure Dispatched (s : State cfg) : Prop where
  /-- Every callback runs where it belongs. -/
  right : ∀ c ∈ s.calls, c.Right
  /-- `recv_t` holds `accept_cb` exactly for the listening sockets. -/
  listener : ∀ fd, (s.conn fd).recvT = some .acceptCb ↔ s.kernel.file fd = some .listener
  /-- On a connection `recv_cb` and `send_cb` alternate. -/
  alternating : ∀ id, Alternating (callsOn s.calls id)

/-- Whose turn it is on each connection. -/
structure Turns (s : State cfg) : Prop where
  /-- With `EPOLLIN` it is `recv_cb`'s. -/
  waiting : ∀ fd id, s.kernel.file fd = some (.conn id) → s.kernel.interest fd = some .epollin →
    Rounds (callsOn s.calls id)
  /-- With `EPOLLOUT` it is `send_cb`'s, and the last `recv_cb` has left what is in `wbuffer`. -/
  filled : ∀ fd id, s.kernel.file fd = some (.conn id) → s.kernel.interest fd = some .epollout →
    ∃ l, Rounds l ∧ callsOn s.calls id = l ++ [(.recvCb, sendBytes s fd)]
  /-- The calls alternate, also on a connection that is closed. -/
  alternating : ∀ id, Alternating (callsOn s.calls id)
  /-- There are none on a connection that is not accepted yet. -/
  fresh : ∀ id, s.kernel.accepted ≤ id → callsOn s.calls id = []

/-- A call on the connection itself. -/
theorem callsOn_self {calls : List Call} {c : Call} {id : ℕ} (h : c.target = some (.conn id)) :
    callsOn (calls ++ [c]) id = callsOn calls id ++ [(c.callback, c.payload)] := by
  unfold callsOn
  rw [List.filter_append, List.map_append, List.filter_cons_of_pos (by simpa using h)]
  rfl

/-- A call elsewhere. -/
theorem callsOn_of_ne {calls : List Call} {c : Call} {id : ℕ} (h : c.target ≠ some (.conn id)) :
    callsOn (calls ++ [c]) id = callsOn calls id := by
  unfold callsOn
  rw [List.filter_append, List.filter_cons_of_neg (by simpa using h), List.filter_nil,
    List.append_nil]

namespace Turns

/-- The server before `main`. -/
theorem init (cfg : Config) (others : ℕ → Bool) : Turns (State.init cfg others) where
  waiting := fun _ _ _ h => by cases h
  filled := fun _ _ _ h => by cases h
  alternating := fun _ => .whole .nil
  fresh := fun _ _ => rfl

/-- A step that does nothing on a connection. -/
theorem congr (h : Turns s) (hfile : s'.kernel.file = s.kernel.file)
    (hinterest : s'.kernel.interest = s.kernel.interest)
    (haccepted : s'.kernel.accepted = s.kernel.accepted) (hconn : s'.conn = s.conn)
    (hcalls : ∀ id, callsOn s'.calls id = callsOn s.calls id) : Turns s' where
  waiting := fun fd id => by
    rw [hfile, hinterest, hcalls]
    exact h.waiting fd id
  filled := fun fd id => by
    unfold sendBytes
    rw [hfile, hinterest, hcalls, hconn]
    exact h.filled fd id
  alternating := fun id => by
    rw [hcalls]
    exact h.alternating id
  fresh := fun id hid => by
    rw [haccepted] at hid
    rw [hcalls]
    exact h.fresh id hid

/-- A listening socket or a connection is opened, the latter with a number of its own. -/
theorem opened (h : Turns s) {fd : ℕ} {f : File}
    (hfile : s'.kernel.file = update s.kernel.file fd (some f))
    (hinterest : s'.kernel.interest = update s.kernel.interest fd (some .epollin))
    (hconn : ∀ fd', fd' ≠ fd → s'.conn fd' = s.conn fd')
    (hf : f = .listener ∨ f = .conn s.kernel.accepted)
    (haccepted : s.kernel.accepted ≤ s'.kernel.accepted)
    (hcalls : ∀ id, callsOn s'.calls id = callsOn s.calls id) : Turns s' where
  waiting := fun fd' id hc hev => by
    rw [hcalls]
    rcases eq_or_ne fd' fd with rfl | hne
    -- The new connection has no call yet.
    · rw [hfile, Function.update_self] at hc
      have hconnf : f = .conn id := Option.some.inj hc
      rcases hf with rfl | rfl
      · cases hconnf
      · rw [← File.conn.inj hconnf, h.fresh _ le_rfl]
        exact .nil
    · rw [hfile, Function.update_of_ne hne] at hc
      rw [hinterest, Function.update_of_ne hne] at hev
      exact h.waiting fd' id hc hev
  filled := fun fd' id hc hev => by
    rw [hcalls]
    rcases eq_or_ne fd' fd with rfl | hne
    · rw [hinterest, Function.update_self] at hev
      cases hev
    · rw [hfile, Function.update_of_ne hne] at hc
      rw [hinterest, Function.update_of_ne hne] at hev
      unfold sendBytes
      rw [hconn fd' hne]
      exact h.filled fd' id hc hev
  alternating := fun id => by
    rw [hcalls]
    exact h.alternating id
  fresh := fun id hid => by
    rw [hcalls]
    exact h.fresh id (haccepted.trans hid)

/-- What a callback on a connection leaves of it: it is closed, or it is the turn of the other
callback. -/
inductive After (s' : State cfg) (fd id : ℕ) : Prop
  /-- It is closed. -/
  | closed (hfile : s'.kernel.file fd = none)
  /-- `recv_cb` is next. -/
  | emptied (hinterest : s'.kernel.interest fd = some .epollin) (h : Rounds (callsOn s'.calls id))
  /-- `send_cb` is next. -/
  | filled (l : List (RCallback × List UInt8)) (hinterest : s'.kernel.interest fd = some .epollout)
      (h : Rounds l) (hcalls : callsOn s'.calls id = l ++ [(.recvCb, sendBytes s' fd)])

/-- A callback runs on a connection. -/
theorem called (h : Turns s) (htable : Table s) {id : ℕ} {c : Call}
    (hfd : s.kernel.file e.fd = some (.conn id)) (hcalls : s'.calls = s.calls ++ [c])
    (hc : c.target = s.kernel.file e.fd)
    (hother : ∀ fd, fd ≠ e.fd → s'.kernel.file fd = s.kernel.file fd ∧
      s'.kernel.interest fd = s.kernel.interest fd ∧ s'.conn fd = s.conn fd)
    (hself : ∀ f, s'.kernel.file e.fd = some f → f = .conn id)
    (haccepted : s'.kernel.accepted = s.kernel.accepted)
    (halternating : Alternating (callsOn s'.calls id)) (hafter : After s' e.fd id) : Turns s' := by
  rw [hfd] at hc
  have hsame : ∀ id', id' ≠ id → callsOn s'.calls id' = callsOn s.calls id' := by
    intro id' hne
    rw [hcalls]
    refine callsOn_of_ne fun heq => hne ?_
    rw [hc] at heq
    exact (File.conn.inj (Option.some.inj heq)).symm
  -- Another descriptor is that of another connection.
  have hother' : ∀ fd id', fd ≠ e.fd → s'.kernel.file fd = some (.conn id') →
      s.kernel.file fd = some (.conn id') ∧ id' ≠ id := by
    intro fd id' hne hfile
    rw [(hother fd hne).1] at hfile
    refine ⟨hfile, ?_⟩
    rintro rfl
    exact hne (htable.unique fd e.fd id' hfile hfd)
  refine { waiting := fun fd id' hfile hev => ?_, filled := fun fd id' hfile hev => ?_,
           alternating := fun id' => ?_, fresh := fun id' hid => ?_ }
  · rcases eq_or_ne fd e.fd with rfl | hne
    · obtain rfl := File.conn.inj (hself _ hfile)
      cases hafter with
      | closed hnone => rw [hnone] at hfile; cases hfile
      | emptied _ hrounds => exact hrounds
      | filled l hev' _ _ => rw [hev'] at hev; cases hev
    · obtain ⟨hold, hid⟩ := hother' fd id' hne hfile
      rw [(hother fd hne).2.1] at hev
      rw [hsame id' hid]
      exact h.waiting fd id' hold hev
  · rcases eq_or_ne fd e.fd with rfl | hne
    · obtain rfl := File.conn.inj (hself _ hfile)
      cases hafter with
      | closed hnone => rw [hnone] at hfile; cases hfile
      | emptied hev' _ => rw [hev'] at hev; cases hev
      | filled l _ hrounds hlast => exact ⟨l, hrounds, hlast⟩
    · obtain ⟨hold, hid⟩ := hother' fd id' hne hfile
      rw [(hother fd hne).2.1] at hev
      unfold sendBytes
      rw [hsame id' hid, (hother fd hne).2.2]
      exact h.filled fd id' hold hev
  · rcases eq_or_ne id' id with rfl | hne
    · exact halternating
    · rw [hsame id' hne]
      exact h.alternating id'
  · rw [haccepted] at hid
    have hne : id' ≠ id := by
      rintro rfl
      have := htable.number e.fd id' hfd
      omega
    rw [hsame id' hne]
    exact h.fresh id' hid

/-- What `set_event` does on a connection: its interest set is the new one, and nothing else
changes. -/
theorem setEvent (htable : Table s) {id : ℕ} (hfd : s.kernel.file e.fd = some (.conn id))
    {kernel : Kernel} (hfile : kernel.file = s.kernel.file)
    (hinterest : kernel.interest = s.kernel.interest) (ev : Interest) :
    (kernel.ctlMod e.fd ev).interest e.fd = some ev ∧
      (∀ fd, fd ≠ e.fd → (kernel.ctlMod e.fd ev).file fd = s.kernel.file fd ∧
        (kernel.ctlMod e.fd ev).interest fd = s.kernel.interest fd) ∧
      ∀ f, (kernel.ctlMod e.fd ev).file e.fd = some f → f = .conn id := by
  have hreg : kernel.interest e.fd ≠ none := by
    rw [hinterest]
    exact htable.connected e.fd id hfd
  rw [Kernel.interest_ctlMod hreg, Kernel.file_ctlMod, hfile, hinterest]
  refine ⟨Function.update_self .., fun fd hne => ⟨rfl, Function.update_of_ne hne ..⟩, ?_⟩
  intro f hf
  exact Option.some.inj (hf.symm.trans hfd)

/-- `recv_cb` has left bytes in `wbuffer`. -/
theorem replied (h : Turns s) (htable : Table s) (hnext : Next s e .recvCb) {id : ℕ}
    (hfd : s.kernel.file e.fd = some (.conn id)) (kernel : Kernel)
    (hfile : kernel.file = s.kernel.file) (hinterest : kernel.interest = s.kernel.interest)
    (haccepted : kernel.accepted = s.kernel.accepted) (item : ConnItem cfg.bufferLength)
    (length : ℕ) (count : ℤ) :
    Turns { s.record e .recvCb length count (item.wbuffer.read item.wlen.toNat) with
      kernel := kernel.ctlMod e.fd .epollout
      conn := update s.conn e.fd item } := by
  -- The call begins a round, and `wbuffer` holds what it records.
  have hrounds := h.waiting e.fd id hfd (htable.next_recv hnext).1
  obtain ⟨hev, hother, hself⟩ := setEvent htable hfd hfile hinterest .epollout
  refine h.called htable hfd rfl rfl
    (fun fd hne => ⟨(hother fd hne).1, (hother fd hne).2, Function.update_of_ne hne ..⟩) hself
    (Kernel.accepted_ctlMod.trans haccepted) ?_ (.filled (callsOn s.calls id) hev hrounds ?_)
  · rw [State.record, callsOn_self hfd]
    exact .half _ hrounds
  · unfold sendBytes
    rw [State.record, callsOn_self hfd]
    dsimp only
    rw [Function.update_self]

/-- `send_cb` has passed on what is in `wbuffer`. -/
theorem passed (h : Turns s) (htable : Table s) (hnext : Next s e .sendCb) {id : ℕ}
    (hfd : s.kernel.file e.fd = some (.conn id)) (kernel : Kernel)
    (hfile : kernel.file = s.kernel.file) (hinterest : kernel.interest = s.kernel.interest)
    (haccepted : kernel.accepted = s.kernel.accepted) (length : ℕ) (count : ℤ) :
    Turns { s.record e .sendCb length count (sendBytes s e.fd) with
      kernel := kernel.ctlMod e.fd .epollin } := by
  obtain ⟨l, hrounds, hlast⟩ := h.filled e.fd id hfd (htable.next_send hnext).1
  obtain ⟨hev, hother, hself⟩ := setEvent htable hfd hfile hinterest .epollin
  -- The call completes the round that `recv_cb` has begun.
  have hround : Rounds (callsOn (s.record e .sendCb length count (sendBytes s e.fd)).calls id) := by
    rw [State.record, callsOn_self hfd, hlast]
    exact .snoc _ hrounds
  exact h.called htable hfd rfl rfl
    (fun fd hne => ⟨(hother fd hne).1, (hother fd hne).2, rfl⟩) hself
    (Kernel.accepted_ctlMod.trans haccepted) (.whole hround) (.emptied hev hround)

/-- `recv_cb` has closed the connection. -/
theorem closed (h : Turns s) (htable : Table s) (hnext : Next s e .recvCb) {id : ℕ}
    (hfd : s.kernel.file e.fd = some (.conn id)) (length : ℕ) (count : ℤ) (payload : List UInt8) :
    Turns { s.record e .recvCb length count payload with
      kernel := (s.kernel.ctlDel e.fd).close e.fd } := by
  have hrounds := h.waiting e.fd id hfd (htable.next_recv hnext).1
  -- The last round stays half done.
  have hnone : ((s.kernel.ctlDel e.fd).close e.fd).file e.fd = none := Function.update_self ..
  refine h.called htable hfd rfl rfl
    (fun fd hne => ⟨Function.update_of_ne hne .., Kernel.interest_close_of_ne hne, rfl⟩)
    (fun f hf => ?_) rfl ?_ (.closed hnone)
  · dsimp only at hf
    rw [hnone] at hf
    cases hf
  · rw [State.record, callsOn_self hfd]
    exact .half _ hrounds

/-- A call of `accept_cb` is not on a connection. -/
theorem callsOn_accept (htable : Table s) (hnext : Next s e .acceptCb) (clientfd : ℤ) (id : ℕ) :
    callsOn (s.record e .acceptCb 0 clientfd []).calls id = callsOn s.calls id := by
  refine callsOn_of_ne fun heq => ?_
  have hlistener := htable.next_accept hnext
  dsimp only at heq
  rw [hlistener] at heq
  cases heq

/-- Every step keeps the turns. -/
theorem step (h : Turns s) (htable : Table s) (he : Effect s a s') : Turns s' := by
  cases he with
  | crash _ fault _ => exact h.congr rfl rfl rfl rfl fun _ => rfl
  | returned sockfd => exact h.congr rfl rfl rfl rfl fun _ => rfl
  | opened sockfd left fd hmain hfd hfile =>
    have hacc : ((s.kernel.listen fd).ctlAdd fd .epollin).accepted = s.kernel.accepted :=
      Kernel.accepted_ctlAdd
    exact h.opened Kernel.file_ctlAdd (Kernel.interest_listen (htable.interest_eq_none hfile))
      (fun fd' hne => Function.update_of_ne hne ..) (.inl rfl) hacc.ge fun _ => rfl
  | waited events hmain hbatch hlength hnodup hevents =>
    exact h.congr rfl rfl rfl rfl fun _ => rfl
  | finished id => exact h.congr rfl rfl rfl rfl fun _ => rfl
  | acceptFailed e clientfd hnext hneg =>
    exact h.congr rfl rfl rfl rfl fun id => callsOn_accept htable hnext clientfd id
  | accepted e clientfd fd hnext hfd hlistener hfile =>
    have hacc : ((s.kernel.accept fd).ctlAdd fd .epollin).accepted = s.kernel.accepted + 1 :=
      Kernel.accepted_ctlAdd
    exact h.opened Kernel.file_ctlAdd (Kernel.interest_accept (htable.interest_eq_none hfile))
      (fun fd' hne => Function.update_of_ne hne ..) (.inr rfl) ((Nat.le_succ _).trans hacc.ge)
      fun id => callsOn_accept htable hnext clientfd id
  | recvFailed e item hnext hitem =>
    obtain ⟨-, id, hfd⟩ := htable.next_recv hnext
    exact h.replied htable hnext hfd s.kernel rfl rfl rfl item _ _
  | recvClosed e id hnext hfile hrecv => exact h.closed htable hnext hfile _ _ _
  | received e id bytes item hnext hfile hrlen hrecv hne hfits hitem =>
    exact h.replied htable hnext hfile (s.kernel.recv id bytes) rfl rfl rfl item _ _
  | sendFailed e hnext hwlen =>
    obtain ⟨-, id, hfd⟩ := htable.next_send hnext
    exact h.passed htable hnext hfd s.kernel rfl rfl rfl _ _
  | sent e id count hnext hfile hwlen hcount =>
    exact h.passed htable hnext hfile
      (s.kernel.send id ((sendBytes s e.fd).take count.toNat)) rfl rfl rfl _ _

end Turns

/-- The call of the next callback is right. -/
theorem right_of_next (htable : Table s) {callback : RCallback} (hnext : Next s e callback)
    (length : ℕ) (count : ℤ) (payload : List UInt8) :
    Call.Right ⟨callback, e.file, s.kernel.file e.fd, length, count, payload⟩ := by
  have htarget : s.kernel.file e.fd = e.file := (htable.batch e (Table.mem_of_next hnext)).2.symm
  rcases htable.next hnext with ⟨rfl, hfile⟩ | ⟨rfl, -, id, hfile⟩ | ⟨rfl, -, id, hfile⟩
  all_goals refine ⟨htarget, ?_, ?_⟩
  all_goals simp [hfile]

/-- A step makes no call, or a right one. -/
theorem calls_of_effect (htable : Table s) (he : Effect s a s') :
    s'.calls = s.calls ∨ ∃ c : Call, s'.calls = s.calls ++ [c] ∧ c.Right := by
  cases he with
  | crash | returned | opened | waited | finished => exact .inl rfl
  | acceptFailed e _ hnext => exact .inr ⟨_, rfl, right_of_next htable hnext ..⟩
  | accepted e _ _ hnext => exact .inr ⟨_, rfl, right_of_next htable hnext ..⟩
  | recvFailed e _ hnext => exact .inr ⟨_, rfl, right_of_next htable hnext ..⟩
  | recvClosed e _ hnext => exact .inr ⟨_, rfl, right_of_next htable hnext ..⟩
  | received e _ _ _ hnext => exact .inr ⟨_, rfl, right_of_next htable hnext ..⟩
  | sendFailed e hnext => exact .inr ⟨_, rfl, right_of_next htable hnext ..⟩
  | sent e _ _ hnext => exact .inr ⟨_, rfl, right_of_next htable hnext ..⟩

variable {others : ℕ → Bool}

/-- The turns are kept in every reachable state. -/
theorem turns_of_reachable (hs : Reachable others s) : Turns s :=
  Lib.Reaches.invariant_of (J := Table) (fun _ ht => table_of_reachable ht)
    (Turns.init cfg others)
    (fun _ _ _ htable h _ hstep => h.step htable (effect_of_step hstep).2) hs

/-- Every event is handled where it belongs, in every run. -/
theorem dispatched_of_reachable (hs : Reachable others s) : Dispatched s := by
  refine ⟨?_, (table_of_reachable hs).listener, (turns_of_reachable hs).alternating⟩
  refine Lib.Reaches.invariant_of (J := Table) (fun _ ht => table_of_reachable ht)
    (I := fun t => ∀ c ∈ t.calls, c.Right)
    (fun c hc => by cases hc) (fun t a u htable h _ hstep c hc => ?_) hs
  rcases calls_of_effect htable (effect_of_step hstep).2 with heq | ⟨c', heq, hc'⟩
  · rw [heq] at hc
    exact h c hc
  · rw [heq, List.mem_append, List.mem_singleton] at hc
    rcases hc with hc | rfl
    · exact h c hc
    · exact hc'

/-- `init_server` succeeds, the descriptors lie within `connlist`, and `recv` does not return -1. -/
def WellBehaved (_ : State cfg) : Action → Prop
  | .initServer sockfd => 0 ≤ sockfd ∧ sockfd < cfg.tableSize
  | .accept clientfd => clientfd < cfg.tableSize
  | .recv bytes => bytes ≠ none
  | .epollWait _ => True
  | .send _ => True
  | .finish _ => True

instance (s : State cfg) (a : Action) : Decidable (WellBehaved s a) :=
  match a with
  | .initServer sockfd => inferInstanceAs (Decidable (0 ≤ sockfd ∧ sockfd < cfg.tableSize))
  | .accept clientfd => inferInstanceAs (Decidable (clientfd < cfg.tableSize))
  | .recv bytes => inferInstanceAs (Decidable (bytes ≠ none))
  | .epollWait _ => inferInstanceAs (Decidable True)
  | .send _ => inferInstanceAs (Decidable True)
  | .finish _ => inferInstanceAs (Decidable True)

/-- The lengths of a new entry lie within its buffers. -/
theorem inRange_zero (n : ℕ) : (ConnItem.zero n).InRange where
  rlen := ⟨le_rfl, Int.natCast_nonneg n⟩
  wlen := ⟨le_rfl, Int.natCast_nonneg n⟩

/-- The entry after data that fits is within its buffers before `recv_cb` responds. -/
theorem inRange_received {n : ℕ} {item : ConnItem n} (h : item.InRange) {bytes : List UInt8}
    (hfits : item.rlen.toNat + bytes.length ≤ n) :
    ConnItem.InRange { item with
      rbuffer := item.rbuffer.write item.rlen.toNat bytes hfits
      rlen := item.rlen + bytes.length } := by
  obtain ⟨hlo, hhi⟩ := h.rlen
  refine ⟨?_, h.wlen⟩
  dsimp only
  omega

/-- What `recv_cb` makes of an entry within its buffers is another. -/
theorem inRange_respond {item item' : ConnItem cfg.bufferLength} (h : item.InRange)
    (hitem : cfg.respond item = some item') : item'.InRange := by
  obtain ⟨item'', heq, hin⟩ := cfg.respond_inRange item h
  obtain rfl : item' = item'' := Option.some.inj (hitem.symm.trans heq)
  exact hin

/-- What is true of every entry of `connlist` stays true if it is kept by what `main`, `accept_cb`
and `recv_cb` make of one. -/
theorem entries_step {P : ConnItem cfg.bufferLength → Prop} (h : ∀ fd, P (s.conn fd))
    (hopened : ∀ item fd, P item → P { item with fd := fd, recvT := some .acceptCb })
    (haccepted : ∀ fd, P (ConnItem.accepted cfg.bufferLength fd))
    (hfailed : ∀ item item', a = .recv none → P item →
      cfg.respond { item with rlen := item.rlen - 1 } = some item' → P item')
    (hreceived : ∀ item item' (bytes : List UInt8)
      (hfits : item.rlen.toNat + bytes.length ≤ cfg.bufferLength), P item →
      cfg.respond { item with
        rbuffer := item.rbuffer.write item.rlen.toNat bytes hfits
        rlen := item.rlen + bytes.length } = some item' → P item')
    (he : Effect s a s') : ∀ fd, P (s'.conn fd) := by
  -- One entry at most is replaced.
  have hupdate : ∀ fd item, P item → ∀ fd', P (update s.conn fd item fd') := by
    intro fd item hitem fd'
    rcases eq_or_ne fd' fd with rfl | hne
    · rw [Function.update_self]
      exact hitem
    · rw [Function.update_of_ne hne]
      exact h fd'
  cases he with
  | crash | returned | waited | finished | acceptFailed | recvClosed | sendFailed | sent => exact h
  | opened sockfd left fd hmain hfd hfile => exact hupdate fd _ (hopened _ fd (h fd))
  | accepted e clientfd fd hnext hfd hlistener hfile => exact hupdate fd _ (haccepted fd)
  | recvFailed e item hnext hitem => exact hupdate e.fd item (hfailed _ _ rfl (h e.fd) hitem)
  | received e id bytes item hnext hfile hrlen hrecv hne hfits hitem =>
    exact hupdate e.fd item (hreceived _ _ bytes hfits (h e.fd) hitem)

/-- Every entry of `connlist` is within its buffers in a run in which `recv` does not return -1. -/
theorem inRange_of_reachable {ok : State cfg → Action → Prop} (hok : ∀ t, ¬ok t (.recv none))
    (hs : ReachableIf others ok s) (fd : ℕ) : (s.conn fd).InRange := by
  refine Lib.Reaches.invariant (I := fun t : State cfg => ∀ fd, (t.conn fd).InRange)
    (fun _ => inRange_zero _) (fun t a u h ha hstep => ?_) hs fd
  refine entries_step h (fun item _ hin => ⟨hin.rlen, hin.wlen⟩)
    (fun _ => ⟨(inRange_zero _).rlen, (inRange_zero _).wlen⟩) (fun _ _ hnone _ _ => ?_)
    (fun _ _ _ hfits hin hitem => inRange_respond (inRange_received hin hfits) hitem)
    (effect_of_step hstep).2
  subst hnone
  exact absurd ha (hok t)

/-- A disciplined step does nothing that is undefined. -/
theorem not_crash (htable : Table s) (h : ∀ fd, (s.conn fd).InRange) (hok : WellBehaved s a) :
    ¬Crash s a := by
  intro hcrash
  cases hcrash with
  | port sockfd hport =>
    obtain ⟨h0, hlt⟩ := hok
    omega
  | client clientfd h0 hclient =>
    have hlt : clientfd < cfg.tableSize := hok
    omega
  | index _ e he hindex =>
    have hlt := (htable.registered e.fd _ (htable.batch e he).1).1
    omega
  -- The listener has `accept_cb`, and a connection has both of its callbacks.
  | callback _ e he hnull =>
    unfold callbackOf at hnull
    rcases (htable.registered e.fd _ (htable.batch e he).1).2 with ⟨hfile, hin⟩ | ⟨id, hfile⟩
    · rw [hin] at hnull
      dsimp only at hnull
      rw [(htable.listener e.fd).mpr hfile] at hnull
      cases hnull
    · obtain ⟨hrecv, hsend⟩ := htable.callbacks e.fd id hfile
      split at hnull
      · rw [hrecv] at hnull; cases hnull
      · rw [hsend] at hnull; cases hnull
  | range _ fd hrange => exact hrange (h fd)
  | error e hnext => exact hok rfl
  | respond _ item hrange hnone =>
    obtain ⟨item', heq, -⟩ := cfg.respond_inRange item hrange
    rw [heq] at hnone
    cases hnone

/-- Nothing goes wrong in a disciplined run. -/
theorem fault_eq_none (hs : ReachableIf others WellBehaved s) : s.fault = none := by
  refine Lib.Reaches.invariant_of (I := fun t : State cfg => t.fault = none)
    (J := fun t => Table t ∧ ∀ fd, (t.conn fd).InRange)
    (fun t ht => ⟨table_of_reachable (ReachableIf.reachable ht),
      inRange_of_reachable (fun _ h => h rfl) ht⟩) rfl
    (fun t a u hJ h hok hstep => ?_) hs
  have he := (effect_of_step hstep).2
  cases he with
  | crash _ fault hcrash => exact absurd hcrash (not_crash hJ.1 hJ.2 hok)
  | _ => exact h

end CPStudy.Epoll.Server
