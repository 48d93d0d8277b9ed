import CPStudy.Epoll.Server.Effect

/-!
# Descriptors, interest sets, `connlist` and the batch

`Table` says how the four agree after every step. What carries it through a batch is that an event
of the batch still finds the file it was reported for, in the interest set it was reported from: a
descriptor is closed and its interest set is changed by its own callback alone, and the batch holds
it only once.
-/

namespace CPStudy.Epoll.Server

open Function (update)

variable {cfg : Config} {s s' : State cfg} {e : Event} {a : Action}

/-- The descriptors, the interest sets, `connlist` and the batch agree. -/
structure Table (s : State cfg) : Prop where
  /-- The callback of `recv_t` is `accept_cb` exactly for the listening sockets. -/
  listener : ∀ fd, (s.conn fd).recvT = some .acceptCb ↔ s.kernel.file fd = some .listener
  /-- A connection has `recv_cb` there, and `send_cb`. -/
  callbacks : ∀ fd id, s.kernel.file fd = some (.conn id) →
    (s.conn fd).recvT = some .recvCb ∧ (s.conn fd).sendCallback = some .sendCb
  /-- A connection is registered. -/
  connected : ∀ fd id, s.kernel.file fd = some (.conn id) → s.kernel.interest fd ≠ none
  /-- What is registered is a listening socket or a connection, and lies in `connlist`. -/
  registered : ∀ fd ev, s.kernel.interest fd = some ev → fd < cfg.tableSize ∧
    ((s.kernel.file fd = some .listener ∧ ev = .epollin) ∨
      ∃ id, s.kernel.file fd = some (.conn id))
  /-- A connection has one descriptor. -/
  unique : ∀ fd fd' id, s.kernel.file fd = some (.conn id) → s.kernel.file fd' = some (.conn id) →
    fd = fd'
  /-- Connections are numbered in the order in which they are accepted. -/
  number : ∀ fd id, s.kernel.file fd = some (.conn id) → id < s.kernel.accepted
  /-- An event of the batch still finds its file, in its interest set. -/
  batch : ∀ e ∈ s.batch, s.kernel.interest e.fd = some e.events ∧ e.file = s.kernel.file e.fd
  /-- The batch holds each descriptor once. -/
  nodup : (s.batch.map Event.fd).Nodup

namespace Table

/-- Nothing is registered that is not open. -/
theorem interest_eq_none (h : Table s) {fd : ℕ} (hfd : s.kernel.file fd = none) :
    s.kernel.interest fd = none := by
  cases hi : s.kernel.interest fd with
  | none => rfl
  | some ev =>
    rcases (h.registered fd ev hi).2 with ⟨hf, -⟩ | ⟨id, hf⟩
    · rw [hf] at hfd; cases hfd
    · rw [hf] at hfd; cases hfd

/-- The next event is in the batch. -/
theorem mem_of_next {callback : RCallback} (hnext : Next s e callback) : e ∈ s.batch := by
  rw [hnext.batch]
  exact List.mem_cons_self ..

/-- What is left of the batch is of other descriptors. -/
theorem tail_ne (h : Table s) (hbatch : s.batch = e :: s.batch.tail) :
    ∀ e' ∈ s.batch.tail, e'.fd ≠ e.fd := by
  have hnodup := h.nodup
  rw [hbatch, List.map_cons, List.nodup_cons] at hnodup
  intro e' he' heq
  exact hnodup.1 (List.mem_map.mpr ⟨e', he', heq⟩)

/-- `accept_cb` runs on a listening socket, and the other two on a connection: `recv_cb` when it is
waiting for data, and `send_cb` when it is waiting to be written to. -/
theorem next (h : Table s) {callback : RCallback} (hnext : Next s e callback) :
    (callback = .acceptCb ∧ s.kernel.file e.fd = some .listener) ∨
    (callback = .recvCb ∧ s.kernel.interest e.fd = some .epollin ∧
      ∃ id, s.kernel.file e.fd = some (.conn id)) ∨
    (callback = .sendCb ∧ s.kernel.interest e.fd = some .epollout ∧
      ∃ id, s.kernel.file e.fd = some (.conn id)) := by
  have hinterest := (h.batch e (mem_of_next hnext)).1
  have hcallback := hnext.callback
  unfold callbackOf at hcallback
  -- What the event was reported for is registered still, so it is a listener or a connection.
  rcases (h.registered e.fd _ hinterest).2 with ⟨hfile, hin⟩ | ⟨id, hfile⟩
  · -- A listening socket is registered for `EPOLLIN` only.
    rw [hin, (h.listener e.fd).mpr hfile] at hcallback
    exact .inl ⟨(Option.some.inj hcallback).symm, hfile⟩
  · obtain ⟨hrecv, hsend⟩ := h.callbacks e.fd id hfile
    cases hev : e.events with
    | epollin =>
      rw [hev, hrecv] at hcallback
      rw [hev] at hinterest
      exact .inr (.inl ⟨(Option.some.inj hcallback).symm, hinterest, id, hfile⟩)
    | epollout =>
      rw [hev, hsend] at hcallback
      rw [hev] at hinterest
      exact .inr (.inr ⟨(Option.some.inj hcallback).symm, hinterest, id, hfile⟩)

/-- Where `accept_cb` runs. -/
theorem next_accept (h : Table s) (hnext : Next s e .acceptCb) :
    s.kernel.file e.fd = some .listener := by
  rcases h.next hnext with ⟨-, hfile⟩ | ⟨hne, -⟩ | ⟨hne, -⟩
  · exact hfile
  · cases hne
  · cases hne

/-- Where `recv_cb` runs. -/
theorem next_recv (h : Table s) (hnext : Next s e .recvCb) :
    s.kernel.interest e.fd = some .epollin ∧ ∃ id, s.kernel.file e.fd = some (.conn id) := by
  rcases h.next hnext with ⟨hne, -⟩ | ⟨-, hrest⟩ | ⟨hne, -⟩
  · cases hne
  · exact hrest
  · cases hne

/-- Where `send_cb` runs. -/
theorem next_send (h : Table s) (hnext : Next s e .sendCb) :
    s.kernel.interest e.fd = some .epollout ∧ ∃ id, s.kernel.file e.fd = some (.conn id) := by
  rcases h.next hnext with ⟨hne, -⟩ | ⟨hne, -⟩ | ⟨-, hrest⟩
  · cases hne
  · cases hne
  · exact hrest

/-- The server before `main`. -/
theorem init (cfg : Config) (others : ℕ → Bool) : Table (State.init cfg others) where
  listener := fun fd => by
    show (none : Option RCallback) = _ ↔ (if others fd then some File.other else none) = _
    cases others fd <;> simp
  callbacks := fun fd id h => by
    change (if others fd then some File.other else none) = _ at h
    cases hfd : others fd <;> simp [hfd] at h
  connected := fun fd id h => by
    change (if others fd then some File.other else none) = _ at h
    cases hfd : others fd <;> simp [hfd] at h
  registered := fun fd ev h => by cases h
  unique := fun fd fd' id h _ => by
    change (if others fd then some File.other else none) = _ at h
    cases hfd : others fd <;> simp [hfd] at h
  number := fun fd id h => by
    change (if others fd then some File.other else none) = _ at h
    cases hfd : others fd <;> simp [hfd] at h
  batch := fun e he => by cases he
  nodup := List.nodup_nil

/-- A step that leaves the descriptors, the interest sets, `connlist` and the batch alone. -/
theorem congr (h : Table s) (hfile : s'.kernel.file = s.kernel.file)
    (hinterest : s'.kernel.interest = s.kernel.interest)
    (haccepted : s'.kernel.accepted = s.kernel.accepted) (hconn : s'.conn = s.conn)
    (hbatch : ∀ e ∈ s'.batch, e ∈ s.batch) (hnodup : (s'.batch.map Event.fd).Nodup) : Table s' where
  listener := by rw [hconn, hfile]; exact h.listener
  callbacks := by rw [hconn, hfile]; exact h.callbacks
  connected := by rw [hfile, hinterest]; exact h.connected
  registered := by rw [hfile, hinterest]; exact h.registered
  unique := by rw [hfile]; exact h.unique
  number := by rw [hfile, haccepted]; exact h.number
  batch := fun e he => by
    rw [hfile, hinterest]
    exact h.batch e (hbatch e he)
  nodup := hnodup

/-- The batch without its first event. -/
theorem nodup_tail (h : Table s) : (s.batch.tail.map Event.fd).Nodup := by
  rw [List.map_tail]
  exact h.nodup.sublist (List.tail_sublist _)

/-- A callback on a connection changes its interest set. -/
theorem turn (h : Table s) {id : ℕ} {ev : Interest} (hbatch : s.batch = e :: s.batch.tail)
    (hfd : s.kernel.file e.fd = some (.conn id)) (hfile : s'.kernel.file = s.kernel.file)
    (hinterest : s'.kernel.interest = update s.kernel.interest e.fd (some ev))
    (haccepted : s'.kernel.accepted = s.kernel.accepted)
    (hconn : ∀ fd, (s'.conn fd).recvT = (s.conn fd).recvT ∧
      (s'.conn fd).sendCallback = (s.conn fd).sendCallback)
    (hbatch' : s'.batch = s.batch.tail) : Table s' where
  listener := fun fd => by rw [(hconn fd).1, hfile]; exact h.listener fd
  callbacks := fun fd id => by rw [(hconn fd).1, (hconn fd).2, hfile]; exact h.callbacks fd id
  connected := fun fd id' hf => by
    rw [hfile] at hf
    rw [hinterest]
    rcases eq_or_ne fd e.fd with rfl | hne
    · rw [Function.update_self]; simp
    · rw [Function.update_of_ne hne]; exact h.connected fd id' hf
  registered := fun fd ev' hev => by
    rw [hinterest] at hev
    rw [hfile]
    -- The descriptor was registered before with the other event, and so lies in `connlist`.
    rcases eq_or_ne fd e.fd with rfl | hne
    · have hold := h.connected e.fd id hfd
      obtain ⟨ev₀, hev₀⟩ := Option.ne_none_iff_exists'.mp hold
      exact ⟨(h.registered e.fd ev₀ hev₀).1, .inr ⟨id, hfd⟩⟩
    · rw [Function.update_of_ne hne] at hev
      exact h.registered fd ev' hev
  unique := by rw [hfile]; exact h.unique
  number := by rw [hfile, haccepted]; exact h.number
  batch := fun e' he' => by
    rw [hbatch'] at he'
    rw [hinterest, hfile, Function.update_of_ne (h.tail_ne hbatch e' he')]
    exact h.batch e' (List.mem_of_mem_tail he')
  nodup := by rw [hbatch']; exact h.nodup_tail

/-- A connection is closed by its own callback. -/
theorem close (h : Table s) {id : ℕ} (hbatch : s.batch = e :: s.batch.tail)
    (hfd : s.kernel.file e.fd = some (.conn id))
    (hfile : s'.kernel.file = update s.kernel.file e.fd none)
    (hinterest : ∀ fd, fd ≠ e.fd → s'.kernel.interest fd = s.kernel.interest fd)
    (hnone : s'.kernel.interest e.fd = none)
    (haccepted : s'.kernel.accepted = s.kernel.accepted) (hconn : s'.conn = s.conn)
    (hbatch' : s'.batch = s.batch.tail) : Table s' := by
  -- An open descriptor is another one, and was open before.
  have hopen : ∀ fd f, s'.kernel.file fd = some f → fd ≠ e.fd ∧ s.kernel.file fd = some f := by
    intro fd f hf
    rw [hfile] at hf
    rcases eq_or_ne fd e.fd with rfl | hne
    · rw [Function.update_self] at hf; cases hf
    · rw [Function.update_of_ne hne] at hf; exact ⟨hne, hf⟩
  refine { listener := fun fd => ?_, callbacks := fun fd id' hf => ?_,
           connected := fun fd id' hf => ?_, registered := fun fd ev hev => ?_,
           unique := fun fd fd' id' hf hf' => ?_, number := fun fd id' hf => ?_,
           batch := fun e' he' => ?_, nodup := ?_ }
  · rw [hconn]
    rcases eq_or_ne fd e.fd with rfl | hne
    · rw [hfile, Function.update_self, (h.callbacks e.fd id hfd).1]
      simp
    · rw [hfile, Function.update_of_ne hne]
      exact h.listener fd
  · rw [hconn]
    exact h.callbacks fd id' (hopen fd _ hf).2
  · obtain ⟨hne, hf⟩ := hopen fd _ hf
    rw [hinterest fd hne]
    exact h.connected fd id' hf
  · -- `close` takes the descriptor out of the `epoll` instance.
    rcases eq_or_ne fd e.fd with rfl | hne
    · rw [hnone] at hev; cases hev
    · rw [hinterest fd hne] at hev
      rw [hfile, Function.update_of_ne hne]
      exact h.registered fd ev hev
  · exact h.unique fd fd' id' (hopen fd _ hf).2 (hopen fd' _ hf').2
  · rw [haccepted]
    exact h.number fd id' (hopen fd _ hf).2
  · rw [hbatch'] at he'
    have hne := h.tail_ne hbatch e' he'
    rw [hinterest _ hne, hfile, Function.update_of_ne hne]
    exact h.batch e' (List.mem_of_mem_tail he')
  · rw [hbatch']
    exact h.nodup_tail

/-- A listening socket or a connection is opened on a descriptor that was not open. -/
theorem opened (h : Table s) {fd : ℕ} {f : File} (hfd : s.kernel.file fd = none)
    (hindex : fd < cfg.tableSize) (hfile : s'.kernel.file = update s.kernel.file fd (some f))
    (hinterest : s'.kernel.interest = update s.kernel.interest fd (some .epollin))
    (hconn : ∀ fd', fd' ≠ fd → s'.conn fd' = s.conn fd')
    (hf : (f = .listener ∧ (s'.conn fd).recvT = some .acceptCb ∧
        s'.kernel.accepted = s.kernel.accepted) ∨
      (f = .conn s.kernel.accepted ∧ (s'.conn fd).recvT = some .recvCb ∧
        (s'.conn fd).sendCallback = some .sendCb ∧
        s'.kernel.accepted = s.kernel.accepted + 1))
    (hbatch : ∀ e ∈ s'.batch, e ∈ s.batch) (hnodup : (s'.batch.map Event.fd).Nodup) : Table s' := by
  have hle : s.kernel.accepted ≤ s'.kernel.accepted := by
    rcases hf with ⟨-, -, h⟩ | ⟨-, -, -, h⟩ <;> omega
  -- A connection was there before, or is the one that was accepted.
  have hold : ∀ fd' id, s'.kernel.file fd' = some (.conn id) →
      (fd' ≠ fd ∧ s.kernel.file fd' = some (.conn id)) ∨
      (fd' = fd ∧ f = .conn id ∧ id = s.kernel.accepted) := by
    intro fd' id hc
    rw [hfile] at hc
    rcases eq_or_ne fd' fd with rfl | hne
    · rw [Function.update_self] at hc
      have heq : f = .conn id := Option.some.inj hc
      rcases hf with ⟨rfl, -⟩ | ⟨rfl, -⟩
      · cases heq
      · exact .inr ⟨rfl, heq, (File.conn.inj heq).symm⟩
    · rw [Function.update_of_ne hne] at hc
      exact .inl ⟨hne, hc⟩
  refine { listener := fun fd' => ?_, callbacks := fun fd' id hc => ?_,
           connected := fun fd' id hc => ?_, registered := fun fd' ev hev => ?_,
           unique := fun fd' fd'' id hc hc' => ?_, number := fun fd' id hc => ?_,
           batch := fun e he => ?_, nodup := hnodup }
  · rcases eq_or_ne fd' fd with rfl | hne
    · rw [hfile, Function.update_self]
      rcases hf with ⟨rfl, hr, -⟩ | ⟨rfl, hr, -⟩
      · simp [hr]
      · simp [hr]
    · rw [hconn fd' hne, hfile, Function.update_of_ne hne]
      exact h.listener fd'
  · rcases hold fd' id hc with ⟨hne, hc⟩ | ⟨rfl, hfc, -⟩
    · rw [hconn fd' hne]
      exact h.callbacks fd' id hc
    · rcases hf with ⟨rfl, -⟩ | ⟨-, hr, hs, -⟩
      · cases hfc
      · exact ⟨hr, hs⟩
  · rw [hinterest]
    rcases hold fd' id hc with ⟨hne, hc⟩ | ⟨rfl, -, -⟩
    · rw [Function.update_of_ne hne]
      exact h.connected fd' id hc
    · rw [Function.update_self]
      simp
  · rw [hinterest] at hev
    rcases eq_or_ne fd' fd with rfl | hne
    · rw [Function.update_self] at hev
      obtain rfl := Option.some.inj hev
      refine ⟨hindex, ?_⟩
      rw [hfile, Function.update_self]
      rcases hf with ⟨rfl, -⟩ | ⟨rfl, -⟩
      · exact .inl ⟨rfl, rfl⟩
      · exact .inr ⟨_, rfl⟩
    · rw [Function.update_of_ne hne] at hev
      rw [hfile, Function.update_of_ne hne]
      exact h.registered fd' ev hev
  · -- The new connection has a number that no other has.
    rcases hold fd' id hc with ⟨-, hc⟩ | ⟨rfl, -, hid⟩
    · rcases hold fd'' id hc' with ⟨-, hc'⟩ | ⟨rfl, -, hid⟩
      · exact h.unique fd' fd'' id hc hc'
      · have := h.number fd' id hc
        omega
    · rcases hold fd'' id hc' with ⟨-, hc'⟩ | ⟨rfl, -, -⟩
      · have := h.number fd'' id hc'
        omega
      · rfl
  · rcases hold fd' id hc with ⟨-, hc⟩ | ⟨rfl, hfc, hid⟩
    · exact lt_of_lt_of_le (h.number fd' id hc) hle
    · rcases hf with ⟨rfl, -⟩ | ⟨-, -, -, hacc⟩
      · cases hfc
      · omega
  · -- An event of the batch is of a registered descriptor, and so not of the new one.
    obtain ⟨hi, hfl⟩ := h.batch e (hbatch e he)
    have hne : e.fd ≠ fd := by
      rintro rfl
      rw [h.interest_eq_none hfd] at hi
      cases hi
    rw [hinterest, hfile, Function.update_of_ne hne, Function.update_of_ne hne]
    exact ⟨hi, hfl⟩

/-- The callbacks of the entries after the update of one of them. -/
theorem callbacks_update {fd : ℕ} {item : ConnItem cfg.bufferLength}
    (hrecv : item.recvT = (s.conn fd).recvT) (hsend : item.sendCallback = (s.conn fd).sendCallback)
    (fd' : ℕ) : (update s.conn fd item fd').recvT = (s.conn fd').recvT ∧
      (update s.conn fd item fd').sendCallback = (s.conn fd').sendCallback := by
  rcases eq_or_ne fd' fd with rfl | hne
  · rw [Function.update_self]
    exact ⟨hrecv, hsend⟩
  · rw [Function.update_of_ne hne]
    exact ⟨rfl, rfl⟩

/-- Every step keeps the table. -/
theorem step (h : Table s) (he : Effect s a s') : Table s' := by
  cases he with
  | crash _ fault _ => exact h.congr rfl rfl rfl rfl (fun _ he => he) h.nodup
  | returned sockfd => exact h.congr rfl rfl rfl rfl (fun _ he => he) h.nodup
  | opened sockfd left fd hmain hfd hfile =>
    refine h.opened (f := .listener) hfile hfd Kernel.file_ctlAdd
      (Kernel.interest_listen (h.interest_eq_none hfile))
      (fun fd' hne => Function.update_of_ne hne ..) (.inl ⟨rfl, ?_, Kernel.accepted_ctlAdd⟩)
      (fun _ he => he) h.nodup
    dsimp only
    rw [Function.update_self]
  | waited events hmain hbatch hlength hnodup hevents =>
    -- The whole batch is new: it is what the interest sets hold now.
    refine { h with batch := fun e he => ?_, nodup := ?_ }
    · obtain ⟨⟨fd, ev⟩, hmem, rfl⟩ := List.mem_map.mp he
      exact ⟨hevents _ hmem, rfl⟩
    · rw [List.map_map]
      exact hnodup
  | finished id => exact h.congr rfl rfl rfl rfl (fun _ he => he) h.nodup
  | acceptFailed e clientfd hnext hneg =>
    exact h.congr rfl rfl rfl rfl (fun _ he => List.mem_of_mem_tail he) h.nodup_tail
  | accepted e clientfd fd hnext hfd hlistener hfile =>
    have hitem : update s.conn fd (ConnItem.accepted cfg.bufferLength fd) fd =
        ConnItem.accepted cfg.bufferLength fd := Function.update_self ..
    refine h.opened (f := .conn s.kernel.accepted) hfile hfd Kernel.file_ctlAdd
      (Kernel.interest_accept (h.interest_eq_none hfile))
      (fun fd' hne => Function.update_of_ne hne ..)
      (.inr ⟨rfl, ?_, ?_, Kernel.accepted_ctlAdd⟩)
      (fun _ he => List.mem_of_mem_tail he) h.nodup_tail
    · dsimp only
      rw [hitem]
      rfl
    · dsimp only
      rw [hitem]
      rfl
  | recvFailed e item hnext hitem =>
    obtain ⟨-, id, hfd⟩ := h.next_recv hnext
    obtain ⟨hrecv, hsend⟩ := cfg.respond_callbacks _ _ hitem
    exact h.turn hnext.batch hfd Kernel.file_ctlMod
      (Kernel.interest_ctlMod (h.connected e.fd id hfd)) Kernel.accepted_ctlMod
      (callbacks_update hrecv hsend) rfl
  | recvClosed e id hnext hfile hrecv =>
    exact h.close hnext.batch hfile rfl (fun fd hne => Kernel.interest_close_of_ne hne)
      (Function.update_self ..) rfl rfl rfl
  | received e id bytes item hnext hfile hrlen hrecv hne hfits hitem =>
    have hreg : (s.kernel.recv id bytes).interest e.fd ≠ none := h.connected e.fd id hfile
    obtain ⟨hcrecv, hcsend⟩ := cfg.respond_callbacks _ _ hitem
    exact h.turn hnext.batch hfile Kernel.file_ctlMod (Kernel.interest_ctlMod hreg)
      Kernel.accepted_ctlMod (callbacks_update hcrecv hcsend) rfl
  | sendFailed e hnext hwlen =>
    obtain ⟨-, id, hfd⟩ := h.next_send hnext
    exact h.turn hnext.batch hfd Kernel.file_ctlMod
      (Kernel.interest_ctlMod (h.connected e.fd id hfd)) Kernel.accepted_ctlMod
      (fun _ => ⟨rfl, rfl⟩) rfl
  | sent e id count hnext hfile hwlen hcount =>
    have hreg : (s.kernel.send id ((sendBytes s e.fd).take count.toNat)).interest e.fd ≠ none :=
      h.connected e.fd id hfile
    exact h.turn hnext.batch hfile Kernel.file_ctlMod (Kernel.interest_ctlMod hreg)
      Kernel.accepted_ctlMod (fun _ => ⟨rfl, rfl⟩) rfl

end Table

/-- The table is right in every reachable state. -/
theorem table_of_reachable {others : ℕ → Bool} (hs : Reachable others s) : Table s :=
  hs.invariant Table (Table.init cfg others) fun _ _ _ h he => h.step he

end CPStudy.Epoll.Server
