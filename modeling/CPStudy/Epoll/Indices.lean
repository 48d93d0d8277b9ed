import CPStudy.Epoll.Lengths

/-!
# The indices into `connlist`

The descriptors by which `main` and the callbacks index `connlist` come from `socket`, from `accept`
and from the events, which `epoll` reports for what was registered before. The events are of entries
that were written when their descriptors came from the first two, so that the index is in range as
long as it was there (`fault_index_iff`). `reactor.c` indexes by whatever `init_server` returns, and
`webserver.c` by whatever `accept` returns, in a table of 1024 entries.
-/

namespace CPStudy.Epoll.Server

open Function (update)

variable {cfg : Config} {s s' : State cfg} {e : Event} {a : Action} {others : ℕ → Bool}

/-- The indices into `connlist` that a step uses. -/
def indices (s : State cfg) : Action → List ℤ
  | .initServer sockfd =>
    -- `main` returns before the access where it looks at what `bind` returns.
    if sockfd < 0 ∧ cfg.exitsOnBindError = true then [] else [sockfd]
  | .accept clientfd =>
    match s.batch with
    | [] => []
    | e :: _ =>
      (e.fd : ℤ) ::
        if callbackOf s e = some .acceptCb ∧ ¬clientfd < 0 then [clientfd] else []
  | .recv _ => s.batch.head?.toList.map fun e => (e.fd : ℤ)
  | .send _ => s.batch.head?.toList.map fun e => (e.fd : ℤ)
  | .epollWait _ => []
  | .finish _ => []

/-- An index of `connlist`. -/
def InTable (cfg : Config) (i : ℤ) : Prop := 0 ≤ i ∧ i < cfg.tableSize

/-- What `init_server` and `accept` return is an index of `connlist`, where it is used as one. -/
def Indexed (cfg : Config) : Action → Prop
  | .initServer sockfd => InTable cfg sockfd ∨ (sockfd < 0 ∧ cfg.exitsOnBindError = true)
  | .accept clientfd => InTable cfg clientfd ∨ clientfd < 0
  | .epollWait _ => True
  | .recv _ => True
  | .send _ => True
  | .finish _ => True

/-- The descriptor of the next event is an index of `connlist`. -/
theorem Next.inTable {callback : RCallback} (hnext : Next s e callback) :
    InTable cfg (e.fd : ℤ) := by
  have hlt := hnext.fd
  unfold InTable
  omega

/-- What stands at the head of the batch is an index of `connlist`. -/
theorem Table.inTable_head (htable : Table s) :
    ∀ i ∈ s.batch.head?.toList.map fun e => (e.fd : ℤ), InTable cfg i := by
  cases hbatch : s.batch with
  | nil => nofun
  | cons e rest =>
    obtain ⟨callback, hnext⟩ := htable.next_of_batch hbatch
    exact List.forall_mem_singleton.mpr hnext.inTable

/-- The indices of a step of `accept_cb`. -/
theorem indices_accept {clientfd : ℤ} (hnext : Next s e .acceptCb) :
    indices s (.accept clientfd) =
      (e.fd : ℤ) :: if ¬clientfd < 0 then [clientfd] else [] := by
  unfold indices
  rw [hnext.batch]
  simp only [hnext.callback, true_and]

/-- The indices of a step are in range exactly where what `init_server` and `accept` return is. -/
theorem indices_iff (htable : Table s) (h : step s a = some s') :
    (∀ i ∈ indices s a, InTable cfg i) ↔ Indexed cfg a := by
  cases a with
  | initServer sockfd =>
    unfold indices Indexed
    dsimp only
    split
    case isTrue hexit => exact ⟨fun _ => .inr hexit, fun _ => nofun⟩
    case isFalse hexit => rw [List.forall_mem_singleton, or_iff_left hexit]
  | accept clientfd =>
    obtain ⟨e, hnext, -⟩ := acceptCb_of_step htable h
    unfold Indexed
    dsimp only
    rw [indices_accept hnext, List.forall_mem_cons, and_iff_right hnext.inTable]
    -- The first index is that of the listening socket; the second is used where `accept` succeeds.
    split
    case isTrue hneg => rw [List.forall_mem_singleton, or_iff_left hneg]
    case isFalse hneg => exact ⟨fun _ => .inr (not_not.mp hneg), fun _ => nofun⟩
  | recv result => exact ⟨fun _ => trivial, fun _ => htable.inTable_head⟩
  | send count => exact ⟨fun _ => trivial, fun _ => htable.inTable_head⟩
  | epollWait events => exact ⟨fun _ => trivial, fun _ => nofun⟩
  | finish id => exact ⟨fun _ => trivial, fun _ => nofun⟩

/-- Leaving a buffer is not leaving `connlist`. -/
theorem fault_crash_ne : (s.crash .length).fault ≠ some .index := by
  intro h
  cases h

/-- The end of `recv_cb` uses no other index than its beginning. -/
theorem fault_reply_ne (hfault : s.fault = none) (item : ConnItem cfg.bufferLength)
    (kernel : Kernel) (length : ℕ) (count : ℤ) :
    (reply s e item kernel length count).fault ≠ some .index := by
  unfold reply
  split
  case h_1 => exact fault_crash_ne
  case h_2 => exact fault_ne hfault .index

/-- `recv_cb` on an entry of `connlist`. -/
theorem fault_recvCb_ne (hfault : s.fault = none) {result : Option (List UInt8)}
    (h : recvCb s e result = some s') : s'.fault ≠ some .index := by
  have hne := fault_ne hfault .index
  unfold recvCb at h
  dsimp only at h
  split at h
  case isFalse => exact Option.some.inj h ▸ fault_crash_ne
  case isTrue =>
    cases result with
    | none => exact Option.some.inj h ▸ fault_reply_ne hfault _ _ _ _
    | some bytes =>
      dsimp only at h
      split at h
      case h_1 id hfile =>
        obtain ⟨hrecv, h⟩ := Option.dite_none_right_eq_some.mp h
        split at h
        case isTrue => exact Option.some.inj h ▸ hne
        case isFalse => exact Option.some.inj h ▸ fault_reply_ne hfault _ _ _ _
      all_goals cases h

/-- `send_cb` on an entry of `connlist`. -/
theorem fault_sendCb_ne (hfault : s.fault = none) {count : ℤ} (h : sendCb s e count = some s') :
    s'.fault ≠ some .index := by
  have hne := fault_ne hfault .index
  unfold sendCb at h
  dsimp only at h
  split at h
  case isFalse => exact Option.some.inj h ▸ fault_crash_ne
  case isTrue =>
    split at h
    case isTrue => exact Option.some.inj h ▸ hne
    case isFalse =>
      split at h
      case h_1 =>
        obtain ⟨-, h⟩ := Option.ite_none_right_eq_some.mp h
        exact Option.some.inj h ▸ hne
      all_goals cases h

/-- `accept_cb` leaves `connlist` exactly where the new descriptor is no index of it. -/
theorem fault_acceptCb_iff (hfault : s.fault = none) {clientfd : ℤ}
    (h : acceptCb s e clientfd = some s') :
    s'.fault = some .index ↔ ¬(InTable cfg clientfd ∨ clientfd < 0) := by
  have hne := fault_ne hfault .index
  unfold acceptCb at h
  unfold InTable
  split at h
  case isTrue hneg =>
    rw [← Option.some.inj h]
    exact ⟨fun hf => absurd hf hne, fun hcon => absurd (.inr hneg) hcon⟩
  case isFalse hneg =>
    obtain ⟨-, h⟩ := Option.ite_none_right_eq_some.mp h
    split at h
    case isTrue hfd =>
      rw [← Option.some.inj h]
      exact ⟨fun hf => absurd hf hne, fun hcon => by omega⟩
    case isFalse hfd =>
      rw [← Option.some.inj h]
      exact ⟨fun _ => by omega, fun _ => rfl⟩

/-- `main` leaves `connlist` exactly where what `init_server` returns is no index of it, and it does
not return at once. -/
theorem fault_initServer_iff (hfault : s.fault = none) {sockfd : ℤ}
    (h : initServer s sockfd = some s') :
    s'.fault = some .index ↔
      ¬(InTable cfg sockfd ∨ (sockfd < 0 ∧ cfg.exitsOnBindError = true)) := by
  have hne := fault_ne hfault .index
  unfold initServer at h
  unfold InTable
  split at h
  case h_1 =>
    split at h
    case isTrue hneg =>
      split at h
      case isTrue hexit =>
        rw [← Option.some.inj h]
        exact ⟨fun hf => absurd hf hne, fun hcon => absurd (.inr ⟨hneg, hexit⟩) hcon⟩
      case isFalse hexit =>
        rw [← Option.some.inj h]
        refine ⟨fun _ => ?_, fun _ => rfl⟩
        rintro (hcon | hcon)
        · omega
        · exact hexit hcon.2
    case isFalse hneg =>
      obtain ⟨-, h⟩ := Option.ite_none_right_eq_some.mp h
      split at h
      case isTrue hfd =>
        rw [← Option.some.inj h]
        exact ⟨fun hf => absurd hf hne, fun hcon => by omega⟩
      case isFalse hfd =>
        rw [← Option.some.inj h]
        exact ⟨fun _ => by omega, fun _ => rfl⟩
  all_goals cases h

/-- A step leaves `connlist` exactly where one of the indices that it uses does. -/
theorem fault_index_iff (htable : Table s) (h : step s a = some s') :
    s'.fault = some .index ↔ ∃ i ∈ indices s a, ¬InTable cfg i := by
  have hfault := (effect_of_step h).1
  have hout : (∃ i ∈ indices s a, ¬InTable cfg i) ↔ ¬Indexed cfg a := by
    rw [← indices_iff htable h]
    push Not
    rfl
  rw [hout]
  have hne := fault_ne hfault .index
  -- Only `set_event` and `accept_cb` index the table with what they are given.
  cases a with
  | accept clientfd =>
    obtain ⟨e, -, haccept⟩ := acceptCb_of_step htable h
    exact fault_acceptCb_iff hfault haccept
  | recv result =>
    obtain ⟨e, -, hrecv⟩ := recvCb_of_step htable h
    exact ⟨fun hf => absurd hf (fault_recvCb_ne hfault hrecv), fun hcon => absurd trivial hcon⟩
  | send count =>
    obtain ⟨e, -, hsend⟩ := sendCb_of_step htable h
    exact ⟨fun hf => absurd hf (fault_sendCb_ne hfault hsend), fun hcon => absurd trivial hcon⟩
  | initServer sockfd =>
    unfold step at h
    rw [if_pos hfault] at h
    exact fault_initServer_iff hfault h
  | epollWait events =>
    unfold step at h
    rw [if_pos hfault] at h
    obtain ⟨-, h⟩ := Option.ite_none_right_eq_some.mp h
    exact ⟨fun hf => absurd hf (Option.some.inj h ▸ hne), fun hcon => absurd trivial hcon⟩
  | finish id =>
    unfold step at h
    rw [if_pos hfault] at h
    exact ⟨fun hf => absurd hf (Option.some.inj h ▸ hne), fun hcon => absurd trivial hcon⟩

end CPStudy.Epoll.Server

namespace CPStudy.Epoll

open Server

/-- `socket` and `accept` return descriptors below the limit of the process, where they do not
fail. -/
def BelowLimit (limit : ℤ) : Action → Prop
  | .initServer sockfd => sockfd < limit
  | .accept clientfd => clientfd < limit
  | .epollWait _ => True
  | .recv _ => True
  | .send _ => True
  | .finish _ => True

instance (limit : ℤ) (a : Action) : Decidable (BelowLimit limit a) :=
  match a with
  | .initServer sockfd => inferInstanceAs (Decidable (sockfd < limit))
  | .accept clientfd => inferInstanceAs (Decidable (clientfd < limit))
  | .epollWait _ => isTrue trivial
  | .recv _ => isTrue trivial
  | .send _ => isTrue trivial
  | .finish _ => isTrue trivial

/-- `init_server` does not return -1: neither `socket` nor `bind` fails. -/
def Opens : Action → Prop
  | .initServer sockfd => 0 ≤ sockfd
  | .epollWait _ => True
  | .accept _ => True
  | .recv _ => True
  | .send _ => True
  | .finish _ => True

instance (a : Action) : Decidable (Opens a) :=
  match a with
  | .initServer sockfd => inferInstanceAs (Decidable (0 ≤ sockfd))
  | .epollWait _ => isTrue trivial
  | .accept _ => isTrue trivial
  | .recv _ => isTrue trivial
  | .send _ => isTrue trivial
  | .finish _ => isTrue trivial

/-- In a run in which what `init_server` and `accept` return can be used as an index, `connlist` is
never left, and a step from there uses indices of `connlist` if and only if this goes on. -/
theorem Server.index_iff {cfg : Config} {others : ℕ → Bool} {s : State cfg}
    (hs : ReachableIf others (fun _ a => Indexed cfg a) s) :
    s.fault ≠ some .index ∧ ∀ a s', step s a = some s' →
      ((∀ i ∈ indices s a, InTable cfg i) ↔ Indexed cfg a) := by
  constructor
  · -- The events are of entries, so only what the step gets from the kernel is left to look at.
    refine Lib.Reaches.invariant_of (I := fun t : State cfg => t.fault ≠ some .index) (J := Table)
      (fun t ht => table_of_reachable (ReachableIf.reachable ht)) nofun
      (fun t a u htable _ hok hstep => ?_) hs
    rw [ne_eq, fault_index_iff htable hstep]
    push Not
    exact (indices_iff htable hstep).mpr hok
  · intro a s' hstep
    exact indices_iff (table_of_reachable hs.reachable) hstep

/-- `reactor.c` has a table for all descriptors, and goes on where `bind` fails. -/
theorem Reactor.indexed_iff {a : Action} (h : BelowLimit 1048576 a) :
    Indexed Reactor.config a ↔ Opens a := by
  cases a with
  | initServer sockfd =>
    unfold BelowLimit at h
    show (0 ≤ sockfd ∧ sockfd < 1048576) ∨ (sockfd < 0 ∧ false = true) ↔ 0 ≤ sockfd
    simp only [Bool.false_eq_true, and_false, or_false]
    exact and_iff_left h
  | accept clientfd =>
    unfold BelowLimit at h
    show (0 ≤ clientfd ∧ clientfd < 1048576) ∨ clientfd < 0 ↔ True
    rw [iff_true]
    omega
  | epollWait | recv | send | finish => exact Iff.rfl

/-- `webserver.c` has a table of 1024 entries, and returns where `bind` fails. -/
theorem WebServer.indexed_iff (a : Action) : Indexed WebServer.config a ↔ BelowLimit 1024 a := by
  cases a with
  | initServer sockfd =>
    show (0 ≤ sockfd ∧ sockfd < 1024) ∨ (sockfd < 0 ∧ true = true) ↔ sockfd < 1024
    rw [and_iff_left rfl]
    omega
  | accept clientfd =>
    show (0 ≤ clientfd ∧ clientfd < 1024) ∨ clientfd < 0 ↔ clientfd < 1024
    omega
  | epollWait | recv | send | finish => exact Iff.rfl

/-- In `reactor.c`, with descriptors below 1048576: as long as `init_server` does not return -1,
every index into `connlist` is in range, and `connlist[sockfd]` is out of range where it does. In
`webserver.c`: as long as `socket` and `accept` return descriptors below 1024, or fail, every index
into `connlist` is in range, and the first descriptor from 1024 on is an index out of range. -/
theorem index_of_belowLimit (others : ℕ → Bool) :
    (∀ s : State Reactor.config,
      ReachableIf others (fun _ a => BelowLimit 1048576 a ∧ Opens a) s →
        s.fault ≠ some .index ∧ ∀ a s', BelowLimit 1048576 a → step s a = some s' →
          ((∀ i ∈ indices s a, 0 ≤ i ∧ i < 1048576) ↔ Opens a)) ∧
    ∀ s : State WebServer.config, ReachableIf others (fun _ a => BelowLimit 1024 a) s →
      s.fault ≠ some .index ∧ ∀ a s', step s a = some s' →
        ((∀ i ∈ indices s a, 0 ≤ i ∧ i < 1024) ↔ BelowLimit 1024 a) := by
  constructor
  · intro s hs
    have hindexed : ReachableIf others (fun _ a => Indexed Reactor.config a) s :=
      hs.mono fun t a hok => (Reactor.indexed_iff hok.1).mpr hok.2
    obtain ⟨hfault, hiff⟩ := index_iff hindexed
    exact ⟨hfault, fun a s' hlimit hstep => (hiff a s' hstep).trans (Reactor.indexed_iff hlimit)⟩
  · intro s hs
    have hindexed : ReachableIf others (fun _ a => Indexed WebServer.config a) s :=
      hs.mono fun t a hok => (WebServer.indexed_iff a).mpr hok
    obtain ⟨hfault, hiff⟩ := index_iff hindexed
    exact ⟨hfault, fun a s' hstep => (hiff a s' hstep).trans (WebServer.indexed_iff a)⟩

/-- A run of `reactor.c` with a large descriptor, and one of `webserver.c` in which `accept`
fails. -/
theorem index_of_belowLimit_run :
    (∃ s : State Reactor.config, s.kernel.received 0 = [97] ∧ s.fault ≠ some .index) ∧
    ∃ s : State WebServer.config, s.calls.length = 1 ∧ s.fault ≠ some .index := by
  constructor
  · obtain ⟨s, hs, hreceived⟩ := exists_reachable (fun fd => decide (fd < 4))
      (fun _ a => BelowLimit 1048576 a ∧ Opens a) (reportedRun 4 1048575 ++ [.recv (some [97])])
      (fun s : State Reactor.config => s.kernel.received 0 = [97]) (by decide +kernel)
    exact ⟨s, hreceived, ((index_of_belowLimit _).1 s hs).1⟩
  · obtain ⟨s, hs, hcalls⟩ := exists_reachable (fun fd => decide (fd < 3))
      (fun _ a => BelowLimit 1024 a)
      [.initServer 3, .epollWait [(3, .epollin)], .accept (-1)]
      (fun s : State WebServer.config => s.calls.length = 1) (by decide +kernel)
    exact ⟨s, hcalls, ((index_of_belowLimit _).2 s hs).1⟩

/-- Where `bind` fails for the second port `reactor.c` writes to `connlist[-1]`, and `webserver.c`
writes to `connlist[1024]` when `accept` returns 1024. -/
theorem index_of_belowLimit_outside :
    (∃ s s' : State Reactor.config, Reachable (fun fd => decide (fd < 4)) s ∧
      step s (.initServer (-1)) = some s' ∧ -1 ∈ indices s (.initServer (-1)) ∧
      s'.fault = some .index) ∧
    ∃ s s' : State WebServer.config, Reachable (fun fd => decide (fd < 3)) s ∧
      step s (.accept 1024) = some s' ∧ 1024 ∈ indices s (.accept 1024) ∧
      s'.fault = some .index := by
  constructor
  · obtain ⟨s, hs, hfault⟩ := exists_reachable (fun fd => decide (fd < 4)) (fun _ _ => True)
      [.initServer 4]
      (fun s : State Reactor.config => -1 ∈ indices s (.initServer (-1)) ∧
        (step s (.initServer (-1))).any (fun s' => decide (s'.fault = some .index)) = true)
      (by decide +kernel)
    obtain ⟨hindex, hfault⟩ := hfault
    obtain ⟨s', hstep, hfault⟩ := exists_fault hfault
    exact ⟨s, s', hs, hstep, hindex, hfault⟩
  · obtain ⟨s, hs, hfault⟩ := exists_reachable (fun fd => decide (fd < 3)) (fun _ _ => True)
      [.initServer 3, .epollWait [(3, .epollin)]]
      (fun s : State WebServer.config => 1024 ∈ indices s (.accept 1024) ∧
        (step s (.accept 1024)).any (fun s' => decide (s'.fault = some .index)) = true)
      (by decide +kernel)
    obtain ⟨hindex, hfault⟩ := hfault
    obtain ⟨s', hstep, hfault⟩ := exists_fault hfault
    exact ⟨s, s', hs, hstep, hindex, hfault⟩

end CPStudy.Epoll
