import CPStudy.Epoll.MultiIo.Model

/-!
# Which descriptors the loop closes

Where `recv` returns 0 the loop calls `close(i)`, with the position of the event in its batch in the
place of its descriptor. `closes_of_aligned` says what comes of it: as long as the two are equal
whenever a connection ends, the loop closes exactly the connections that have ended, and the first
time they are not it closes something else, or nothing, and leaves the connection open.
-/

namespace CPStudy.Epoll.MultiIo

open Function (update)

variable {p : Setup} {s s' t : State} {a : Action}

/-- The connections whose end of stream has been handled. -/
def handled (s : State) : List ℕ := s.closes.map Close.id

/-- The loop closes exactly the connections that have ended. -/
structure ClosesEnded (p : Setup) (s : State) : Prop where
  /-- What is passed to `close` is the descriptor of the connection whose `recv` has returned 0. -/
  target : ∀ c ∈ s.closes, c.target = some (.conn c.id)
  /-- `close` is called once for each of them. -/
  once : (handled s).Nodup
  /-- The listening socket stays open. -/
  sockfd : s.kernel.file p.sockfd = some .listener
  /-- The `epoll` instance stays open. -/
  epfd : s.kernel.file p.epfd = some .other
  /-- The other descriptors stay open. -/
  others : ∀ fd, p.others fd = true → s.kernel.file fd = some .other
  /-- A connection is open if and only if it was accepted and its end of stream is not handled. -/
  clients : ∀ id, (∃ fd, s.kernel.file fd = some (.conn id)) ↔
    id < s.kernel.accepted ∧ id ∉ handled s

/-- Where a connection ends, the position of its event in the batch is its descriptor. -/
def Aligned (s : State) : Action → Prop
  | .recv bytes _ => bytes = some [] → ∀ e ∈ s.batch.head?, s.index = e.1
  | .epollWait _ => True
  | .accept _ => True
  | .skip => True
  | .finish _ => True

instance (s : State) (a : Action) : Decidable (Aligned s a) :=
  match a with
  | .recv bytes _ =>
    inferInstanceAs (Decidable (bytes = some [] → ∀ e ∈ s.batch.head?, s.index = e.1))
  | .epollWait _ => inferInstanceAs (Decidable True)
  | .accept _ => inferInstanceAs (Decidable True)
  | .skip => inferInstanceAs (Decidable True)
  | .finish _ => inferInstanceAs (Decidable True)

/-- What is kept besides: a connection has one descriptor and a number of its own. -/
structure Sound (p : Setup) (s : State) : Prop extends ClosesEnded p s where
  /-- A connection has one descriptor. -/
  unique : ∀ fd fd' id, s.kernel.file fd = some (.conn id) → s.kernel.file fd' = some (.conn id) →
    fd = fd'
  /-- The connections that were handled had been accepted. -/
  past : ∀ id ∈ handled s, id < s.kernel.accepted

/-- `epoll_ctl` changes the interest sets only. -/
theorem file_ctlAdd (kernel : Kernel) (fd : ℕ) : (ctlAdd p kernel fd).file = kernel.file := by
  unfold ctlAdd
  split
  · exact Kernel.file_ctlAdd
  · rfl

/-- `epoll_ctl` changes the interest sets only. -/
theorem accepted_ctlAdd (kernel : Kernel) (fd : ℕ) :
    (ctlAdd p kernel fd).accepted = kernel.accepted := by
  unfold ctlAdd
  split
  · exact Kernel.accepted_ctlAdd
  · rfl

/-- `close` closes one descriptor. -/
theorem file_close (kernel : Kernel) (fd : ℕ) :
    (close p kernel fd).file = update kernel.file fd none := by
  unfold close
  split <;> rfl

/-- `close` accepts nothing. -/
theorem accepted_close (kernel : Kernel) (fd : ℕ) :
    (close p kernel fd).accepted = kernel.accepted := by
  unfold close
  split <;> rfl

namespace Sound

/-- A connection that is open was accepted. -/
theorem number (h : Sound p s) {fd id : ℕ} (hfile : s.kernel.file fd = some (.conn id)) :
    id < s.kernel.accepted := ((h.clients id).mp ⟨fd, hfile⟩).1

/-- Before the loop. -/
theorem init (p : Setup) : Sound p (State.init p) := by
  have hsockfd : (State.init p).kernel.file p.sockfd = some .listener :=
    (Function.update_of_ne p.sockfd_ne ..).trans (Function.update_self ..)
  have hepfd : (State.init p).kernel.file p.epfd = some .other := Function.update_self ..
  have hrest : ∀ fd, fd ≠ p.sockfd → fd ≠ p.epfd →
      (State.init p).kernel.file fd = if p.others fd then some .other else none :=
    fun fd hs he => (Function.update_of_ne he ..).trans (Function.update_of_ne hs ..)
  have hnone : ∀ fd id, (State.init p).kernel.file fd ≠ some (.conn id) := by
    intro fd id hfile
    rcases eq_or_ne fd p.sockfd with rfl | hs
    · rw [hsockfd] at hfile
      cases hfile
    · rcases eq_or_ne fd p.epfd with rfl | he
      · rw [hepfd] at hfile
        cases hfile
      · rw [hrest fd hs he] at hfile
        cases hfd : p.others fd <;> simp [hfd] at hfile
  -- Nothing was accepted, so no descriptor is that of a connection.
  refine { target := ?_, once := List.nodup_nil, sockfd := hsockfd, epfd := hepfd, others := ?_,
           clients := ?_, unique := ?_, past := ?_ }
  · intro c hc
    cases hc
  · intro fd hfd
    have hs : fd ≠ p.sockfd := by
      rintro rfl
      rw [p.others_sockfd] at hfd
      cases hfd
    have he : fd ≠ p.epfd := by
      rintro rfl
      rw [p.others_epfd] at hfd
      cases hfd
    rw [hrest fd hs he, hfd]
    rfl
  · intro id
    constructor
    · rintro ⟨fd, hfile⟩
      exact absurd hfile (hnone fd id)
    · rintro ⟨hid, -⟩
      exact absurd hid (Nat.not_lt_zero id)
  · intro fd fd' id hfile
    exact absurd hfile (hnone fd id)
  · intro id hid
    cases hid

/-- A step that opens and closes nothing. -/
theorem congr (h : Sound p s) (hfile : s'.kernel.file = s.kernel.file)
    (haccepted : s'.kernel.accepted = s.kernel.accepted) (hcloses : s'.closes = s.closes) :
    Sound p s' where
  target := by rw [hcloses]; exact h.target
  once := by unfold handled; rw [hcloses]; exact h.once
  sockfd := by rw [hfile]; exact h.sockfd
  epfd := by rw [hfile]; exact h.epfd
  others := by rw [hfile]; exact h.others
  clients := by unfold handled; rw [hfile, haccepted, hcloses]; exact h.clients
  unique := by rw [hfile]; exact h.unique
  past := by unfold handled; rw [haccepted, hcloses]; exact h.past

/-- A connection is accepted on a descriptor that was not open. -/
theorem accept (h : Sound p s) {fd : ℕ} (hfd : s.kernel.file fd = none)
    (hfile : s'.kernel.file = update s.kernel.file fd (some (.conn s.kernel.accepted)))
    (haccepted : s'.kernel.accepted = s.kernel.accepted + 1) (hcloses : s'.closes = s.closes) :
    Sound p s' := by
  -- What was open still is, and a connection is an old one or the new one.
  have hopen : ∀ fd' f, s.kernel.file fd' = some f → s'.kernel.file fd' = some f := by
    intro fd' f hf
    have hne : fd' ≠ fd := by
      rintro rfl
      rw [hfd] at hf
      cases hf
    rw [hfile, Function.update_of_ne hne]
    exact hf
  have hold : ∀ fd' id, s'.kernel.file fd' = some (.conn id) →
      (fd' = fd ∧ id = s.kernel.accepted) ∨ s.kernel.file fd' = some (.conn id) := by
    intro fd' id hf
    rw [hfile] at hf
    rcases eq_or_ne fd' fd with rfl | hne
    · rw [Function.update_self] at hf
      exact .inl ⟨rfl, (File.conn.inj (Option.some.inj hf)).symm⟩
    · rw [Function.update_of_ne hne] at hf
      exact .inr hf
  have hhandled : handled s' = handled s := by
    unfold handled
    rw [hcloses]
  refine { target := ?_, once := ?_, sockfd := hopen _ _ h.sockfd, epfd := hopen _ _ h.epfd,
           others := fun fd' hfd' => hopen _ _ (h.others fd' hfd'), clients := fun id => ?_,
           unique := fun fd' fd'' id hf hf' => ?_, past := fun id hid => ?_ }
  · rw [hcloses]
    exact h.target
  · rw [hhandled]
    exact h.once
  -- The new connection is open and not handled; the others are as they were.
  · rw [hhandled, haccepted]
    constructor
    · rintro ⟨fd', hf⟩
      rcases hold fd' id hf with ⟨-, rfl⟩ | hf
      · exact ⟨Nat.lt_succ_self _, fun hid => Nat.lt_irrefl _ (h.past _ hid)⟩
      · obtain ⟨hlt, hid⟩ := (h.clients id).mp ⟨fd', hf⟩
        exact ⟨Nat.lt_succ_of_lt hlt, hid⟩
    · rintro ⟨hlt, hid⟩
      rcases Nat.lt_or_eq_of_le (Nat.le_of_lt_succ hlt) with hlt | rfl
      · obtain ⟨fd', hf⟩ := (h.clients id).mpr ⟨hlt, hid⟩
        exact ⟨fd', hopen _ _ hf⟩
      · exact ⟨fd, by rw [hfile, Function.update_self]⟩
  · rcases hold fd' id hf with ⟨rfl, rfl⟩ | hf
    · rcases hold fd'' _ hf' with ⟨rfl, -⟩ | hf'
      · rfl
      · exact absurd (h.number hf') (Nat.lt_irrefl _)
    · rcases hold fd'' id hf' with ⟨rfl, rfl⟩ | hf'
      · exact absurd (h.number hf) (Nat.lt_irrefl _)
      · exact h.unique fd' fd'' id hf hf'
  · rw [hhandled] at hid
    rw [haccepted]
    exact Nat.lt_succ_of_lt (h.past id hid)

/-- A connection is closed after its `recv` has returned 0. -/
theorem closed (h : Sound p s) {fd id : ℕ} (hfd : s.kernel.file fd = some (.conn id))
    (hfile : s'.kernel.file = update s.kernel.file fd none)
    (haccepted : s'.kernel.accepted = s.kernel.accepted)
    (hcloses : s'.closes = s.closes ++ [⟨fd, s.kernel.file fd, id⟩]) : Sound p s' := by
  obtain ⟨hlt, hnew⟩ := (h.clients id).mp ⟨fd, hfd⟩
  -- What stands for something else stays open.
  have hopen : ∀ fd' f, f ≠ .conn id → s.kernel.file fd' = some f →
      s'.kernel.file fd' = some f := by
    intro fd' f hne hf
    have hfd' : fd' ≠ fd := by
      rintro rfl
      exact hne (Option.some.inj (hf.symm.trans hfd))
    rw [hfile, Function.update_of_ne hfd']
    exact hf
  have hold : ∀ fd' f, s'.kernel.file fd' = some f → fd' ≠ fd ∧ s.kernel.file fd' = some f := by
    intro fd' f hf
    rw [hfile] at hf
    rcases eq_or_ne fd' fd with rfl | hne
    · rw [Function.update_self] at hf
      cases hf
    · rw [Function.update_of_ne hne] at hf
      exact ⟨hne, hf⟩
  have hhandled : handled s' = handled s ++ [id] := by
    unfold handled
    rw [hcloses, List.map_append]
    rfl
  refine { target := fun c hc => ?_, once := ?_, sockfd := hopen _ _ (by simp) h.sockfd,
           epfd := hopen _ _ (by simp) h.epfd,
           others := fun fd' hfd' => hopen _ _ (by simp) (h.others fd' hfd'),
           clients := fun id' => ?_, unique := fun fd' fd'' id' hf hf' => ?_,
           past := fun id' hid => ?_ }
  · rw [hcloses, List.mem_append, List.mem_singleton] at hc
    rcases hc with hc | rfl
    · exact h.target c hc
    · exact hfd
  · rw [hhandled]
    refine List.nodup_append.mpr ⟨h.once, by simp, fun x hx y hy => ?_⟩
    rw [List.mem_singleton] at hy
    rintro rfl
    exact hnew (hy ▸ hx)
  -- The connection leaves the open ones and joins the handled ones.
  · rw [hhandled, haccepted, List.mem_append, List.mem_singleton]
    constructor
    · rintro ⟨fd', hf⟩
      obtain ⟨hne, hf⟩ := hold fd' _ hf
      obtain ⟨hlt', hid'⟩ := (h.clients id').mp ⟨fd', hf⟩
      refine ⟨hlt', ?_⟩
      rintro (hid | rfl)
      · exact hid' hid
      · exact hne (h.unique fd' fd id' hf hfd)
    · rintro ⟨hlt', hid'⟩
      obtain ⟨fd', hf⟩ := (h.clients id').mpr ⟨hlt', fun hid => hid' (.inl hid)⟩
      refine ⟨fd', hopen fd' _ ?_ hf⟩
      intro heq
      exact hid' (.inr (File.conn.inj heq))
  · exact h.unique fd' fd'' id' (hold fd' _ hf).2 (hold fd'' _ hf').2
  · rw [hhandled, List.mem_append, List.mem_singleton] at hid
    rw [haccepted]
    rcases hid with hid | rfl
    · exact h.past id' hid
    · exact hlt

/-- An aligned step keeps it. -/
theorem step (h : Sound p s) (hok : Aligned s a) (he : Effect p s a s') : Sound p s' := by
  cases he with
  | same _ _ _ hfile haccepted hcloses => exact h.congr hfile haccepted hcloses
  | accepted clientfd fd hfile =>
    exact h.accept hfile (file_ctlAdd _ _) (accepted_ctlAdd _ _) rfl
  | closed connfd id events count hhead hfile =>
    -- `close(i)` is `close(connfd)` here.
    obtain rfl : s.index = connfd := hok rfl _ hhead
    exact h.closed hfile (file_close _ _) (accepted_close _ _) rfl

end Sound

/-- It is kept by every aligned run. -/
theorem sound_of_reachable (hs : ReachableIf p Aligned s) : Sound p s :=
  Lib.Reaches.invariant (Sound.init p)
    (fun _ _ _ h hok hstep => h.step hok (effect_of_step hstep)) hs

/-- A call of `close` stays in the history. -/
theorem mem_closes_of_reaches {c : Close} (hrun : Lib.Reaches (step p) (fun _ _ => True) s t)
    (hc : c ∈ s.closes) : c ∈ t.closes := by
  refine Lib.Reaches.invariant (I := fun u => c ∈ u.closes) hc (fun u b v h _ hstep => ?_) hrun
  have he := effect_of_step hstep
  cases he with
  | same _ _ _ _ _ hcloses => rw [hcloses]; exact h
  | accepted => exact h
  | closed => exact List.mem_append_left _ h

/-- A connection that ends at another position of the batch is not what `close` is called for. -/
theorem closes_of_not_aligned (h : Sound p s) (hstep : step p s a = some s')
    (hnot : ¬Aligned s a) : ∃ c ∈ s'.closes, c.target ≠ some (.conn c.id) := by
  have he := effect_of_step hstep
  cases he with
  | same _ _ hrecv =>
    cases a with
    | recv bytes count => exact absurd (fun heq => absurd (heq ▸ rfl) (hrecv count)) hnot
    | _ => exact absurd trivial hnot
  | accepted => exact absurd trivial hnot
  | closed connfd id events count hhead hfile =>
    refine ⟨_, List.mem_append_right _ (.head _), fun htarget => hnot fun _ e he => ?_⟩
    -- Were the target the connection, the position would be its one descriptor.
    obtain rfl : (connfd, events) = e := Option.some.inj (hhead.symm.trans he)
    exact h.unique s.index connfd id htarget hfile

/-- The loop closes exactly the connections that have ended, each once and nothing else, as long as
every connection ends at the position of the batch that is its descriptor; and not once one has
ended elsewhere. -/
theorem closes_of_aligned (p : Setup) :
    (∀ s, ReachableIf p Aligned s → ClosesEnded p s) ∧
      ∀ s s' t a, ReachableIf p Aligned s → step p s a = some s' → ¬Aligned s a →
        Lib.Reaches (step p) (fun _ _ => True) s' t → ¬ClosesEnded p t := by
  refine ⟨fun s hs => (sound_of_reachable hs).toClosesEnded, ?_⟩
  intro s s' t a hs hstep hnot hrun h
  obtain ⟨c, hc, htarget⟩ := closes_of_not_aligned (sound_of_reachable hs) hstep hnot
  exact htarget (h.target c (mem_closes_of_reaches hrun hc))

/-- A process with the standard streams open. -/
def standard : Setup where
  sockfd := 3
  epfd := 4
  others := fun fd => decide (fd < 3)
  sockfd_ne := by decide
  others_sockfd := by decide
  others_epfd := by decide

/-- Clients are accepted, one in each batch. -/
def acceptAll (p : Setup) (clients : List ℕ) : List Action :=
  clients.flatMap fun fd => [.epollWait [(p.sockfd, .epollin)], .accept fd]

/-- The first of six clients leaves while the other five send a byte, and its event is the last of
the batch, at the position 5. -/
def alignedRun (p : Setup) (byte : UInt8) : List Action :=
  acceptAll p [5, 6, 7, 8, 9, 10] ++ [.finish 0] ++
    [.epollWait ([6, 7, 8, 9, 10, 5].map fun fd => (fd, .epollin))] ++
    List.replicate 5 (.recv (some [byte]) 1) ++ [.recv (some []) 0]

/-- A run in which a connection is closed as it should be. -/
theorem closes_of_aligned_run : ∃ s, s.kernel.file 5 = none ∧ s.kernel.file 10 = some (.conn 5) ∧
    s.kernel.sent 5 = [97] ∧ handled s = [0] ∧ ClosesEnded standard s := by
  obtain ⟨s, hs, hfile, hlast, hsent, hhandled⟩ := exists_reachable standard Aligned
    (alignedRun standard 97)
    (fun s => s.kernel.file 5 = none ∧ s.kernel.file 10 = some (.conn 5) ∧
      s.kernel.sent 5 = [97] ∧ handled s = [0])
    (by decide +kernel)
  exact ⟨s, hfile, hlast, hsent, hhandled, (closes_of_aligned standard).1 s hs⟩

/-- The only client leaves. -/
def leavingRun (p : Setup) (client : ℕ) : List Action :=
  acceptAll p [client] ++ [.finish 0, .epollWait [(client, .epollin)], .recv (some []) 0]

/-- When the only client leaves, the loop closes the standard input and the connection stays
open. -/
theorem closes_of_aligned_leaving : ∃ s, ReachableIf standard (fun _ _ => True) s ∧
    s.closes = [⟨0, some .other, 0⟩] ∧ s.kernel.file 0 = none ∧
      s.kernel.file 5 = some (.conn 0) ∧ ¬ClosesEnded standard s := by
  obtain ⟨s, hs, hcloses, hfile, hclient⟩ := exists_reachable standard (fun _ _ => True)
    (leavingRun standard 5)
    (fun s => s.closes = [⟨0, some .other, 0⟩] ∧ s.kernel.file 0 = none ∧
      s.kernel.file 5 = some (.conn 0))
    (by decide +kernel)
  refine ⟨s, hs, hcloses, hfile, hclient, fun h => ?_⟩
  have hother := h.others 0 (by decide)
  rw [hfile] at hother
  cases hother

end CPStudy.Epoll.MultiIo
