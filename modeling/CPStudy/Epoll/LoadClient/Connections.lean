import Mathlib.Order.Interval.Finset.Nat
import CPStudy.Epoll.LoadClient.Model

/-!
# The count of the load client

Of the three places where the loop over the events closes `clientfd` only the one after `recv` has
returned 0 takes one from `connections`, and `recv` is called on `sockfd`. `balanced_of_accounted`
says what comes of it: the count is right as long as `clientfd` is closed only there and is
`sockfd`, and after the first other `close` it is too large, or a socket was closed on account of
another one, for the rest of the run.
-/

namespace CPStudy.Epoll.LoadClient

variable {others : ℕ → Bool} {s s' t : State} {a : Action} {ok : State → Action → Prop}

/-- `connections` counts the open sockets, and each socket closed was closed on its own account. -/
structure Balanced (s : State) : Prop where
  /-- The count. -/
  connections : s.connections = s.sockets.card
  /-- The sockets closed. -/
  own : ∀ c ∈ s.closes, c.Own

/-- Only `sockfd` is closed, and only after `recv` has returned 0. -/
def Accounted (s : State) : Action → Prop
  | .recv .ended => ∀ e ∈ s.batch.head?, e.fd = s.sockfd
  | .recv .error => False
  | .neither => False
  | .recv (.data _) => True
  | .recv .eintr => True
  | .connect _ => True
  | .epollWait _ => True
  | .send => True
  | .pass => True

/-- The events not handled yet are of different open sockets. -/
structure Fresh (s : State) : Prop where
  /-- They are different. -/
  nodup : (s.batch.map Event.fd).Nodup
  /-- They are open. -/
  sockets : ∀ e ∈ s.batch, e.fd ∈ s.sockets

/-- The next event is handled. -/
theorem Fresh.tail (h : Fresh s) :
    (s.batch.tail.map Event.fd).Nodup ∧ ∀ e ∈ s.batch.tail, e.fd ∈ s.sockets := by
  refine ⟨?_, fun e he => h.sockets e (List.mem_of_mem_tail he)⟩
  rw [List.map_tail]
  exact h.nodup.tail

/-- The socket of the next event is closed. -/
theorem Fresh.close (h : Fresh s) {e : Event} {rest : List Event} (hbatch : s.batch = e :: rest)
    (cause : Cause) : Fresh (s.close e.fd cause) := by
  have hnodup := h.nodup
  rw [hbatch, List.map_cons, List.nodup_cons] at hnodup
  obtain ⟨hnodup', hsockets⟩ := h.tail
  refine ⟨hnodup', fun e' he' => ?_⟩
  have hrest : e' ∈ rest := by
    have htail : s.batch.tail = rest := by
      rw [hbatch]
      rfl
    exact htail ▸ he'
  -- The other events are of other sockets, so they are still of open ones.
  refine Finset.mem_erase.mpr ⟨?_, hsockets e' he'⟩
  intro hfd
  exact hnodup.1 (hfd ▸ List.mem_map_of_mem hrest)

/-- A step preserves it. -/
theorem Fresh.step (h : Fresh s) (he : Effect s a s') : Fresh s' := by
  cases he with
  | connected fd hfd =>
    exact ⟨h.nodup, fun e he => Finset.mem_insert_of_mem (h.sockets e he)⟩
  | failed => exact ⟨h.nodup, h.sockets⟩
  | reported events hnodup hopen => exact ⟨hnodup, hopen⟩
  | handled => exact ⟨h.tail.1, h.tail.2⟩
  | ended e rest hbatch =>
    have hclose := h.close hbatch (.recv s.sockfd)
    exact ⟨hclose.nodup, hclose.sockets⟩
  | error e rest hbatch => exact h.close hbatch (.recv s.sockfd)
  | neither e rest hbatch => exact h.close hbatch .neither
  | passed => exact ⟨h.nodup, h.sockets⟩

/-- Before the loop. -/
theorem Fresh.init : Fresh State.init where
  nodup := List.nodup_nil
  sockets := fun _ he => absurd he List.not_mem_nil

/-- In every run the events are of different open sockets. -/
theorem fresh_of_run (hs : ReachableIf others ok s) : Fresh s :=
  Lib.Reaches.invariant (I := Fresh) Fresh.init
    (fun _ _ _ h _ hstep => h.step (effect_of_step hstep)) hs

/-- The socket of the next event is one of the open ones. -/
theorem Fresh.card_close (h : Fresh s) {e : Event} {rest : List Event}
    (hbatch : s.batch = e :: rest) (cause : Cause) :
    ((s.close e.fd cause).sockets.card : ℤ) = s.sockets.card - 1 := by
  -- Were the socket not open, `close` would leave the count of sockets as it is.
  have hmem : e.fd ∈ s.sockets := by
    refine h.sockets e ?_
    rw [hbatch]
    exact List.mem_cons_self ..
  have hpos := Finset.card_pos.mpr ⟨e.fd, hmem⟩
  show ((s.sockets.erase e.fd).card : ℤ) = s.sockets.card - 1
  rw [Finset.card_erase_of_mem hmem]
  omega

/-- Every socket closed, and one more. -/
theorem own_append {closes : List Close} {c : Close} :
    (∀ d ∈ closes ++ [c], d.Own) ↔ (∀ d ∈ closes, d.Own) ∧ c.Own := by
  rw [List.forall_mem_append, List.forall_mem_singleton]

/-- `recv` on `sockfd` is an account of the socket closed exactly where it is the same. -/
theorem own_recv {clientfd sockfd : ℕ} :
    ({ clientfd := clientfd, cause := .recv sockfd } : Close).Own ↔ clientfd = sockfd := by
  unfold Close.Own
  simp [eq_comm]

/-- Before the loop. -/
theorem Balanced.init : Balanced State.init where
  connections := rfl
  own := fun _ hc => absurd hc List.not_mem_nil

/-- A step that is accounted for keeps the balance. -/
theorem Balanced.step (h : Balanced s) (hfresh : Fresh s) (hok : Accounted s a)
    (he : Effect s a s') : Balanced s' := by
  have hconnections := h.connections
  cases he with
  | connected fd hfd =>
    refine ⟨?_, h.own⟩
    dsimp only
    rw [Finset.card_insert_of_notMem hfd]
    omega
  | ended e rest hbatch =>
    have hcard := hfresh.card_close hbatch (.recv s.sockfd)
    refine ⟨?_, own_append.mpr ⟨h.own, own_recv.mpr ?_⟩⟩
    · dsimp only
      omega
    · refine hok e ?_
      rw [hbatch]
      rfl
  | error | neither => exact hok.elim
  | failed | reported | handled | passed => exact ⟨hconnections, h.own⟩

/-- The count is too large, or a socket was closed on account of another one. -/
def Drifted (s : State) : Prop :=
  (s.sockets.card : ℤ) ≤ s.connections ∧
    ((s.sockets.card : ℤ) < s.connections ∨ ¬∀ c ∈ s.closes, c.Own)

/-- A drift is a want of balance. -/
theorem Drifted.not_balanced (h : Drifted s) : ¬Balanced s := by
  intro hbalanced
  have hconnections := hbalanced.connections
  rcases h.2 with hlt | hown
  · omega
  · exact hown hbalanced.own

/-- Closing a socket without taking one from `connections` makes a drift. -/
theorem Fresh.drifted_close (h : Fresh s) {e : Event} {rest : List Event}
    (hbatch : s.batch = e :: rest) (cause : Cause) (hle : (s.sockets.card : ℤ) ≤ s.connections) :
    Drifted (s.close e.fd cause) := by
  have hcard := h.card_close hbatch cause
  have hsame : (s.close e.fd cause).connections = s.connections := rfl
  exact ⟨by omega, .inl (by omega)⟩

/-- A drift lasts. -/
theorem Drifted.step (h : Drifted s) (hfresh : Fresh s) (he : Effect s a s') : Drifted s' := by
  obtain ⟨hle, hdrift⟩ := h
  have hown : ∀ c, (¬∀ d ∈ s.closes, d.Own) → ¬∀ d ∈ s.closes ++ [c], d.Own :=
    fun c hno hcon => hno (own_append.mp hcon).1
  cases he with
  | connected fd hfd =>
    have hcard := Finset.card_insert_of_notMem hfd
    refine ⟨?_, hdrift.imp_left fun hlt => ?_⟩
    · dsimp only
      omega
    · dsimp only
      omega
  | ended e rest hbatch =>
    have hcard := hfresh.card_close hbatch (.recv s.sockfd)
    refine ⟨?_, hdrift.imp (fun hlt => ?_) (hown _)⟩
    · dsimp only
      omega
    · dsimp only
      omega
  | error e rest hbatch => exact hfresh.drifted_close hbatch (.recv s.sockfd) hle
  | neither e rest hbatch => exact hfresh.drifted_close hbatch .neither hle
  | failed | reported | handled | passed => exact ⟨hle, hdrift⟩

/-- The first step that is not accounted for makes a drift. -/
theorem drifted_of_not_accounted (h : Balanced s) (hfresh : Fresh s) (hbad : ¬Accounted s a)
    (he : Effect s a s') : Drifted s' := by
  have hconnections := h.connections
  cases he with
  | ended e rest hbatch =>
    have hcard := hfresh.card_close hbatch (.recv s.sockfd)
    -- The count is kept here; it is the wrong socket that was closed.
    refine ⟨?_, .inr fun hcon => hbad ?_⟩
    · dsimp only
      omega
    · have hfd := own_recv.mp (own_append.mp hcon).2
      unfold Accounted
      rw [hbatch]
      intro e' he'
      exact Option.some.inj he' ▸ hfd
  | error e rest hbatch => exact hfresh.drifted_close hbatch (.recv s.sockfd) hconnections.ge
  | neither e rest hbatch => exact hfresh.drifted_close hbatch .neither hconnections.ge
  | handled a isContinue hended herror hneither =>
    refine absurd ?_ hbad
    cases a with
    | recv result =>
      cases result with
      | ended => exact absurd rfl hended
      | error => exact absurd rfl herror
      | data | eintr => exact trivial
    | neither => exact absurd rfl hneither
    | connect | epollWait | send | pass => exact trivial
  | connected | failed | reported | passed => exact absurd trivial hbad

/-- As long as the loop closes only `sockfd`, and only where `recv` returns 0 in an event of
`sockfd` itself, `connections` is the number of open sockets, and each socket closed was closed on
its own account. The first event in which it closes a socket otherwise ends this for good. -/
theorem balanced_of_accounted (others : ℕ → Bool) :
    (∀ s, ReachableIf others Accounted s → Balanced s) ∧
    ∀ s a s' t, ReachableIf others Accounted s → step others s a = some s' → ¬Accounted s a →
      Lib.Reaches (step others) (fun _ _ => True) s' t → ¬Balanced t := by
  have hbalanced : ∀ s, ReachableIf others Accounted s → Balanced s := fun s hs =>
    Lib.Reaches.invariant_of (I := Balanced) (fun _ => fresh_of_run) Balanced.init
      (fun _ _ _ hfresh h hok hstep => h.step hfresh hok (effect_of_step hstep)) hs
  refine ⟨hbalanced, fun s a s' t hs hstep hbad ht => ?_⟩
  have hfresh := fresh_of_run hs
  have he := effect_of_step hstep
  -- That the events are of open sockets is needed all the way for the drift to last.
  have hdrifted := Lib.Reaches.invariant (I := fun u => Drifted u ∧ Fresh u)
    ⟨drifted_of_not_accounted (hbalanced s hs) hfresh hbad he, hfresh.step he⟩
    (fun _ _ _ h _ hstep =>
      ⟨h.1.step h.2 (effect_of_step hstep), h.2.step (effect_of_step hstep)⟩) ht
  exact hdrifted.1.not_balanced

/-! ## A run up to the first batch of events -/

/-- The first `n` connections are open, with the descriptors from 4 on. -/
structure Filled (n : ℕ) (s : State) : Prop where
  /-- Nothing else goes on. -/
  pc : s.pc = .head
  /-- The count. -/
  connections : s.connections = n
  /-- `isContinue` is 0. -/
  isContinue : s.isContinue = false
  /-- The sockets. -/
  sockets : s.sockets = Finset.Ico 4 (n + 4)
  /-- None was closed. -/
  closes : s.closes = []

/-- One more connection. -/
theorem Filled.connect {n : ℕ} (h : Filled n s) (hn : n < 340000) :
    step (fun fd => decide (fd < 4)) s (.connect (some (n + 4))) = some { s with
      pc := .opened
      connections := s.connections + 1
      sockfd := n + 4
      sockets := insert (n + 4) s.sockets } := by
  have hopens : s.pc = .head ∧ s.Opens := by
    refine ⟨h.pc, ?_, h.isContinue⟩
    have hconnections := h.connections
    omega
  have hfd : n + 4 ∉ s.sockets := by
    rw [h.sockets, Finset.mem_Ico]
    omega
  refine (if_pos hopens).trans ?_
  exact if_pos ⟨hfd, decide_eq_false (by omega)⟩

/-- The descriptors from 4 on are all in use. -/
theorem Filled.sockets_insert {n : ℕ} (h : Filled n s) :
    insert (n + 4) s.sockets = Finset.Ico 4 (n + 1 + 4) := by
  ext fd
  rw [h.sockets, Finset.mem_insert, Finset.mem_Ico, Finset.mem_Ico]
  omega

/-- Opening connections and going on is accounted for. -/
theorem accounted_connect (fd : Option ℕ) : Accounted s (.connect fd) := trivial

/-- Up to 998 connections are opened without any events. -/
theorem exists_filled {n : ℕ} (hn : n ≤ 998) :
    ∃ s, ReachableIf (fun fd => decide (fd < 4)) Accounted s ∧ Filled n s := by
  induction n with
  | zero => exact ⟨State.init, .refl, rfl, rfl, rfl, rfl, rfl⟩
  | succ n ih =>
    obtain ⟨s, hs, hfilled⟩ := ih (by omega)
    have hconnections := hfilled.connections
    have hno : ¬((s.connections + 1).tmod 1000 = 999 ∨ 340000 ≤ s.connections + 1) := by
      rw [hconnections, Int.tmod_eq_emod_of_nonneg (by omega)]
      omega
    have hopened := hs.tail (accounted_connect _) (hfilled.connect (by omega))
    -- Below 999 connections no events are waited for.
    refine ⟨_, hopened.tail (a := .pass) (by exact trivial) (if_neg hno), rfl, ?_,
      hfilled.isContinue, hfilled.sockets_insert, hfilled.closes⟩
    dsimp only
    omega

/-- The 999th connection is opened. -/
theorem exists_opened : ∃ s, ReachableIf (fun fd => decide (fd < 4)) Accounted s ∧
    s.pc = .opened ∧ s.connections = 999 ∧ s.sockfd = 1002 ∧ s.sockets = Finset.Ico 4 1003 ∧
    s.closes = [] := by
  obtain ⟨s, hs, hfilled⟩ := exists_filled le_rfl
  refine ⟨_, hs.tail (accounted_connect _) (hfilled.connect (by decide)), rfl, ?_, rfl,
    hfilled.sockets_insert, hfilled.closes⟩
  have hconnections := hfilled.connections
  dsimp only
  omega

/-- An event is reported with it. -/
theorem exists_reported {e : Event} (he : 4 ≤ e.fd ∧ e.fd < 1003) :
    ∃ s, ReachableIf (fun fd => decide (fd < 4)) Accounted s ∧ s.pc = .events ∧
      s.connections = 999 ∧ s.sockfd = 1002 ∧ s.sockets = Finset.Ico 4 1003 ∧ s.batch = [e] ∧
      s.closes = [] := by
  obtain ⟨s, hs, hpc, hconnections, hsockfd, hsockets, hcloses⟩ := exists_opened
  have hwaits : s.Waits := by
    unfold State.Waits
    rw [hconnections]
    decide
  have hopen : ∀ e' ∈ [e], e'.fd ∈ s.sockets := by
    rw [List.forall_mem_singleton, hsockets]
    exact Finset.mem_Ico.mpr he
  have hlength : (([e] : List Event).length : ℤ) ≤ s.connections := by
    rw [hconnections]
    show (1 : ℤ) ≤ 999
    decide
  have hstep : step (fun fd => decide (fd < 4)) s (.epollWait [e]) =
      some { s with pc := .events, batch := [e] } :=
    if_pos ⟨hpc, hwaits, List.nodup_singleton _, hopen, hlength⟩
  exact ⟨_, hs.tail (by exact trivial) hstep, rfl, hconnections, hsockfd, hsockets, rfl, hcloses⟩

/-- An event for which `recv` is called. -/
theorem step_recv {fd : ℕ} (result : RecvResult) (hpc : s.pc = .events)
    (hbatch : s.batch = [{ fd := fd, epollout := false, epollin := true }]) :
    step others s (.recv result) = receive s fd result := by
  unfold step handle
  rw [hpc, hbatch]
  rfl

/-- A run in which `sockfd` is closed by its own event. -/
theorem balanced_of_accounted_own : ∃ s, s.connections = 998 ∧
    s.closes = [{ clientfd := 1002, cause := .recv 1002 }] ∧ Balanced s := by
  obtain ⟨s, hs, hpc, hconnections, hsockfd, -, hbatch, hcloses⟩ :=
    exists_reported (e := { fd := 1002, epollout := false, epollin := true }) (by decide)
  have hok : Accounted s (.recv .ended) := by
    unfold Accounted
    rw [hbatch, hsockfd]
    rintro e ⟨⟩
    rfl
  have hended := hs.tail hok (step_recv .ended hpc hbatch)
  refine ⟨_, ?_, ?_, (balanced_of_accounted _).1 _ hended⟩
  · dsimp only
    omega
  · dsimp only [State.close]
    rw [hcloses, hsockfd]
    rfl

/-- Where `recv` on `sockfd` fails in an event of another connection, this other connection is
closed and still counted at the head of the loop. -/
theorem balanced_of_accounted_error : ∃ s,
    ReachableIf (fun fd => decide (fd < 4)) (fun _ _ => True) s ∧ s.pc = .head ∧
      s.connections = 999 ∧ s.sockets.card = 998 ∧
      s.closes = [{ clientfd := 4, cause := .recv 1002 }] ∧ ¬Balanced s := by
  obtain ⟨s, hs, hpc, hconnections, hsockfd, hsockets, hbatch, hcloses⟩ :=
    exists_reported (e := { fd := 4, epollout := false, epollin := true }) (by decide)
  have hany : ReachableIf (fun fd => decide (fd < 4)) (fun _ _ => True) s :=
    hs.mono fun _ _ _ => trivial
  have hrun := hany.tail trivial (step_recv .error hpc hbatch)
  have hempty : (s.close 4 (.recv s.sockfd)).batch = [] := by
    dsimp only [State.close]
    rw [hbatch]
    rfl
  have hhead := hrun.tail (a := .pass) trivial
    (u := { s.close 4 (.recv s.sockfd) with pc := .head }) (by
      show pass _ = _
      unfold pass
      dsimp only [State.close] at hempty ⊢
      rw [hpc]
      exact if_pos hempty)
  have hcard : (s.sockets.erase 4).card = 998 := by
    rw [hsockets, Finset.card_erase_of_mem (Finset.mem_Ico.mpr (by decide)), Nat.card_Ico]
  refine ⟨_, hhead, rfl, hconnections, hcard, ?_, fun hbalanced => ?_⟩
  · dsimp only [State.close]
    rw [hcloses, hsockfd]
    rfl
  · have hcount := hbalanced.connections
    dsimp only [State.close] at hcount
    rw [hcard] at hcount
    omega

end CPStudy.Epoll.LoadClient
